import Cashbox.Btc.HeaderDownload

/-!
# A downstream that follows the trunk

A downstream pops its last block on `block_disconnected`, which must name that
block, and appends on `header_connected`. `Mirrors` says that what it holds is
the trunk with the heights of its entries. `MessageOk` is the condition on a
`headers` message under which the agreement survives it.
-/

namespace Cashbox.Btc

open Cashbox.Lib

variable {W D : Type}

/-! ## Replaying events -/

/-- What a downstream holds: blocks with their heights, genesis first. -/
abbrev Downstream := List (BlockHeader × Nat)

/-- `none` when the block disconnected is not the last one. -/
def Downstream.receive (view : Downstream) : Event → Option Downstream
  | .blockDisconnected header =>
    match view.getLast? with
    | some block => if block.1 = header then some view.dropLast else none
    | none => none
  | .headerConnected header height => some (view ++ [(header, height)])
  | _ => some view

def replay (view : Downstream) (events : List Event) : Option Downstream :=
  events.foldlM Downstream.receive view

theorem replay_append (view : Downstream) (es es' : List Event) :
    replay view (es ++ es') = (replay view es).bind fun view' => replay view' es' :=
  List.foldlM_append

theorem replay_connected (view blocks : Downstream) :
    replay view (blocks.map fun b => Event.headerConnected b.1 b.2) = some (view ++ blocks) := by
  induction blocks generalizing view with
  | nil => simp [replay]
  | cons b blocks ih =>
    show replay (view ++ [(b.1, b.2)]) (blocks.map fun b => Event.headerConnected b.1 b.2) = _
    rw [ih, List.append_assoc]
    rfl

/-- What `HeaderDownload` has told a downstream that started from `view`. -/
def HeaderDownload.told (s : HeaderDownload W D) (view : Downstream) : Option Downstream :=
  replay view s.events

/-! ## Agreement with the trunk -/

/-- The downstream holds the headers of the trunk, each with its index as height. -/
def Mirrors (view : Downstream) (c : HeaderCache W) : Prop :=
  view.length = c.trunk.length ∧
    ∀ (i : Nat) k, c.trunk[i]? = some k →
      ∃ h, c.headers k = some h ∧ view[i]? = some (h.stored.header, i)

/-- Agreement only depends on the trunk and on what is known of its entries. -/
theorem Mirrors.of_known {view : Downstream} {c c' : HeaderCache W} (h : Mirrors view c)
    (htrunk : c'.trunk = c.trunk)
    (hkeep : ∀ k x, c.headers k = some x → c'.headers k = some x) : Mirrors view c' := by
  refine ⟨h.1.trans (by rw [htrunk]), ?_⟩
  intro i k hk
  rw [htrunk] at hk
  obtain ⟨x, hx, hview⟩ := h.2 i k hk
  exact ⟨x, hkeep k x hx, hview⟩

/-- A new header at the end of both keeps the agreement. -/
theorem Mirrors.concat {view : Downstream} {c : HeaderCache W} (h : Mirrors view c)
    {x : CachedHeader W} (hnew : c.headers x.id = none)
    (hheight : x.stored.height = c.trunk.length) :
    Mirrors (view ++ [(x.stored.header, x.stored.height)])
      { c.insert x.id x with trunk := c.trunk ++ [x.id] } := by
  refine ⟨by simp [h.1], ?_⟩
  intro i k hk
  by_cases hi : i < c.trunk.length
  · -- an old entry: its header is not the new one
    rw [List.getElem?_append_left hi] at hk
    obtain ⟨y, hy, hview⟩ := h.2 i k hk
    refine ⟨y, ?_, ?_⟩
    · show (c.insert x.id x).headers k = some y
      rw [HeaderCache.insert_headers_ne c x, hy]
      rintro rfl
      rw [hnew] at hy
      cases hy
    · rw [List.getElem?_append_left (h.1 ▸ hi), hview]
  · -- the last entry
    have hlen : i < (c.trunk ++ [x.id]).length := (List.getElem?_eq_some_iff.mp hk).1
    have hieq : i = c.trunk.length := by
      rw [List.length_append, List.length_singleton] at hlen
      omega
    subst hieq
    have hkid : k = x.id := by simpa using hk.symm
    subst hkid
    refine ⟨x, HeaderCache.insert_headers_self c x.id x, ?_⟩
    rw [List.getElem?_append_right (le_of_eq h.1), h.1, Nat.sub_self, hheight]
    rfl

namespace HeaderDownload

/-! ## The condition on a message -/

section Condition

variable [LinearOrder W] (store : BitcoinAdaptor W D) (env : HeaderEnv W)

/-- The header is appended to the trunk and stored. -/
def Extends (c : ChainDb W D) (header : BlockHeader) : Prop :=
  header.prevBlockhash ≠ 0 ∧ c.headercache.MovesTip env header ∧
    c.headercache.tipHash = some header.prevBlockhash ∧
    c.headercache.trunk.length + 1 < 2 ^ 32 ∧
    ((ChainDb.addHeader store env header).run c).2.isOk

/-- The header is not accepted, or not stored, and leaves the trunk alone. -/
def Dropped (c : ChainDb W D) (header : BlockHeader) : Prop :=
  (if header.prevBlockhash = 0 then env.genesisWork header = none
    else ¬ c.headercache.MovesTip env header) ∧
  ¬ ((ChainDb.addHeader store env header).run c).2.isOk

/-- Each header of a message is known, or extends the tip, or is dropped before
any header of the message was accepted; at the end the store takes the batch.
`accepted` tells whether an earlier header of the message was accepted. -/
def HeadersOk : Bool → ChainDb W D → List BlockHeader → Prop
  | accepted, c, [] => accepted = true → ((ChainDb.batch store).run c).2.isOk
  | accepted, c, header :: queue =>
    if (c.headercache.headers (env.bitcoinHash header)).isSome then HeadersOk accepted c queue
    else (Extends store env c header ∧
        HeadersOk true ((ChainDb.addHeader store env header).run c).1 queue) ∨
      (Dropped store env c header ∧ accepted = false)

instance (c : ChainDb W D) (header : BlockHeader) : Decidable (Extends store env c header) := by
  unfold Extends
  infer_instance

instance (c : ChainDb W D) (header : BlockHeader) [DecidableEq W] :
    Decidable (Dropped store env c header) := by
  unfold Dropped
  infer_instance

instance decidableHeadersOk : ∀ (accepted : Bool) (c : ChainDb W D) (queue : List BlockHeader),
    Decidable (HeadersOk store env accepted c queue)
  | accepted, c, [] =>
    inferInstanceAs (Decidable (accepted = true → ((ChainDb.batch store).run c).2.isOk))
  | accepted, c, header :: queue =>
    have : Decidable (HeadersOk store env accepted c queue) := decidableHeadersOk accepted c queue
    have : Decidable (HeadersOk store env true
        ((ChainDb.addHeader store env header).run c).1 queue) :=
      decidableHeadersOk true ((ChainDb.addHeader store env header).run c).1 queue
    inferInstanceAs (Decidable (if (c.headercache.headers (env.bitcoinHash header)).isSome then
      HeadersOk store env accepted c queue
    else (Extends store env c header ∧
        HeadersOk store env true ((ChainDb.addHeader store env header).run c).1 queue) ∨
      (Dropped store env c header ∧ accepted = false)))

/-- The condition on a `headers` message in the state it arrives in. -/
def MessageOk (s : HeaderDownload W D) (msg : PeerId × List BlockHeader) : Prop :=
  HeadersOk store env false s.chaindb msg.2

instance (s : HeaderDownload W D) (msg : PeerId × List BlockHeader) :
    Decidable (MessageOk store env s msg) := by
  unfold MessageOk
  infer_instance

end Condition

/-! ## Calls that do not concern the downstream -/

/-- The header cache and what any downstream was told. -/
def outlook (s : HeaderDownload W D) : HeaderCache W × (Downstream → Option Downstream) :=
  (s.chaindb.headercache, s.told)

/-- An event no downstream acts on. -/
def Silent (e : Event) : Prop := ∀ view, Downstream.receive view e = some view

theorem emit_keeps {e : Event} (he : Silent e) :
    (emit e : Method (HeaderDownload W D) Error Unit).Keeps outlook := by
  intro s
  show (s.chaindb.headercache, fun view => replay view (s.events ++ [e])) =
    (s.chaindb.headercache, fun view => replay view s.events)
  congr 1
  funext view
  rw [replay_append]
  cases replay view s.events with
  | none => rfl
  | some view' =>
    show replay view' [e] = some view'
    simp only [replay, List.foldlM_cons, he view', List.foldlM_nil]
    rfl

theorem batch_keeps (store : BitcoinAdaptor W D) :
    (onChainDb (ChainDb.batch store) : Method (HeaderDownload W D) Error Unit).Keeps outlook :=
  fun _ => rfl

theorem getHeaders_keeps (busy : Busy) (peer : PeerId) :
    (getHeaders busy peer : Method (HeaderDownload W D) Error Unit).Keeps outlook := by
  intro s
  unfold getHeaders
  rw [Method.run_bind_of_ok (Method.run_get s)]
  split_ifs
  · rfl
  · refine (Method.Keeps.lift s.chaindb.headercache.locatorHashes).bind (fun locator => ?_) s
    cases hfirst : locator.head? with
    | none => exact Method.Keeps.pure ()
    | some first =>
      have hexpect : Silent (.timeoutExpect peer) := fun _ => rfl
      have hget : Silent (.getHeaders peer locator first) := fun _ => rfl
      exact (emit_keeps hexpect).bind fun _ => emit_keeps hget

theorem askMore_keeps (busy : Busy) (peer : PeerId) (b : Batch) :
    (askMore busy peer b : Method (HeaderDownload W D) Error Unit).Keeps outlook :=
  (getHeaders_keeps busy peer).ite (Method.Keeps.pure ())

theorem reportHeight_keeps (b : Batch) :
    (reportHeight b : Method (HeaderDownload W D) Error Unit).Keeps outlook := by
  have hsilent : Silent (.height b.height) := fun _ => rfl
  exact (emit_keeps hsilent).ite (Method.Keeps.pure ())

/-! ## One message -/

/-- The trunk is a chain, and a downstream that started from `view₀` holds it. -/
def Agrees (env : HeaderEnv W) (root : Sha256dHash) (view₀ : Downstream)
    (s : HeaderDownload W D) : Prop :=
  HeaderCache.TrunkInv env root s.chaindb.headercache ∧
    ∃ view, s.told view₀ = some view ∧ Mirrors view s.chaindb.headercache

/-- A state that looks the same agrees as well. -/
theorem Agrees.of_outlook {env : HeaderEnv W} {root : Sha256dHash} {view₀ : Downstream}
    {s s' : HeaderDownload W D} (h : Agrees env root view₀ s) (heq : outlook s' = outlook s) :
    Agrees env root view₀ s' := by
  obtain ⟨hcache, htold⟩ := Prod.mk.inj heq
  unfold Agrees
  rw [hcache, htold]
  exact h

/-- In the middle of a message: the trunk is what the downstream holds together
with the connected headers it has not been told of. -/
structure Pending (env : HeaderEnv W) (root : Sha256dHash) (view₀ : Downstream)
    (s : HeaderDownload W D) (b : Batch) : Prop where
  trunk : HeaderCache.TrunkInv env root s.chaindb.headercache
  ahead : ∃ view, s.told view₀ = some view ∧
    Mirrors (view ++ b.connectedHeaders) s.chaindb.headercache
  attached : b.disconnectedHeaders = []

variable {env : HeaderEnv W} {root : Sha256dHash} {view₀ : Downstream}

theorem Pending.agrees {s : HeaderDownload W D} {b : Batch} (h : Pending env root view₀ s b)
    (hempty : b.connectedHeaders = []) : Agrees env root view₀ s := by
  obtain ⟨view, htold, hmirrors⟩ := h.ahead
  rw [hempty, List.append_nil] at hmirrors
  exact ⟨h.trunk, view, htold, hmirrors⟩

/-- The flush tells the downstream what was pending. -/
theorem Pending.notify {s : HeaderDownload W D} {b : Batch} (h : Pending env root view₀ s b) :
    Agrees env root view₀ ((HeaderDownload.notify b).run s).1 := by
  obtain ⟨view, htold, hmirrors⟩ := h.ahead
  refine ⟨h.trunk, view ++ b.connectedHeaders, ?_, hmirrors⟩
  show replay view₀ (s.events ++ b.disconnectedHeaders.map Event.blockDisconnected ++
    b.connectedHeaders.map fun c => Event.headerConnected c.1 c.2) = _
  unfold told at htold
  rw [h.attached, List.map_nil, List.append_nil, replay_append, htold, Option.bind_some,
    replay_connected]

/-- The flush after an inner loop that emptied the queue, whatever follows it that
does not concern the downstream. -/
theorem Pending.flush {store : BitcoinAdaptor W D} {s : HeaderDownload W D} {b : Batch}
    (h : Pending env root view₀ s b)
    (hbatch : b.connectedHeaders ≠ [] → ((ChainDb.batch store).run s.chaindb).2.isOk)
    {α : Type} {k : Method (HeaderDownload W D) Error α} (hk : k.Keeps outlook) :
    Agrees env root view₀ ((do
      onChainDb (ChainDb.batch store)
      HeaderDownload.notify b
      k : Method (HeaderDownload W D) Error α).run s).1 := by
  have hkeep := batch_keeps store s
  -- a batch that fails loses the notifications, but then there are none
  have hempty : ¬ ((ChainDb.batch store).run s.chaindb).2.isOk → b.connectedHeaders = [] :=
    fun hfail => not_not.mp (mt hbatch hfail)
  rcases hrun : (onChainDb (ChainDb.batch store) : Method (HeaderDownload W D) Error Unit).run s
    with ⟨s', r | e | p⟩
  · rw [Method.run_bind_of_ok hrun]
    rw [hrun] at hkeep
    obtain ⟨hcache, htold⟩ := Prod.mk.inj hkeep
    have hpending : Pending env root view₀ s' b := by
      refine ⟨?_, ?_, h.attached⟩
      · rw [hcache]
        exact h.trunk
      · rw [hcache, htold]
        exact h.ahead
    exact hpending.notify.of_outlook (Method.Keeps.view_bind (fun _ => hk) s')
  · have hres : ((ChainDb.batch store).run s.chaindb).2 = .err e := congrArg Prod.snd hrun
    rw [Method.run_bind_of_err hrun]
    rw [hrun] at hkeep
    exact (h.agrees (hempty (by simp [hres, Outcome.isOk]))).of_outlook hkeep
  · have hres : ((ChainDb.batch store).run s.chaindb).2 = .panic p := congrArg Prod.snd hrun
    rw [Method.run_bind_of_panic hrun]
    rw [hrun] at hkeep
    exact (h.agrees (hempty (by simp [hres, Outcome.isOk]))).of_outlook hkeep

section Messages

variable [LinearOrder W] {store : BitcoinAdaptor W D} {peer : PeerId} {s : HeaderDownload W D}

/-- What the inner loop leaves: an empty queue and pending notifications that the
store will let through, or agreement. -/
def LoopDone (store : BitcoinAdaptor W D) (env : HeaderEnv W) (root : Sha256dHash)
    (view₀ : Downstream) :
    HeaderDownload W D × Outcome Error (Option (Batch × List BlockHeader)) → Prop
  | (s, .ok (some (b, queue))) =>
    queue = [] ∧ Pending env root view₀ s b ∧
      (b.connectedHeaders ≠ [] → ((ChainDb.batch store).run s.chaindb).2.isOk)
  | (s, _) => Agrees env root view₀ s

/-- A dropped header leaves the agreement as it is. -/
theorem Agrees.dropped (h : Agrees env root view₀ s) {header : BlockHeader}
    (hdrop : Dropped store env s.chaindb header) {c : ChainDb W D}
    (hc : c.headercache = (s.chaindb.headercache.addHeader env header).1) :
    Agrees env root view₀ { s with chaindb := c } := by
  obtain ⟨htrunk, view, htold, hmirrors⟩ := h
  obtain ⟨hinv, hsame, hkeep, _⟩ := htrunk.addHeader_of_stays (.inr hdrop.1)
  rw [← hc] at hinv hsame hkeep
  exact ⟨hinv, view, htold, hmirrors.of_known hsame hkeep⟩

/-- The notification of a header that extends the tip becomes pending. -/
theorem Pending.extended {b : Batch} (h : Pending env root view₀ s b) {header : BlockHeader}
    (hnew : s.chaindb.headercache.headers (env.bitcoinHash header) = none)
    (hext : Extends store env s.chaindb header) :
    ∃ c cached b', (ChainDb.addHeader store env header).run s.chaindb =
        (c, .ok (some ⟨cached, none, some [cached.id]⟩)) ∧
      accept b ⟨cached, none, some [cached.id]⟩ = .ok b' ∧
      ∀ e, Silent e → Pending env root view₀ ⟨c, s.events ++ [e]⟩ b' := by
  obtain ⟨hprev, hmoves, htip, hlen, hstored⟩ := hext
  obtain ⟨cached, hadd, hid, hheader, hheight, hinv⟩ :=
    h.trunk.addHeader_of_extends hnew hprev hmoves htip hlen
  have hcache := ChainDb.addHeader_headercache store env s.chaindb header
  -- the header is stored, or the store fails
  rcases hrun : (ChainDb.addHeader store env header).run s.chaindb with ⟨c, r | e | p⟩
  · have hr := ChainDb.addHeader_eq_ok hrun
    rw [hadd] at hr
    cases hr
    rw [hrun, hadd] at hcache
    refine ⟨c, cached, _, rfl, rfl, ?_⟩
    intro e he
    -- the event is none that the downstream is told of
    obtain ⟨view, htold, hmirrors⟩ := h.ahead
    have hsame := congrFun (Prod.mk.inj (emit_keeps he s)).2 view₀
    refine ⟨?_, ⟨view, hsame.trans htold, ?_⟩, h.attached⟩
    · show HeaderCache.TrunkInv env root c.headercache
      rw [hcache]
      exact hinv
    · show Mirrors (view ++ (b.connectedHeaders ++ _)) c.headercache
      rw [hcache, ← List.append_assoc]
      apply hmirrors.concat
      · rw [hid]
        exact hnew
      · exact hheight
  · rw [hrun] at hstored
    exact absurd hstored (by simp [Outcome.isOk])
  · rw [hrun] at hstored
    exact absurd hstored (by simp [Outcome.isOk])

/-- The inner loop over headers that meet the condition. -/
theorem innerLoop_done {accepted : Bool} {queue : List BlockHeader} {b : Batch}
    (h : Pending env root view₀ s b) (hnone : accepted = false → b.connectedHeaders = [])
    (hok : HeadersOk store env accepted s.chaindb queue) :
    LoopDone store env root view₀ ((innerLoop store env peer queue b).run s) := by
  induction queue generalizing accepted s b with
  | nil =>
    refine ⟨rfl, h, ?_⟩
    intro hne
    apply hok
    cases accepted with
    | true => rfl
    | false => exact absurd (hnone rfl) hne
  | cons header queue ih =>
    unfold innerLoop
    rw [HeadersOk] at hok
    by_cases hk : (s.chaindb.headercache.headers (env.bitcoinHash header)).isSome
    · -- known: the loop goes on from the same state
      rw [if_pos hk] at hok
      have hrun : (onChainDb (ChainDb.addHeader store env header)).run s = (s, .ok none) := by
        unfold onChainDb
        rw [Method.run_on, ChainDb.addHeader_of_known hk]
      rw [Method.run_bind_of_ok (Method.run_attempt_of_ok hrun)]
      exact ih h hnone hok
    · rw [if_neg hk] at hok
      have hnew : s.chaindb.headercache.headers (env.bitcoinHash header) = none := by
        simpa using hk
      rcases hok with ⟨hext, hrest⟩ | ⟨hdrop, hacc⟩
      · -- it extends the tip: one more connected header
        obtain ⟨c, cached, b', hadd, haccept, hpending⟩ := h.extended hnew hext
        have hrun : (onChainDb (ChainDb.addHeader store env header)).run s =
            ({ s with chaindb := c }, .ok (some ⟨cached, none, some [cached.id]⟩)) := by
          unfold onChainDb
          rw [Method.run_on, hadd]
        rw [Method.run_bind_of_ok (Method.run_attempt_of_ok hrun)]
        simp only [haccept]
        rw [hadd] at hrest
        have hsilent : Silent (.saveHeader (env.bitcoinHash header) header.time) := fun _ => rfl
        have haccepted : true = false → b'.connectedHeaders = [] := fun hfalse => nomatch hfalse
        exact ih (hpending _ hsilent) haccepted hrest
      · -- it is dropped, and nothing is pending
        have hagrees := h.agrees (hnone hacc)
        have hcache := ChainDb.addHeader_headercache store env s.chaindb header
        have hrun : (onChainDb (ChainDb.addHeader store env header)).run s =
            ({ s with chaindb := ((ChainDb.addHeader store env header).run s.chaindb).1 },
              ((ChainDb.addHeader store env header).run s.chaindb).2) := rfl
        have hafter := hagrees.dropped hdrop hcache
        rcases hres : ((ChainDb.addHeader store env header).run s.chaindb).2 with r | e | p
        · exact absurd (by rw [hres]; rfl) hdrop.2
        · rw [hres] at hrun
          rw [Method.run_bind_of_ok (Method.run_attempt_of_err hrun)]
          have hban : Silent (.ban peer 100) := fun _ => rfl
          -- only a header without proof of work bans the peer
          cases e
          case spvBadProofOfWork => exact hafter.of_outlook (emit_keeps hban _)
          all_goals exact hafter
        · rw [hres] at hrun
          rw [Method.run_bind_of_panic (Method.run_attempt_of_panic hrun)]
          exact hafter

/-- A message that meets the condition empties the queue in one inner loop. -/
theorem outerLoop_agrees {fuel : Nat} {header : BlockHeader} {queue : List BlockHeader} {b : Batch}
    (h : Agrees env root view₀ s) (hok : HeadersOk store env false s.chaindb (header :: queue)) :
    Agrees env root view₀
      ((outerLoop store env peer (fuel + 1) (header :: queue) b).run s).1 := by
  obtain ⟨htrunk, view, htold, hmirrors⟩ := h
  have hpending : Pending env root view₀ s
      { b with connectedHeaders := [], disconnectedHeaders := [] } :=
    ⟨htrunk, ⟨view, htold, by rwa [List.append_nil]⟩, rfl⟩
  have hdone : LoopDone store env root view₀ ((innerLoop store env peer (header :: queue)
      { b with connectedHeaders := [], disconnectedHeaders := [] }).run s) :=
    innerLoop_done hpending (fun _ => rfl) hok
  rw [outerLoop]
  rcases hrun : (innerLoop store env peer (header :: queue)
    { b with connectedHeaders := [], disconnectedHeaders := [] }).run s with ⟨s', r | e | p⟩
  · rw [hrun] at hdone
    rw [Method.run_bind_of_ok hrun]
    cases r with
    | none => exact hdone
    | some r =>
      obtain ⟨b', queue'⟩ := r
      obtain ⟨rfl, hpending', hbatch⟩ := hdone
      -- the queue is empty, so the next turn does nothing
      have hdone' : (outerLoop store env peer fuel [] b').Keeps outlook := by
        cases fuel <;> exact Method.Keeps.pure _
      exact hpending'.flush hbatch hdone'
  · rw [hrun] at hdone
    rw [Method.run_bind_of_err hrun]
    exact hdone
  · rw [hrun] at hdone
    rw [Method.run_bind_of_panic hrun]
    exact hdone

/-- **One message.** A `headers` message that meets the condition keeps the
agreement between the trunk and the downstream. -/
theorem headers_agrees (h : Agrees env root view₀ s) (busy : Busy) {hs : List BlockHeader}
    (hok : HeadersOk store env false s.chaindb hs) :
    Agrees env root view₀ ((headers store env busy peer hs).run s).1 := by
  have hreceived : Silent (.timeoutReceived peer) := fun _ => rfl
  have hstart : Agrees env root view₀ ⟨s.chaindb, s.events ++ [.timeoutReceived peer]⟩ :=
    h.of_outlook (emit_keeps hreceived s)
  have hemit : (emit (.timeoutReceived peer) : Method (HeaderDownload W D) Error Unit).run s =
      (⟨s.chaindb, s.events ++ [.timeoutReceived peer]⟩, .ok ()) := rfl
  unfold headers
  rw [Method.run_bind_of_ok hemit]
  cases hs with
  | nil => exact hstart
  | cons header queue =>
    have hpos : (header :: queue).length > 0 := Nat.succ_pos _
    rw [if_pos hpos, Method.run_bind_of_ok (Method.run_get _)]
    cases htip : s.chaindb.headerTip with
    | none => exact hstart
    | some tip =>
      refine (outerLoop_agrees hstart hok).of_outlook (Method.Keeps.view_bind ?_ _)
      -- what follows the loop does not concern the downstream
      intro r
      cases r with
      | none => exact Method.Keeps.pure ()
      | some b => exact (askMore_keeps busy peer b).bind fun _ => reportHeight_keeps b

/-! ## Runs of messages -/

/-- The state after a message, whatever `headers` returns for it. -/
def step (store : BitcoinAdaptor W D) (env : HeaderEnv W) (busy : Busy)
    (s : HeaderDownload W D) (msg : PeerId × List BlockHeader) : HeaderDownload W D :=
  ((headers store env busy msg.1 msg.2).run s).1

/-- **The downstream holds the trunk.** A downstream that starts from the trunk
holds it after every message of a run whose messages meet the condition. -/
theorem mirrors_of_guarded_run (store : BitcoinAdaptor W D) (env : HeaderEnv W) (busy : Busy)
    {root : Sha256dHash} {c₀ : ChainDb W D}
    (htrunk : HeaderCache.TrunkInv env root c₀.headercache) {view₀ : Downstream}
    (hview : Mirrors view₀ c₀.headercache) {msgs : List (PeerId × List BlockHeader)}
    (hok : Guarded (step store env busy) (MessageOk store env) ⟨c₀, []⟩ msgs) :
    ∃ view, (run (step store env busy) ⟨c₀, []⟩ msgs).told view₀ = some view ∧
      Mirrors view (run (step store env busy) ⟨c₀, []⟩ msgs).chaindb.headercache := by
  have hstart : Agrees env root view₀ ⟨c₀, []⟩ := ⟨htrunk, view₀, rfl, hview⟩
  have hstep : ∀ s msg, Agrees env root view₀ s → MessageOk store env s msg →
      Agrees env root view₀ (step store env busy s msg) :=
    fun s msg h hmsg => headers_agrees h busy hmsg
  exact (hok.invariant hstep hstart).2

end Messages

/-! ## A run on each side of the condition -/

section Concrete

open HeaderCache

/-- The timeouts never keep the client from asking again. -/
def neverBusy : Busy := fun _ _ => false

/-- A downstream that holds the regtest genesis block. -/
def unitView : Downstream := [(genesisHeader 0 .regtest, 0)]

theorem mirrors_unitView : Mirrors unitView ChainDb.unitDb.headercache := by
  refine ⟨by decide +kernel, ?_⟩
  intro i k hk
  have htrunk : ChainDb.unitDb.headercache.trunk = [2] := by decide +kernel
  rw [htrunk] at hk
  cases i with
  | zero =>
    cases hk
    exact ⟨_, rfl, rfl⟩
  | succ i => cases hk

/-- Two messages: headers that extend the tip with a known one among them, and a
header without proof of work. -/
theorem mirrors_of_guarded_run_extend :
    ∃ view, (run (step ChainDb.nullStore unitEnv neverBusy) ⟨ChainDb.unitDb, []⟩
        [(1, [unitHeader 2 3, unitHeader 2 3, unitHeader 3 5]),
          (1, [{ unitHeader 5 6 with bits := 0 }])]).told unitView = some view ∧
      Mirrors view (run (step ChainDb.nullStore unitEnv neverBusy) ⟨ChainDb.unitDb, []⟩
        [(1, [unitHeader 2 3, unitHeader 2 3, unitHeader 3 5]),
          (1, [{ unitHeader 5 6 with bits := 0 }])]).chaindb.headercache := by
  have htrunk : TrunkInv unitEnv (unitEnv.bitcoinHash (genesisHeader 0 .regtest))
      ChainDb.unitDb.headercache :=
    TrunkInv.init (genesisHeader_prevBlockhash 0 .regtest)
      (rfl : _ = (ChainDb.unitDb.headercache, Outcome.ok (some _)))
  have hok : Guarded (step ChainDb.nullStore unitEnv neverBusy)
      (MessageOk ChainDb.nullStore unitEnv) ⟨ChainDb.unitDb, []⟩
      [(1, [unitHeader 2 3, unitHeader 2 3, unitHeader 3 5]),
        (1, [{ unitHeader 5 6 with bits := 0 }])] := by decide +kernel
  exact mirrors_of_guarded_run ChainDb.nullStore unitEnv neverBusy htrunk mirrors_unitView hok

/-- A message with one header beside the trunk: the downstream is told to connect
it, and then holds three blocks over a trunk of two. -/
theorem not_mirrors_of_side_header :
    ¬ ∃ view, (run (step ChainDb.nullStore unitEnv neverBusy) ⟨ChainDb.unitDb, []⟩
        [(1, [unitHeader 2 3]), (1, [unitHeader 2 4])]).told unitView = some view ∧
      Mirrors view (run (step ChainDb.nullStore unitEnv neverBusy) ⟨ChainDb.unitDb, []⟩
        [(1, [unitHeader 2 3]), (1, [unitHeader 2 4])]).chaindb.headercache := by
  rintro ⟨view, htold, hlen, _⟩
  have hview : (run (step ChainDb.nullStore unitEnv neverBusy) ⟨ChainDb.unitDb, []⟩
      [(1, [unitHeader 2 3]), (1, [unitHeader 2 4])]).told unitView =
      some (unitView ++ [(unitHeader 2 3, 1), (unitHeader 2 4, 1)]) := by decide +kernel
  rw [hview] at htold
  cases htold
  revert hlen
  decide +kernel

end Concrete

end HeaderDownload

end Cashbox.Btc
