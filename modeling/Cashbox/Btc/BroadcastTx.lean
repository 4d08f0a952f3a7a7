import Cashbox.Btc.Stack

/-!
# Broadcast transactions

`btc_tx_sign` puts a transaction in a queue, `Broadcast` pops it for a peer that
connects and sends it to the control loop, which puts it in the outgoing channel of
the peer. The order is kept everywhere. The transaction is gone from the queue as
soon as it is popped, and the control loop ignores a message for a peer that is no
longer there: a transaction is lost exactly when its peer is removed in between.
-/

namespace Cashbox.Btc.Stack

open Cashbox.Lib

/-! ## Where a transaction can be -/

def NetworkMessage.transaction? : NetworkMessage → Option Transaction
  | .tx t => some t
  | _ => none

def Action.signed : Action → List Transaction
  | .broad tx => [tx]
  | _ => []

/-- The transactions that `btc_tx_sign` queued in a run. -/
def signedTxs (as : List Action) : List Transaction := as.flatMap Action.signed

def txsOf (sent : List Sent) : List Transaction :=
  sent.filterMap fun c => c.message.transaction?

namespace State

/-- Popped, and not yet received by the control loop. -/
def onTheWay (s : State) : List Transaction := txsOf (s.sent.drop s.received)

/-- Received by the control loop. -/
def receivedTxs (s : State) : List Transaction := txsOf (s.sent.take s.received)

/-- Handed to the outgoing channel of a peer. -/
def handedTxs (s : State) : List Transaction := s.handed.filterMap fun h => h.2.transaction?

/-- The next message of the control loop, if it is a transaction, is for a peer that
is there. -/
def PeerThere (s : State) (a : Action) : Prop :=
  a = .controlLoop → ∀ c, s.sent[s.received]? = some c → c.message.transaction?.isSome →
    (s.peers c.peer).isSome

end State

@[simp] theorem txsOf_append (xs ys : List Sent) : txsOf (xs ++ ys) = txsOf xs ++ txsOf ys :=
  List.filterMap_append

@[simp] theorem signedTxs_concat (as : List Action) (a : Action) :
    signedTxs (as ++ [a]) = signedTxs as ++ a.signed := by
  simp [signedTxs]

theorem receivedTxs_append_onTheWay (s : State) :
    s.receivedTxs ++ s.onTheWay = txsOf s.sent := by
  rw [State.receivedTxs, State.onTheWay, ← txsOf_append, List.take_append_drop]

/-! ## One step -/

variable {filterLoad : FilterLoadMessage}

/-- Only `Broadcast`, `btc_tx_sign` and the control loop touch the transactions. -/
theorem step_keeps_transactions (s : State) {a : Action} (hbroadcast : a ≠ .broadcast)
    (hbroad : ∀ tx, a ≠ .broad tx) (hcontrol : a ≠ .controlLoop) :
    (step filterLoad s a).transactions = s.transactions ∧
      (step filterLoad s a).received = s.received ∧ (step filterLoad s a).handed = s.handed := by
  cases a with
  | broadcast => exact absurd rfl hbroadcast
  | broad tx => exact absurd rfl (hbroad tx)
  | controlLoop => exact absurd rfl hcontrol
  | completeHandshake services =>
    simp only [step, State.completeHandshake]
    split <;> simp
  | connected =>
    simp only [step, State.connected]
    split <;> simp [State.dispatch]
  | dispatcher =>
    simp only [step, State.dispatcher]
    split
    · simp
    · split <;> simp
  | bloomFilter =>
    simp only [step, State.bloomFilter]
    split
    · simp
    · split
      · simp
      · split <;> (try split) <;> simp [State.sendNetwork]
  | getDataNext =>
    simp only [step, State.getDataNext]
    split
    · split <;> (try split) <;> (try split) <;> simp
    · simp
  | getDataWake =>
    simp only [step, State.getDataWake]
    split
    · split <;> simp
    · simp
  | getDataTimeout =>
    simp only [step, State.getDataTimeout]
    split <;> simp
  | getDataFetched headers =>
    simp only [step, State.getDataFetched]
    split
    · split <;> simp [State.sendNetwork]
    · simp
  | disconnected peer banned => simp [step, State.dispatch]
  | removePeer peer => simp [step, State.removePeer]
  | incoming peer msg => simp [step, State.dispatch]
  | sendOther peer => simp [step, State.sendNetwork]

/-- `Broadcast` pops the transaction that it sends and nothing else. -/
theorem broadcast_transactions {s : State} {es : List Sent}
    (h : Sends filterLoad s .broadcast es) :
    txsOf es ++ s.broadcast.transactions = s.transactions ∧
      s.broadcast.received = s.received ∧ s.broadcast.handed = s.handed := by
  unfold State.broadcast
  cases h with
  | tx peer t h =>
    obtain ⟨hhead, hserving, ht⟩ := h
    obtain ⟨rest, hq⟩ : ∃ rest, s.queue .broadcast = .connected peer :: rest :=
      ⟨_, List.eq_cons_of_mem_head? hhead⟩
    obtain ⟨ts, hts⟩ : ∃ ts, s.transactions = t :: ts := ⟨_, List.eq_cons_of_mem_head? ht⟩
    simp [hq, hserving, hts, State.sendNetwork, txsOf, NetworkMessage.transaction?]
  | nothing a hfilter hfetched htx =>
    cases hq : s.queue .broadcast with
    | nil => simp [txsOf]
    | cons msg rest =>
      cases msg with
      | connected peer =>
        by_cases hserving : s.isServingBlocks peer
        · -- there is nothing to pop
          have hnil : s.transactions = [] := by
            cases ht : s.transactions with
            | nil => rfl
            | cons t ts => exact absurd ⟨by simp [hq], hserving, by simp [ht]⟩ (htx rfl peer t)
          simp [hserving, hnil, txsOf]
        · simp [hserving, txsOf]
      | disconnected peer banned => simp [txsOf]
      | incoming peer msg => simp [txsOf]

/-- A step moves at most the first transaction of the queue to the control channel, and
adds what is signed at the end of the queue. -/
theorem step_transactions {s : State} {a : Action} {es : List Sent}
    (h : Sends filterLoad s a es) :
    txsOf es ++ (step filterLoad s a).transactions = s.transactions ++ a.signed := by
  by_cases hbroadcast : a = .broadcast
  · subst hbroadcast
    simpa [Action.signed, step] using (broadcast_transactions h).1
  · -- no other step sends a transaction
    have hnone : txsOf es = [] := by
      cases h with
      | tx peer t h => exact absurd rfl hbroadcast
      | filter | fetched | other | nothing => simp [txsOf, NetworkMessage.transaction?]
    rw [hnone, List.nil_append]
    cases a with
    | broad tx => rfl
    | controlLoop =>
      simp only [step, State.controlLoop, Action.signed, List.append_nil]
      split <;> rfl
    | broadcast => exact absurd rfl hbroadcast
    | _ => simpa [Action.signed] using (step_keeps_transactions s (by simp) (by simp) (by simp)).1

/-- Only the control loop receives. -/
theorem step_keeps_handed (filterLoad : FilterLoadMessage) (s : State) {a : Action}
    (hcontrol : a ≠ .controlLoop) :
    (step filterLoad s a).received = s.received ∧ (step filterLoad s a).handed = s.handed := by
  cases a with
  | controlLoop => exact absurd rfl hcontrol
  | broadcast =>
    obtain ⟨es, hsends, _⟩ := step_sent filterLoad s .broadcast
    exact (broadcast_transactions hsends).2
  | broad tx => exact ⟨rfl, rfl⟩
  | _ => exact (step_keeps_transactions s (by simp) (by simp) (by simp)).2

/-- The control loop hands over the message that it receives, if its peer is there. -/
theorem controlLoop_transactions {s : State} {c : Sent} (hc : s.sent[s.received]? = some c) :
    s.controlLoop.receivedTxs = s.receivedTxs ++ c.message.transaction?.toList ∧
      s.controlLoop.handedTxs = s.handedTxs ++
        if (s.peers c.peer).isSome then c.message.transaction?.toList else [] := by
  simp only [State.receivedTxs, State.handedTxs, State.controlLoop, hc]
  constructor
  · rw [List.take_add_one, hc, txsOf_append]
    cases ht : c.message.transaction? with
    | none => simp [txsOf, ht]
    | some t => simp [txsOf, ht]
  · split
    · cases ht : c.message.transaction? with
      | none => simp [ht]
      | some t => simp [ht]
    · simp

/-- One step: what is handed over stays all that was received, unless the control loop
receives a transaction for a peer that is not there. -/
theorem step_handedTxs {s : State} (hle : s.received ≤ s.sent.length)
    (hall : s.handedTxs = s.receivedTxs) (a : Action) :
    (step filterLoad s a).handedTxs = (step filterLoad s a).receivedTxs ↔ s.PeerThere a := by
  by_cases hcontrol : a = .controlLoop
  · subst hcontrol
    cases hc : s.sent[s.received]? with
    | none =>
      have hsame : step filterLoad s .controlLoop = s := by
        simp only [step, State.controlLoop, hc]
      simp [State.PeerThere, hsame, hall, hc]
    | some c =>
      obtain ⟨hreceived, hhanded⟩ := controlLoop_transactions hc
      simp only [step, hreceived, hhanded, hall, List.append_cancel_left_eq, State.PeerThere, hc,
        Option.some.injEq, forall_eq', forall_const]
      cases ht : c.message.transaction? with
      | none => simp
      | some t =>
        by_cases hpeer : (s.peers c.peer).isSome
        · simp [hpeer]
        · simp [hpeer]
  · -- any other step leaves both as they are
    obtain ⟨es, _, hsent⟩ := step_sent filterLoad s a
    obtain ⟨hreceived, hhanded⟩ := step_keeps_handed filterLoad s hcontrol
    refine iff_of_true ?_ fun h => absurd h hcontrol
    rw [State.handedTxs, State.receivedTxs, hreceived, hhanded, hsent,
      List.take_append_of_le_length hle]
    exact hall

/-! ## Runs -/

/-- The state after a run. -/
def after (filterLoad : FilterLoadMessage) (as : List Action) : State :=
  run (step filterLoad) State.init as

theorem after_concat (as : List Action) (a : Action) :
    after filterLoad (as ++ [a]) = step filterLoad (after filterLoad as) a := by
  simp [after, run_append]

/-- The queue is first in, first out, and nothing leaves it but by being sent. -/
theorem signedTxs_eq (as : List Action) :
    signedTxs as = txsOf (after filterLoad as).sent ++ (after filterLoad as).transactions := by
  induction as using List.reverseRecOn with
  | nil => rfl
  | append_singleton as a ih =>
    obtain ⟨es, hsends, hsent⟩ := step_sent filterLoad (after filterLoad as) a
    calc signedTxs (as ++ [a])
        = txsOf (after filterLoad as).sent ++
            ((after filterLoad as).transactions ++ a.signed) := by
          rw [signedTxs_concat, ih, List.append_assoc]
      _ = txsOf (after filterLoad as).sent ++
            (txsOf es ++ (step filterLoad (after filterLoad as) a).transactions) := by
          rw [step_transactions hsends]
      _ = _ := by
          rw [after_concat, hsent, txsOf_append, List.append_assoc]

theorem received_le (as : List Action) :
    (after filterLoad as).received ≤ (after filterLoad as).sent.length := by
  induction as using List.reverseRecOn with
  | nil => exact Nat.le_refl 0
  | append_singleton as a ih =>
    rw [after_concat]
    by_cases hcontrol : a = .controlLoop
    · subst hcontrol
      simp only [step, State.controlLoop]
      split
      · rename_i c hc
        exact (List.getElem?_eq_some_iff.mp hc).1
      · exact ih
    · obtain ⟨es, _, hsent⟩ := step_sent filterLoad (after filterLoad as) a
      rw [(step_keeps_handed filterLoad _ hcontrol).1, hsent, List.length_append]
      omega

/-- Every transaction that was signed is handed to a peer that is there, on its way to
the control loop or still in the queue, once and in the order of signing. -/
structure NotLost (filterLoad : FilterLoadMessage) (as : List Action) : Prop where
  kept : ∀ pre, pre <+: as → signedTxs pre = (after filterLoad pre).handedTxs ++
    (after filterLoad pre).onTheWay ++ (after filterLoad pre).transactions
  connected : ∀ pre a h, pre ++ [a] <+: as →
    (after filterLoad (pre ++ [a])).handed = (after filterLoad pre).handed ++ [h] →
    ((after filterLoad pre).peers h.1).isSome

/-- What is signed is kept as long as all that the control loop received was handed over. -/
theorem kept_iff (as : List Action) :
    signedTxs as = (after filterLoad as).handedTxs ++ (after filterLoad as).onTheWay ++
        (after filterLoad as).transactions ↔
      (after filterLoad as).handedTxs = (after filterLoad as).receivedTxs := by
  rw [signedTxs_eq, ← receivedTxs_append_onTheWay, List.append_cancel_right_eq,
    List.append_cancel_right_eq, eq_comm]

/-- A message is handed only to a peer that is there. -/
theorem peers_of_handed {s : State} {a : Action} {h : PeerId × NetworkMessage}
    (hhanded : (step filterLoad s a).handed = s.handed ++ [h]) : (s.peers h.1).isSome := by
  by_cases hcontrol : a = .controlLoop
  · subst hcontrol
    simp only [step, State.controlLoop] at hhanded
    split at hhanded
    · rename_i c hc
      by_cases hpeer : (s.peers c.peer).isSome
      · simp only [hpeer, if_true, List.append_cancel_left_eq, List.singleton_inj] at hhanded
        rw [← hhanded]
        exact hpeer
      · simp [hpeer] at hhanded
    · simp at hhanded
  · rw [(step_keeps_handed filterLoad s hcontrol).2] at hhanded
    simp at hhanded

/-- **Transactions are not lost** exactly in the runs in which the control loop receives
every transaction while its peer is still there. -/
theorem notLost_iff (filterLoad : FilterLoadMessage) (as : List Action) :
    NotLost filterLoad as ↔ Guarded (step filterLoad) State.PeerThere State.init as := by
  have hconnected : ∀ pre a h, pre ++ [a] <+: as →
      (after filterLoad (pre ++ [a])).handed = (after filterLoad pre).handed ++ [h] →
      ((after filterLoad pre).peers h.1).isSome := by
    intro pre a h _ hhanded
    rw [after_concat] at hhanded
    exact peers_of_handed hhanded
  have hkept : (∀ pre, pre <+: as →
      (after filterLoad pre).handedTxs = (after filterLoad pre).receivedTxs) ↔
      Guarded (step filterLoad) State.PeerThere State.init as := by
    clear hconnected
    induction as using List.reverseRecOn with
    | nil =>
      refine iff_of_true ?_ trivial
      intro pre hpre
      rw [List.prefix_nil.mp hpre]
      rfl
    | append_singleton as a ih =>
      simp only [List.prefix_concat_iff, forall_eq_or_imp, guarded_append, guarded_cons,
        guarded_nil, and_true, ← ih, after_concat]
      -- the run as a whole, and its last step
      constructor
      · rintro ⟨hlast, hpre⟩
        refine ⟨hpre, ?_⟩
        exact (step_handedTxs (received_le as) (hpre as List.prefix_rfl) a).mp hlast
      · rintro ⟨hpre, hthere⟩
        refine ⟨?_, hpre⟩
        exact (step_handedTxs (received_le as) (hpre as List.prefix_rfl) a).mpr hthere
  rw [← hkept]
  constructor
  · intro h pre hpre
    exact (kept_iff pre).mp (h.kept pre hpre)
  · intro h
    exact ⟨fun pre hpre => (kept_iff pre).mpr (h pre hpre), hconnected⟩

/-! ## A peer that leaves -/

/-- A transaction is popped for a peer that is gone when the control loop receives it. -/
def peerLeaves : List Action :=
  [.broad ⟨2, 0, [], []⟩, .completeHandshake 1, .connected] ++ List.replicate 4 .dispatcher ++
    [.broadcast, .disconnected 0 false, .removePeer 0, .controlLoop]

/-- The transaction is neither handed to a peer nor in the queue. -/
theorem not_notLost_peerLeaves : ¬ NotLost ⟨[0], 1, 0, 0⟩ peerLeaves := by
  intro h
  have hkept := (kept_iff peerLeaves).mp (h.kept peerLeaves List.prefix_rfl)
  have hlost : (after ⟨[0], 1, 0, 0⟩ peerLeaves).handedTxs ≠
      (after ⟨[0], 1, 0, 0⟩ peerLeaves).receivedTxs := by decide +kernel
  exact hlost hkept

end Cashbox.Btc.Stack
