import Cashbox.Btc.Stack

/-!
# A filter before filtered blocks

`GetData` waits for the filter before it asks a new peer for filtered blocks.
What it waits for is a counter of all filters sent since the last disconnect,
which says nothing of the peer at hand: with a second peer, or after a reconnect,
the counter may be up for filters of other peers. A tally of the peers for which the
counter was raised tells these runs from the others: as `GetData` has waited, some
filter was counted, and the filter of the peer was sent first exactly when it was not
only those of others.
-/

namespace Cashbox.Btc.Stack

open Cashbox.Lib

/-! ## The order of what is sent -/

def NetworkMessage.isFilterLoad : NetworkMessage → Bool
  | .filterLoad _ => true
  | _ => false

/-- A filter for the peer is among what was sent. Ids are not used again, so it was
sent during the connection of the peer. -/
def FilterSentTo (sent : List Sent) (peer : PeerId) : Prop :=
  ∃ e ∈ sent, e.peer = peer ∧ e.message.isFilterLoad

/-- Every `GetData` sent to a peer in answer to its connect was sent after a filter
for this peer. -/
def FilterFirst (sent : List Sent) : Prop :=
  ∀ pre e post, sent = pre ++ e :: post → ∀ peer inventory,
    e = ⟨some (.connected peer), peer, .getData inventory⟩ → FilterSentTo pre peer

/-! ## For whom the counter was raised -/

/-- The peers whose filters the shared counter has counted. -/
structure Tally where
  /-- Before the last disconnect, which set the counter to zero. -/
  before : List PeerId
  /-- Since then. -/
  counted : List PeerId
  /-- The peer whose filter is sent and not yet counted. -/
  uncounted : Option PeerId

namespace Tally

def zero : Tally := ⟨[], [], none⟩

/-- What a step of the stack adds to the tally. -/
def next (t : Tally) (s : State) : Action → Tally
  | .bloomFilter =>
    match t.uncounted, s.queue .bloomFilter with
    | some peer, _ => { t with counted := t.counted ++ [peer], uncounted := none }
    | none, .connected peer :: _ =>
      if s.isServingBlocks peer then { t with uncounted := some peer } else t
    | none, .disconnected _ _ :: _ => { t with before := t.before ++ t.counted, counted := [] }
    | none, _ => t
  | _ => t

/-- The counter was raised, but for filters of other peers only. -/
def OthersOnly (t : Tally) (peer : PeerId) : Prop :=
  t.before ++ t.counted ≠ [] ∧ peer ∉ t.before ++ t.counted ∧ t.uncounted ≠ some peer

end Tally

section Tallies

variable (filterLoad : FilterLoadMessage)

/-- The stack, together with the tally. -/
def tallied (as : List Action) : State × Tally :=
  run (fun c a => (step filterLoad c.1 a, c.2.next c.1 a)) (State.init, .zero) as

theorem tallied_concat (as : List Action) (a : Action) :
    tallied filterLoad (as ++ [a]) =
      (step filterLoad (tallied filterLoad as).1 a,
        (tallied filterLoad as).2.next (tallied filterLoad as).1 a) := run_append ..

theorem tallied_fst (as : List Action) :
    (tallied filterLoad as).1 = run (step filterLoad) State.init as := by
  induction as using List.reverseRecOn with
  | nil => rfl
  | append_singleton as a ih =>
    rw [tallied_concat, ih, run_append]
    rfl

variable {filterLoad} {s : State} {t : Tally} {a : Action}

/-- Only `BloomFilter` sets the counter, and only `GetData` moves on in its own handling. -/
theorem step_keeps (s : State) (a : Action) :
    (a ≠ .bloomFilter → (step filterLoad s a).start = s.start ∧
        (step filterLoad s a).filterSent = s.filterSent) ∧
      (a ≠ .getDataNext → a ≠ .getDataWake → a ≠ .getDataTimeout →
        (∀ headers, a ≠ .getDataFetched headers) →
          (step filterLoad s a).getData = s.getData) := by
  cases a with
  | bloomFilter =>
    refine ⟨fun h => absurd rfl h, fun _ _ _ _ => ?_⟩
    simp only [step, State.bloomFilter]
    split
    · rfl
    · split
      · rfl
      · split <;> (try split) <;> rfl
  | getDataNext =>
    refine ⟨fun _ => ?_, fun h => absurd rfl h⟩
    simp only [step, State.getDataNext]
    split
    · split <;> (try split) <;> (try split) <;> exact ⟨rfl, rfl⟩
    · exact ⟨rfl, rfl⟩
  | getDataWake =>
    refine ⟨fun _ => ?_, fun _ h => absurd rfl h⟩
    simp only [step, State.getDataWake]
    split
    · split <;> exact ⟨rfl, rfl⟩
    · exact ⟨rfl, rfl⟩
  | getDataTimeout =>
    refine ⟨fun _ => ?_, fun _ _ h => absurd rfl h⟩
    simp only [step, State.getDataTimeout]
    split <;> exact ⟨rfl, rfl⟩
  | getDataFetched headers =>
    refine ⟨fun _ => ?_, fun _ _ _ h => absurd rfl (h headers)⟩
    simp only [step, State.getDataFetched]
    split
    · split <;> exact ⟨rfl, rfl⟩
    · exact ⟨rfl, rfl⟩
  | completeHandshake services =>
    simp only [step, State.completeHandshake]
    split <;> exact ⟨fun _ => ⟨rfl, rfl⟩, fun _ _ _ _ => rfl⟩
  | connected =>
    simp only [step, State.connected]
    split <;> exact ⟨fun _ => ⟨rfl, rfl⟩, fun _ _ _ _ => rfl⟩
  | controlLoop =>
    simp only [step, State.controlLoop]
    split <;> exact ⟨fun _ => ⟨rfl, rfl⟩, fun _ _ _ _ => rfl⟩
  | dispatcher =>
    simp only [step, State.dispatcher]
    split
    · exact ⟨fun _ => ⟨rfl, rfl⟩, fun _ _ _ _ => rfl⟩
    · split <;> exact ⟨fun _ => ⟨rfl, rfl⟩, fun _ _ _ _ => rfl⟩
  | broadcast =>
    simp only [step, State.broadcast]
    split
    · exact ⟨fun _ => ⟨rfl, rfl⟩, fun _ _ _ _ => rfl⟩
    · split <;> (try split) <;> (try split) <;>
        exact ⟨fun _ => ⟨rfl, rfl⟩, fun _ _ _ _ => rfl⟩
  | disconnected peer banned => exact ⟨fun _ => ⟨rfl, rfl⟩, fun _ _ _ _ => rfl⟩
  | removePeer peer => exact ⟨fun _ => ⟨rfl, rfl⟩, fun _ _ _ _ => rfl⟩
  | incoming peer msg => exact ⟨fun _ => ⟨rfl, rfl⟩, fun _ _ _ _ => rfl⟩
  | broad tx => exact ⟨fun _ => ⟨rfl, rfl⟩, fun _ _ _ _ => rfl⟩
  | sendOther peer => exact ⟨fun _ => ⟨rfl, rfl⟩, fun _ _ _ _ => rfl⟩

/-- `GetData` comes to answer a connect only from its wait, once the counter is raised. -/
theorem fetching_of_step {connected peer : PeerId} {more : Nat}
    (h : (step filterLoad s a).getData = .fetching (.connected connected) peer more) :
    (∃ more', s.getData = .fetching (.connected connected) peer more') ∨
      (s.start ≠ 0 ∧ connected = peer) := by
  cases a with
  | getDataWake =>
    simp only [step, State.getDataWake] at h
    split at h
    · split at h
      · exact .inl ⟨more, h⟩
      · next hstart =>
        cases h
        exact .inr ⟨hstart, rfl⟩
    · exact .inl ⟨more, h⟩
  | getDataFetched headers =>
    simp only [step, State.getDataFetched] at h
    split at h
    · next reply peer' more' hthread =>
      cases more' with
      | zero => split at h <;> cases h
      | succ more' =>
        have hsame : GetDataThread.fetching reply peer' more' =
            .fetching (.connected connected) peer more := by
          split at h <;> exact h
        cases hsame
        exact .inl ⟨_, hthread⟩
    · exact .inl ⟨more, h⟩
  | getDataNext =>
    simp only [step, State.getDataNext] at h
    -- the next message is handled without the wait only if it is no connect
    split at h
    · exfalso
      revert h
      split <;> (try split) <;> (try split) <;> simp_all [State.setQueue]
    · exact .inl ⟨more, h⟩
  | getDataTimeout =>
    simp only [step, State.getDataTimeout] at h
    split at h
    · cases h
    · exact .inl ⟨more, h⟩
  | _ =>
    rw [(step_keeps s _).2 (by simp) (by simp) (by simp) (by simp)] at h
    exact .inl ⟨more, h⟩

/-- The tally is that of the counter: it counts the filters since the last disconnect, and
`GetData` answers a connect only after one was counted. -/
structure Tallies (s : State) (t : Tally) : Prop where
  start : s.start = t.counted.length
  filterSent : s.filterSent = t.uncounted.isSome
  raised : ∀ connected peer more, s.getData = .fetching (.connected connected) peer more →
    connected = peer ∧ t.before ++ t.counted ≠ []
  sent : ∀ peer, FilterSentTo s.sent peer ↔
    peer ∈ t.before ++ t.counted ∨ t.uncounted = some peer

theorem filterSentTo_concat {sent : List Sent} {e : Sent} {peer : PeerId} :
    FilterSentTo (sent ++ [e]) peer ↔
      FilterSentTo sent peer ∨ (e.peer = peer ∧ e.message.isFilterLoad = true) := by
  simp only [FilterSentTo, List.mem_append, List.mem_singleton, or_and_right, exists_or,
    exists_eq_left]

/-- A turn of `BloomFilter` counts a filter, sends one, sets the counter to zero, or does
nothing of that, and the tally goes along. -/
theorem bloomFilter_cases (hsent : s.filterSent = t.uncounted.isSome) :
    (∃ peer, t.uncounted = some peer ∧
      step filterLoad s .bloomFilter = { s with filterSent := false, start := s.start + 1 } ∧
      t.next s .bloomFilter = { t with counted := t.counted ++ [peer], uncounted := none }) ∨
    (∃ peer rest, t.uncounted = none ∧
      step filterLoad s .bloomFilter =
        { (s.setQueue .bloomFilter rest).sendNetwork (some (.connected peer)) peer
          (.filterLoad filterLoad) with filterSent := true } ∧
      t.next s .bloomFilter = { t with uncounted := some peer }) ∨
    (∃ rest, t.uncounted = none ∧
      step filterLoad s .bloomFilter = { s.setQueue .bloomFilter rest with start := 0 } ∧
      t.next s .bloomFilter = { t with before := t.before ++ t.counted, counted := [] }) ∨
    ∃ rest, step filterLoad s .bloomFilter = s.setQueue .bloomFilter rest ∧
      t.next s .bloomFilter = t := by
  cases huncounted : t.uncounted with
  | some peer =>
    rw [huncounted] at hsent
    exact .inl ⟨peer, rfl, if_pos hsent, by simp only [Tally.next, huncounted]⟩
  | none =>
    rw [huncounted] at hsent
    have hidle : ¬ s.filterSent = true := by simp [hsent]
    cases hq : s.queue .bloomFilter with
    | nil =>
      have hstep : step filterLoad s .bloomFilter =
          s.setQueue .bloomFilter (s.queue .bloomFilter) := by
        rw [State.setQueue_self]
        simp only [step, State.bloomFilter, if_neg hidle, hq]
      have hnext : t.next s .bloomFilter = t := by
        simp only [Tally.next, huncounted, hq]
      exact .inr (.inr (.inr ⟨_, hstep, hnext⟩))
    | cons msg rest =>
      cases msg with
      | incoming peer msg =>
        have hstep : step filterLoad s .bloomFilter = s.setQueue .bloomFilter rest := by
          simp only [step, State.bloomFilter, if_neg hidle, hq]
        have hnext : t.next s .bloomFilter = t := by
          simp only [Tally.next, huncounted, hq]
        exact .inr (.inr (.inr ⟨_, hstep, hnext⟩))
      | disconnected peer banned =>
        have hstep : step filterLoad s .bloomFilter =
            { s.setQueue .bloomFilter rest with start := 0 } := by
          simp only [step, State.bloomFilter, if_neg hidle, hq]
        have hnext : t.next s .bloomFilter =
            { t with before := t.before ++ t.counted, counted := [] } := by
          simp only [Tally.next, huncounted, hq]
        exact .inr (.inr (.inl ⟨_, rfl, hstep, huncounted ▸ hnext⟩))
      | connected peer =>
        by_cases hserving : s.isServingBlocks peer = true
        · have hstep : step filterLoad s .bloomFilter =
              { (s.setQueue .bloomFilter rest).sendNetwork (some (.connected peer)) peer
                (.filterLoad filterLoad) with filterSent := true } := by
            simp only [step, State.bloomFilter, if_neg hidle, hq,
              State.setQueue_isServingBlocks]
            exact if_pos hserving
          have hnext : t.next s .bloomFilter = { t with uncounted := some peer } := by
            simp only [Tally.next, huncounted, hq]
            exact if_pos hserving
          exact .inr (.inl ⟨peer, _, rfl, hstep, hnext⟩)
        · have hstep : step filterLoad s .bloomFilter = s.setQueue .bloomFilter rest := by
            simp only [step, State.bloomFilter, if_neg hidle, hq,
              State.setQueue_isServingBlocks]
            exact if_neg hserving
          have hnext : t.next s .bloomFilter = t := by
            simp only [Tally.next, huncounted, hq]
            exact if_neg hserving
          exact .inr (.inr (.inr ⟨_, hstep, hnext⟩))

theorem Tallies.bloomFilter (h : Tallies s t) :
    Tallies (step filterLoad s .bloomFilter) (t.next s .bloomFilter) := by
  have hthread : (step filterLoad s .bloomFilter).getData = s.getData :=
    (step_keeps s .bloomFilter).2 (by simp) (by simp) (by simp) (by simp)
  -- whoever was counted stays on the tally, so that a `GetData` that has waited still has
  have hraised : ∀ t' : Tally, t.before ++ t.counted ⊆ t'.before ++ t'.counted →
      ∀ connected peer more,
        (step filterLoad s .bloomFilter).getData = .fetching (.connected connected) peer more →
          connected = peer ∧ t'.before ++ t'.counted ≠ [] := by
    intro t' hsub connected peer more hfetching
    obtain ⟨heq, hne⟩ := h.raised connected peer more (hthread ▸ hfetching)
    exact ⟨heq, fun hnil => hne (List.subset_nil.mp (hnil ▸ hsub))⟩
  have hsent := h.sent
  rcases bloomFilter_cases h.filterSent with ⟨peer, huncounted, hstep, hnext⟩ |
    ⟨peer, rest, huncounted, hstep, hnext⟩ | ⟨rest, huncounted, hstep, hnext⟩ |
    ⟨rest, hstep, hnext⟩
  · -- the filter of `peer` is counted
    rw [huncounted] at hsent
    rw [hnext]
    refine ⟨?_, by rw [hstep]; rfl, hraised _ ?_, fun p => ?_⟩
    · rw [hstep, List.length_append, ← h.start]
      rfl
    · intro p hp
      rw [← List.append_assoc]
      exact List.mem_append_left _ hp
    · rw [hstep, hsent]
      simp [or_assoc, eq_comm]
  · -- a filter is sent to `peer`
    rw [huncounted] at hsent
    rw [hnext]
    refine ⟨?_, by rw [hstep]; rfl, hraised _ (List.Subset.refl _), fun p => ?_⟩
    · rw [hstep]
      exact h.start
    · rw [hstep]
      show FilterSentTo (s.sent ++ [_]) p ↔ _
      rw [filterSentTo_concat, hsent]
      simp [NetworkMessage.isFilterLoad]
  · -- a peer is gone, and the counter is zero
    rw [hnext]
    refine ⟨by rw [hstep]; rfl, ?_, hraised _ ?_, fun p => ?_⟩
    · rw [hstep]
      exact h.filterSent
    · intro p hp
      exact List.mem_append_left _ hp
    · have hp := hsent p
      rw [hstep, List.append_nil]
      exact hp
  · rw [hstep, hnext]
    exact ⟨h.start, h.filterSent, h.raised, hsent⟩

theorem Tallies.step (h : Tallies s t) (a : Action) :
    Tallies (step filterLoad s a) (t.next s a) := by
  by_cases hturn : a = .bloomFilter
  · rw [hturn]
    exact h.bloomFilter
  · have hnext : t.next s a = t := by
      cases a with
      | bloomFilter => exact absurd rfl hturn
      | _ => rfl
    obtain ⟨hstart, hfilterSent⟩ := (@step_keeps filterLoad s a).1 hturn
    rw [hnext]
    refine ⟨hstart.trans h.start, hfilterSent.trans h.filterSent, ?_, fun peer => ?_⟩
    · intro connected peer more hthread
      rcases fetching_of_step hthread with ⟨more', hbefore⟩ | ⟨hraised, heq⟩
      · exact h.raised connected peer more' hbefore
      · -- the wait is over, so that a filter was counted
        refine ⟨heq, fun hnil => hraised ?_⟩
        rw [h.start, (List.append_eq_nil_iff.mp hnil).2]
        rfl
    · rw [← h.sent]
      obtain ⟨es, hsends, hsent⟩ := step_sent filterLoad s a
      rw [hsent]
      cases hsends with
      | filter peer' h' => exact absurd rfl hturn
      | fetched headers reply peer' more hthread hne =>
        rw [filterSentTo_concat]
        simp [NetworkMessage.isFilterLoad]
      | tx peer' tx h' =>
        rw [filterSentTo_concat]
        simp [NetworkMessage.isFilterLoad]
      | other peer' =>
        rw [filterSentTo_concat]
        simp [NetworkMessage.isFilterLoad]
      | nothing a hfilter hfetched htx => rw [List.append_nil]

/-- The tally of every run is that of the counter. -/
theorem tallies_tallied (as : List Action) :
    Tallies (run (step filterLoad) State.init as) (tallied filterLoad as).2 := by
  induction as using List.reverseRecOn with
  | nil =>
    refine ⟨rfl, rfl, (fun _ _ _ h => nomatch h), fun peer => ?_⟩
    simp [FilterSentTo, State.init, tallied, Tally.zero]
  | append_singleton as a ih =>
    rw [run_append, tallied_concat, tallied_fst]
    exact ih.step a

end Tallies

/-! ## Runs -/

/-- `GetData`, answering a connect, never asks for blocks when the counter was raised for other
peers only. -/
def CountedFor (filterLoad : FilterLoadMessage) (as : List Action) : Prop :=
  ∀ pre a post, as = pre ++ a :: post → ∀ headers peer more,
    a = .getDataFetched headers → headers ≠ [] →
    (run (step filterLoad) State.init pre).getData = .fetching (.connected peer) peer more →
    ¬ (tallied filterLoad pre).2.OthersOnly peer

/-- As `GetData` has waited for the counter, it was raised, and the filter of the peer was sent
unless it was raised for others only. -/
theorem filterSentTo_iff {filterLoad : FilterLoadMessage} {as : List Action} {peer : PeerId}
    {more : Nat} (hthread : (run (step filterLoad) State.init as).getData =
      .fetching (.connected peer) peer more) :
    FilterSentTo (run (step filterLoad) State.init as).sent peer ↔
      ¬ (tallied filterLoad as).2.OthersOnly peer := by
  have htally := @tallies_tallied filterLoad as
  obtain ⟨_, hne⟩ := htally.raised peer peer more hthread
  rw [htally.sent, Tally.OthersOnly, and_iff_right hne, ← not_or, not_not]

/-- **A filter is sent first** exactly in the runs in which the counter that `GetData` has
waited for was raised for the filter of the peer, whenever `GetData`, answering the connect of
this peer, has blocks to ask for. -/
theorem filterFirst_iff (filterLoad : FilterLoadMessage) (as : List Action) :
    FilterFirst (run (step filterLoad) State.init as).sent ↔ CountedFor filterLoad as := by
  induction as using List.reverseRecOn with
  | nil => simp [FilterFirst, CountedFor, State.init]
  | append_singleton as a ih =>
    obtain ⟨es, hsends, hsent⟩ := step_sent filterLoad (run (step filterLoad) State.init as) a
    rw [run_append, run_cons, run_nil, hsent, CountedFor, forall_place_concat]
    change _ ↔ CountedFor filterLoad as ∧ _
    rw [← ih]
    cases hsends with
    | fetched headers reply peer more hthread hne =>
      rw [FilterFirst, forall_place_concat]
      refine and_congr_right fun _ => ?_
      -- the one message that the order is about
      constructor
      · rintro h _ peer' more' ⟨rfl⟩ _ hthread'
        have hsame := hthread'
        rw [hthread] at hsame
        cases hsame
        exact (filterSentTo_iff hthread').mp (h peer _ rfl)
      · rintro h peer' inventory he
        cases he
        exact (filterSentTo_iff hthread).mpr (h headers peer more rfl hne hthread)
    | filter peer h => simp [FilterFirst, forall_place_concat]
    | tx peer t h => simp [FilterFirst, forall_place_concat]
    | other peer => simp [FilterFirst, forall_place_concat]
    | nothing a hfilter hfetched htx =>
      rw [List.append_nil]
      refine (and_iff_left ?_).symm
      intro headers peer more ha hne hthread
      exact absurd (hfetched headers _ peer more ha hthread) hne

/-! ## Two peers -/

/-- Two peers that serve blocks connect; `BloomFilter` comes only to the first. -/
def twoPeers : List Action :=
  [.completeHandshake 1, .connected, .completeHandshake 1, .connected] ++
    List.replicate 7 .dispatcher ++ [.bloomFilter, .bloomFilter] ++
    [.getDataNext, .getDataWake, .getDataFetched [5], .getDataNext, .getDataWake,
      .getDataFetched [5]]

/-- The second of two peers is asked for filtered blocks and has no filter. -/
theorem not_filterFirst_twoPeers :
    ¬ FilterFirst (run (step ⟨[0], 1, 0, 0⟩) State.init twoPeers).sent := by
  have hsent : (run (step ⟨[0], 1, 0, 0⟩) State.init twoPeers).sent =
      [⟨some (.connected 0), 0, .filterLoad ⟨[0], 1, 0, 0⟩⟩,
        ⟨some (.connected 0), 0, .getData [⟨.filteredBlock, 5⟩]⟩,
        ⟨some (.connected 1), 1, .getData [⟨.filteredBlock, 5⟩]⟩] := by decide +kernel
  intro h
  rw [hsent] at h
  obtain ⟨e, hmem, hpeer, _⟩ := h [_, _] _ [] rfl 1 _ rfl
  simp only [List.mem_cons, List.not_mem_nil, or_false] at hmem
  rcases hmem with rfl | rfl
  · simp at hpeer
  · simp at hpeer

end Cashbox.Btc.Stack
