import Mathlib.Data.List.AList
import Cashbox.Lib.Method
import Cashbox.Lib.Run

/-!
# Peers that do not answer

The client counts the replies that it expects of a peer and keeps a deadline for it. A peer that
misses its deadline and still owes a reply is disconnected. The counts and the deadlines are two
hash maps, which every call keeps in step.
-/

namespace Cashbox.Btc

open Cashbox.Lib

/-! ## The maps -/

/-- A `HashMap`. -/
abbrev HashMap (K V : Type) := AList fun _ : K => V

structure Timeout (P R : Type) where
  timeouts : HashMap P Nat
  expected : HashMap P (HashMap R Nat)
  /-- the peers that a `P2PControl::Disconnect` was sent for -/
  sent : List P

/-- What a call meets: the readings of its clock, none where it stands before 1970, the order in
which a map is walked, and whether the channel is open. -/
structure Surroundings (P : Type) where
  clock : Nat → Option UInt64
  walk : List P → List P
  walk_perm : ∀ peers, (walk peers).Perm peers
  connected : Bool

/-- `TIMEOUT`, in seconds -/
def timeoutSecs : Nat := 60

namespace Surroundings

variable {P : Type} (w : Surroundings P)

/-- The reading with this number. -/
def now (k : Nat) : Outcome Unit Nat := Outcome.ofSome ((w.clock k).map UInt64.toNat)

/-- `Self::now() + TIMEOUT` -/
def deadline : Outcome Unit Nat := do
  let now ← w.now 0
  checkedAdd 64 now timeoutSecs

end Surroundings

namespace Timeout

variable {P R : Type} [DecidableEq P] [DecidableEq R]

def new : Timeout P R := ⟨∅, ∅, []⟩

/-- The counter of a reply, if there is one. -/
def counter (t : Timeout P R) (peer : P) (what : R) : Option Nat :=
  (t.expected.lookup peer).bind fun expected => expected.lookup what

/-- The replies that are expected. -/
def count (t : Timeout P R) (peer : P) (what : R) : Nat := (t.counter peer what).getD 0

def setCount (t : Timeout P R) (peer : P) (what : R) (m : Nat) : Timeout P R :=
  { t with
    expected := t.expected.insert peer (((t.expected.lookup peer).getD ∅).insert what m) }

def setDeadline (t : Timeout P R) (peer : P) (deadline : Nat) : Timeout P R :=
  { t with timeouts := t.timeouts.insert peer deadline }

/-- Both entries of a peer are removed. -/
def erase (t : Timeout P R) (peer : P) : Timeout P R :=
  { t with timeouts := t.timeouts.erase peer, expected := t.expected.erase peer }

/-- `expected.values().all(|v| *v == 0)` -/
def allZero (t : Timeout P R) (peer : P) : Bool :=
  match t.expected.lookup peer with
  | some expected => expected.entries.all fun entry => entry.2 = 0
  | none => false

/-- The deadline goes with the last reply. -/
def settle (t : Timeout P R) (peer : P) : Timeout P R :=
  if t.allZero peer then { t with timeouts := t.timeouts.erase peer } else t

/-! ## The calls -/

def forget (peer : P) : Method (Timeout P R) Unit Unit :=
  Method.modify fun t => t.erase peer

def expect (w : Surroundings P) (peer : P) (n : UInt64) (what : R) :
    Method (Timeout P R) Unit Unit := do
  let deadline ← Method.lift w.deadline
  Method.modify fun t => t.setDeadline peer deadline
  -- `or_insert(0)`
  Method.modify fun t => t.setCount peer what (t.count peer what)
  let t ← Method.get
  let m ← Method.lift (checkedAdd 64 (t.count peer what) n.toNat)
  Method.modify fun t => t.setCount peer what m

/-- A new deadline where the reply is expected. -/
def extend (w : Surroundings P) (peer : P) (what : R) : Method (Timeout P R) Unit Unit := do
  let t ← Method.get
  if 0 < t.count peer what then
    let deadline ← Method.lift w.deadline
    Method.modify fun t => t.setDeadline peer deadline
  else
    pure ()

def received (w : Surroundings P) (peer : P) (n : UInt64) (what : R) :
    Method (Timeout P R) Unit Unit := do
  extend w peer what
  -- `or_insert(n)`
  Method.modify fun t => t.setCount peer what ((t.counter peer what).getD n.toNat)
  let t ← Method.get
  let m ← Method.lift (checkedSub (t.count peer what) (min n.toNat (t.count peer what)))
  Method.modify fun t => t.setCount peer what m
  Method.modify fun t => t.settle peer

def isBusy (t : Timeout P R) (peer : P) : Bool := (t.timeouts.lookup peer).isSome

def isBusyWith (t : Timeout P R) (peer : P) (what : R) : Bool :=
  if t.isBusy peer then
    match t.expected.lookup peer with
    | some expected =>
      match expected.lookup what with
      | some n => 0 < n
      | none => false
    | none => false
  else false

/-- A peer owes one of these replies. -/
def owes (t : Timeout P R) (peer : P) (expected : List R) : Bool :=
  expected.any fun what => 0 < t.count peer what

/-- `self.p2p.send(P2PControl::Disconnect(*peer))` -/
def disconnect (w : Surroundings P) (peer : P) : Method (Timeout P R) Unit Unit :=
  if w.connected then Method.modify fun t => { t with sent := t.sent ++ [peer] }
  else Method.lift (.panic .unwrapFailed)

/-- The loop over the deadlines, with the number of the next reading of the clock. -/
def checkLoop (w : Surroundings P) (expected : List R) :
    List P → Nat → Method (Timeout P R) Unit (List P)
  | [], _ => pure []
  | peer :: rest, k => do
    let now ← Method.lift (w.now k)
    let t ← Method.get
    if (t.timeouts.lookup peer).any (· < now) && t.owes peer expected then
      disconnect w peer
      let banned ← checkLoop w expected rest (k + 1)
      pure (peer :: banned)
    else
      checkLoop w expected rest (k + 1)

def check (w : Surroundings P) (expected : List R) : Method (Timeout P R) Unit Unit := do
  let t ← Method.get
  let banned ← checkLoop w expected (w.walk t.timeouts.keys) 0
  Method.modify fun t => banned.foldl erase t

/-! ## Counters -/

section Fields

variable (t : Timeout P R) (peer peer' : P) (what what' : R)

theorem counter_setCount (m : Nat) : (t.setCount peer what m).counter peer' what' =
    if peer' = peer ∧ what' = what then some m else t.counter peer' what' := by
  unfold counter setCount
  by_cases hpeer : peer' = peer
  · subst hpeer
    rw [AList.lookup_insert, Option.bind_some]
    by_cases hwhat : what' = what
    · subst hwhat
      rw [AList.lookup_insert, if_pos ⟨rfl, rfl⟩]
    · rw [AList.lookup_insert_ne hwhat, if_neg fun h => hwhat h.2]
      cases t.expected.lookup peer' with
      | none => rfl
      | some expected => rfl
  · rw [AList.lookup_insert_ne hpeer, if_neg fun h => hpeer h.1]

theorem count_setCount (m : Nat) : (t.setCount peer what m).count peer' what' =
    if peer' = peer ∧ what' = what then m else t.count peer' what' := by
  unfold count
  rw [counter_setCount]
  split_ifs <;> rfl

@[simp] theorem count_setCount_self (m : Nat) : (t.setCount peer what m).count peer what = m := by
  rw [count_setCount, if_pos ⟨rfl, rfl⟩]

theorem count_setCount_of_ne (m : Nat) (h : peer' ≠ peer) :
    (t.setCount peer what m).count peer' what' = t.count peer' what' := by
  rw [count_setCount, if_neg fun heq => h heq.1]

@[simp] theorem timeouts_setCount (m : Nat) : (t.setCount peer what m).timeouts = t.timeouts := rfl

@[simp] theorem sent_setCount (m : Nat) : (t.setCount peer what m).sent = t.sent := rfl

@[simp] theorem count_setDeadline (deadline : Nat) :
    (t.setDeadline peer deadline).count peer' what' = t.count peer' what' := rfl

omit [DecidableEq R] in
@[simp] theorem sent_setDeadline (deadline : Nat) :
    (t.setDeadline peer deadline).sent = t.sent := rfl

omit [DecidableEq R] in
theorem mem_setDeadline (deadline : Nat) :
    peer' ∈ (t.setDeadline peer deadline).timeouts ↔ peer' = peer ∨ peer' ∈ t.timeouts :=
  AList.mem_insert _

/-- All counters of a peer that has one are zero. -/
theorem allZero_iff : t.allZero peer = true ↔
    peer ∈ t.expected ∧ ∀ what, t.count peer what = 0 := by
  unfold allZero
  cases hlookup : t.expected.lookup peer with
  | none =>
    have hnot : peer ∉ t.expected := AList.lookup_eq_none.mp hlookup
    simp [hnot]
  | some expected =>
    have hmem : peer ∈ t.expected := AList.lookup_isSome.mp (hlookup ▸ rfl)
    rw [List.all_eq_true, and_iff_right hmem]
    constructor
    · intro hall what
      unfold count counter
      rw [hlookup, Option.bind_some]
      cases hcounter : expected.lookup what with
      | none => rfl
      | some n =>
        exact of_decide_eq_true (hall ⟨what, n⟩ (AList.mem_lookup_iff.mp hcounter))
    · rintro hzero ⟨what, n⟩ hentry
      have hcounter : expected.lookup what = some n := AList.mem_lookup_iff.mpr hentry
      have hcount := hzero what
      unfold count counter at hcount
      rw [hlookup, Option.bind_some, hcounter] at hcount
      exact decide_eq_true hcount

end Fields

/-! ## The invariant -/

/-- A peer has a deadline exactly while a reply of it is expected. -/
def InStep (t : Timeout P R) : Prop := ∀ peer, peer ∈ t.timeouts ↔ ∃ what, 0 < t.count peer what

variable {t t' : Timeout P R} {w : Surroundings P} {peer : P} {what : R}

theorem inStep_new : InStep (new : Timeout P R) := by
  intro peer
  refine iff_of_false (AList.notMem_empty peer) ?_
  rintro ⟨what, hcount⟩
  exact absurd hcount (Nat.lt_irrefl 0)

/-- What changes at one peer. -/
theorem InStep.of_peer (h : InStep t) (peer : P)
    (htimeouts : ∀ peer' ≠ peer, peer' ∈ t'.timeouts ↔ peer' ∈ t.timeouts)
    (hcount : ∀ peer' ≠ peer, ∀ what, t'.count peer' what = t.count peer' what)
    (hpeer : peer ∈ t'.timeouts ↔ ∃ what, 0 < t'.count peer what) : InStep t' := by
  intro peer'
  by_cases heq : peer' = peer
  · subst heq
    exact hpeer
  · simp only [htimeouts peer' heq, hcount peer' heq]
    exact h peer'

/-- A call keeps the maps in step, does not count below zero and disconnects nobody. -/
structure Safe (m : Method (Timeout P R) Unit Unit) (t : Timeout P R) : Prop where
  inStep : InStep (m.run t).1
  countsUp : (m.run t).2 ≠ .panic .subOverflow
  sent : (m.run t).1.sent = t.sent

/-! ### One peer is forgotten -/

theorem count_erase_self (t : Timeout P R) (peer : P) (what : R) :
    (t.erase peer).count peer what = 0 := by
  unfold count counter erase
  rw [AList.lookup_erase]
  rfl

theorem count_erase_of_ne (t : Timeout P R) {peer peer' : P} (h : peer' ≠ peer) (what : R) :
    (t.erase peer).count peer' what = t.count peer' what := by
  unfold count counter erase
  rw [AList.lookup_erase_ne h]

theorem InStep.erase (h : InStep t) (peer : P) : InStep (t.erase peer) := by
  apply h.of_peer peer
  · intro peer' hne
    exact AList.mem_erase.trans (and_iff_right hne)
  · intro peer' hne what
    exact count_erase_of_ne t hne what
  · refine iff_of_false (fun hmem => (AList.mem_erase.mp hmem).1 rfl) ?_
    rintro ⟨what, hcount⟩
    rw [count_erase_self] at hcount
    exact Nat.lt_irrefl 0 hcount

theorem safe_forget (h : InStep t) (peer : P) : Safe (forget peer) t :=
  ⟨h.erase peer, nofun, rfl⟩

/-! ### Replies are expected -/

/-- A deadline and a counter above zero go together. -/
theorem InStep.expecting (h : InStep t) (peer : P) (deadline : Nat) (what : R) {m : Nat}
    (hpos : 0 < m) : InStep ((t.setDeadline peer deadline).setCount peer what m) := by
  apply h.of_peer peer
  · intro peer' hne
    exact (mem_setDeadline t peer peer' deadline).trans (or_iff_right hne)
  · intro peer' hne what'
    exact count_setCount_of_ne _ peer peer' what what' m hne
  · refine iff_of_true ((mem_setDeadline t peer peer deadline).mpr (.inl rfl)) ⟨what, ?_⟩
    rw [count_setCount_self]
    exact hpos

theorem setCount_setCount (t : Timeout P R) (peer : P) (what : R) (m m' : Nat) :
    (t.setCount peer what m).setCount peer what m' = t.setCount peer what m' := by
  unfold setCount
  simp only [AList.lookup_insert, Option.getD_some, AList.insert_insert]

omit [DecidableEq P] in
theorem now_cases (w : Surroundings P) (k : Nat) :
    (∃ now, w.now k = .ok now) ∨ w.now k = .panic .unwrapFailed := by
  unfold Surroundings.now
  cases w.clock k with
  | none => exact .inr rfl
  | some now => exact .inl ⟨now.toNat, rfl⟩

omit [DecidableEq P] in
theorem deadline_cases (w : Surroundings P) :
    (∃ deadline, w.deadline = .ok deadline) ∨
      ∃ why, w.deadline = .panic why ∧ why ≠ .subOverflow := by
  unfold Surroundings.deadline
  rcases now_cases w 0 with ⟨now, hnow⟩ | hnow
  · rw [hnow, Outcome.ok_bind]
    rcases Nat.lt_or_ge (now + timeoutSecs) (2 ^ 64) with hfit | hover
    · exact .inl ⟨_, checkedAdd_of_lt hfit⟩
    · exact .inr ⟨.addOverflow, checkedAdd_of_le hover, nofun⟩
  · rw [hnow, Outcome.panic_bind]
    exact .inr ⟨.unwrapFailed, rfl, nofun⟩

theorem safe_expect (h : InStep t) (w : Surroundings P) (peer : P) {n : UInt64} (hn : 0 < n.toNat)
    (what : R) : Safe (expect w peer n what) t := by
  rcases deadline_cases w with ⟨deadline, hdeadline⟩ | ⟨why, hdeadline, hwhy⟩
  · have hrun : (expect w peer n what).run t =
        ((Method.lift (checkedAdd 64 (t.count peer what) n.toNat) >>= fun m =>
          Method.modify fun t => t.setCount peer what m).run
            ((t.setDeadline peer deadline).setCount peer what (t.count peer what))) := by
      unfold expect
      rw [Method.run_lift_bind_of_ok hdeadline, Method.run_bind_of_ok (Method.run_modify _ _),
        Method.run_bind_of_ok (Method.run_modify _ _), Method.run_bind_of_ok (Method.run_get _),
        count_setCount_self, count_setDeadline]
    rcases Nat.lt_or_ge (t.count peer what + n.toNat) (2 ^ 64) with hfit | hover
    · rw [checkedAdd_of_lt hfit, Method.run_lift_bind_of_ok rfl, Method.run_modify,
        setCount_setCount] at hrun
      refine ⟨?_, ?_, ?_⟩
      · rw [hrun]
        exact h.expecting peer deadline what (by omega)
      · rw [hrun]
        nofun
      · rw [hrun]
        rfl
    · -- a count that overflows was above zero
      have hcount : 0 < t.count peer what := by
        have hn' := n.toNat_lt
        omega
      rw [checkedAdd_of_le hover, Method.run_bind_of_panic (Method.run_lift _ _)] at hrun
      refine ⟨?_, ?_, ?_⟩
      · rw [hrun]
        exact h.expecting peer deadline what hcount
      · rw [hrun]
        nofun
      · rw [hrun]
        rfl
  · -- the deadline overflows before anything is changed
    have hrun : (expect w peer n what).run t = (t, .panic why) := by
      unfold expect
      rw [hdeadline, Method.run_bind_of_panic (Method.run_lift _ _)]
    refine ⟨?_, ?_, ?_⟩
    · rw [hrun]
      exact h
    · rw [hrun]
      exact fun heq => hwhy (Outcome.panic.inj heq)
    · rw [hrun]

/-! ### Replies are received -/

/-- A new deadline leaves the maps in step, and nothing else is changed. -/
theorem extend_cases (h : InStep t) (w : Surroundings P) (peer : P) (what : R) :
    (∃ t', (extend w peer what).run t = (t', .ok ()) ∧ InStep t' ∧ t'.expected = t.expected ∧
        t'.sent = t.sent) ∨
      ∃ why, (extend w peer what).run t = (t, .panic why) ∧ why ≠ .subOverflow := by
  unfold extend
  rw [Method.run_bind_of_ok (Method.run_get _)]
  split_ifs with hcount
  · rcases deadline_cases w with ⟨deadline, hdeadline⟩ | ⟨why, hdeadline, hwhy⟩
    · left
      refine ⟨t.setDeadline peer deadline, ?_, fun peer' => ?_, rfl, rfl⟩
      · rw [Method.run_lift_bind_of_ok hdeadline, Method.run_modify]
      · have hmem : peer ∈ t.timeouts := (h peer).mpr ⟨what, hcount⟩
        rw [mem_setDeadline, or_iff_right_of_imp fun heq => heq ▸ hmem]
        exact h peer'
    · right
      refine ⟨why, ?_, hwhy⟩
      rw [hdeadline, Method.run_bind_of_panic (Method.run_lift _ _)]
  · exact .inl ⟨t, rfl, h, rfl, rfl⟩

theorem InStep.settle (h : InStep t) (peer : P) (what : R) {m : Nat}
    (hm : m ≤ t.count peer what) : InStep ((t.setCount peer what m).settle peer) := by
  have hle (what' : R) : (t.setCount peer what m).count peer what' ≤ t.count peer what' := by
    rw [count_setCount]
    split_ifs with heq
    · rw [heq.2]
      exact hm
    · exact Nat.le_refl _
  have hmem : peer ∈ (t.setCount peer what m).expected := (AList.mem_insert _).mpr (.inl rfl)
  unfold Timeout.settle
  split_ifs with hzero
  · have hzero := ((allZero_iff _ peer).mp hzero).2
    apply h.of_peer peer
    · intro peer' hne
      exact AList.mem_erase.trans (and_iff_right hne)
    · intro peer' hne what'
      exact count_setCount_of_ne t peer peer' what what' m hne
    · refine iff_of_false (fun hmem => (AList.mem_erase.mp hmem).1 rfl) ?_
      rintro ⟨what', hcount⟩
      exact absurd (hzero what') (Nat.ne_of_gt hcount)
  · -- a counter is left, which the peer had before
    obtain ⟨what', hcount⟩ : ∃ what', 0 < (t.setCount peer what m).count peer what' := by
      by_contra hnone
      refine hzero ((allZero_iff _ peer).mpr ⟨hmem, fun what' => ?_⟩)
      exact Nat.eq_zero_of_not_pos fun hpos => hnone ⟨what', hpos⟩
    apply h.of_peer peer
    · intro peer' hne
      exact Iff.rfl
    · intro peer' hne what'
      exact count_setCount_of_ne t peer peer' what what' m hne
    · exact iff_of_true ((h peer).mpr ⟨what', hcount.trans_le (hle what')⟩) ⟨what', hcount⟩

theorem safe_received (h : InStep t) (w : Surroundings P) (peer : P) (n : UInt64) (what : R) :
    Safe (received w peer n what) t := by
  rcases extend_cases h w peer what with ⟨t', hextend, h', hexpected, hsent⟩ | ⟨why, hextend, hwhy⟩
  · obtain ⟨m, hm⟩ : ∃ m, m = (t'.counter peer what).getD n.toNat := ⟨_, rfl⟩
    have hmin : min n.toNat m ≤ m := Nat.min_le_right _ _
    have hle : m - min n.toNat m ≤ t'.count peer what := by
      rw [hm, count]
      cases t'.counter peer what with
      | none =>
        -- a reply that was never expected
        simp
      | some m => exact Nat.sub_le _ _
    have hrun : (received w peer n what).run t =
        ((t'.setCount peer what (m - min n.toNat m)).settle peer, .ok ()) := by
      unfold received
      rw [Method.run_bind_of_ok hextend, Method.run_bind_of_ok (Method.run_modify _ _),
        Method.run_bind_of_ok (Method.run_get _), ← hm, count_setCount_self,
        Method.run_lift_bind_of_ok (checkedSub_of_le hmin),
        Method.run_bind_of_ok (Method.run_modify _ _), Method.run_modify, setCount_setCount]
    refine ⟨?_, ?_, ?_⟩
    · rw [hrun]
      exact h'.settle peer what hle
    · rw [hrun]
      nofun
    · rw [hrun, ← hsent]
      unfold settle
      split_ifs <;> rfl
  · have hrun : (received w peer n what).run t = (t, .panic why) := by
      unfold received
      rw [Method.run_bind_of_panic hextend]
    refine ⟨?_, ?_, ?_⟩
    · rw [hrun]
      exact h
    · rw [hrun]
      exact fun heq => hwhy (Outcome.panic.inj heq)
    · rw [hrun]

/-! ### Deadlines are checked -/

/-- The deadline of a peer has passed, at a reading of the clock, and it still owes a reply. -/
def Overdue (w : Surroundings P) (expected : List R) (t : Timeout P R) (peer : P) : Prop :=
  ∃ k now deadline, w.now k = .ok now ∧ t.timeouts.lookup peer = some deadline ∧ deadline < now ∧
    ∃ what ∈ expected, 0 < t.count peer what

theorem overdue_of_due {expected : List R} {k now : Nat} (hnow : w.now k = .ok now)
    (hdue : ((t.timeouts.lookup peer).any (· < now) && t.owes peer expected) = true) :
    Overdue w expected t peer := by
  obtain ⟨hpassed, howes⟩ := (Bool.and_eq_true _ _).mp hdue
  obtain ⟨what, hwhat, hcount⟩ := List.any_eq_true.mp howes
  cases hdeadline : t.timeouts.lookup peer with
  | none =>
    rw [hdeadline] at hpassed
    cases hpassed
  | some deadline =>
    rw [hdeadline, Option.any_some] at hpassed
    exact ⟨k, now, deadline, hnow, hdeadline, of_decide_eq_true hpassed, what, hwhat,
      of_decide_eq_true hcount⟩

/-- These messages are in the channel, too. -/
def sentMore (t : Timeout P R) (peers : List P) : Timeout P R :=
  { t with sent := t.sent ++ peers }

/-- The loop sends for overdue peers only, and returns those that it sent for. -/
theorem checkLoop_cases (w : Surroundings P) (expected : List R) (peers : List P) (k : Nat)
    (t : Timeout P R) :
    ∃ sent, (∀ peer ∈ sent, Overdue w expected t peer) ∧
      ((checkLoop w expected peers k).run t = (t.sentMore sent, .ok sent) ∨
        (checkLoop w expected peers k).run t = (t.sentMore sent, .panic .unwrapFailed)) := by
  induction peers generalizing k t with
  | nil =>
    refine ⟨[], by simp, .inl ?_⟩
    simp [checkLoop, sentMore]
  | cons peer rest ih =>
    unfold checkLoop
    rcases now_cases w k with ⟨now, hnow⟩ | hnow
    · rw [Method.run_lift_bind_of_ok hnow, Method.run_bind_of_ok (Method.run_get _)]
      split_ifs with hdue
      · have hoverdue := overdue_of_due hnow hdue
        unfold disconnect
        split_ifs with hconnected
        · rw [Method.run_bind_of_ok (Method.run_modify _ _)]
          obtain ⟨sent, hsent, hrest⟩ := ih (k + 1) (t.sentMore [peer])
          have hmore : (t.sentMore [peer]).sentMore sent = t.sentMore (peer :: sent) := by
            simp [sentMore]
          rw [hmore] at hrest
          refine ⟨peer :: sent, List.forall_mem_cons.mpr ⟨hoverdue, hsent⟩, ?_⟩
          rcases hrest with hrest | hrest
          · exact .inl (Method.run_bind_of_ok hrest)
          · exact .inr (Method.run_bind_of_panic hrest)
        · -- nothing is sent into a closed channel
          refine ⟨[], by simp, .inr ?_⟩
          rw [Method.run_bind_of_panic (Method.run_lift _ _)]
          simp [sentMore]
      · exact ih (k + 1) t
    · refine ⟨[], by simp, .inr ?_⟩
      rw [Method.run_bind_of_panic (by rw [Method.run_lift, hnow])]
      simp [sentMore]

theorem InStep.foldl_erase (h : InStep t) (peers : List P) :
    InStep (peers.foldl Timeout.erase t) := by
  induction peers generalizing t with
  | nil => exact h
  | cons peer peers ih => exact ih (h.erase peer)

omit [DecidableEq R] in
theorem sent_foldl_erase (t : Timeout P R) (peers : List P) :
    (peers.foldl erase t).sent = t.sent := by
  induction peers generalizing t with
  | nil => rfl
  | cons peer peers ih => exact ih (t.erase peer)

/-- **Disconnections**: a check keeps the maps in step and disconnects overdue peers only. -/
theorem check_cases (h : InStep t) (w : Surroundings P) (expected : List R) :
    InStep ((check w expected).run t).1 ∧ ((check w expected).run t).2 ≠ .panic .subOverflow ∧
      ∃ sent, ((check w expected).run t).1.sent = t.sent ++ sent ∧
        ∀ peer ∈ sent, Overdue w expected t peer := by
  obtain ⟨sent, hsent, hloop⟩ := checkLoop_cases w expected (w.walk t.timeouts.keys) 0 t
  have hmore : InStep (t.sentMore sent) := h
  unfold check
  rw [Method.run_bind_of_ok (Method.run_get _)]
  rcases hloop with hloop | hloop
  · rw [Method.run_bind_of_ok hloop, Method.run_modify]
    exact ⟨hmore.foldl_erase sent, nofun, sent, sent_foldl_erase _ sent, hsent⟩
  · rw [Method.run_bind_of_panic hloop]
    exact ⟨hmore, nofun, sent, rfl, hsent⟩

/-! ## Runs -/

/-- A call, with what it meets. -/
inductive Call (P R : Type) where
  | expect (w : Surroundings P) (peer : P) (n : UInt64) (what : R)
  | received (w : Surroundings P) (peer : P) (n : UInt64) (what : R)
  | check (w : Surroundings P) (expected : List R)
  | forget (peer : P)

namespace Call

def method : Call P R → Method (Timeout P R) Unit Unit
  | expect w peer n what => Timeout.expect w peer n what
  | received w peer n what => Timeout.received w peer n what
  | check w expected => Timeout.check w expected
  | forget peer => Timeout.forget peer

/-- At least one reply is expected. -/
def Positive : Call P R → Prop
  | expect _ _ n _ => 0 < n.toNat
  | _ => True

end Call

/-- The maps after a call, also where it panics. -/
def step (t : Timeout P R) (call : Call P R) : Timeout P R := (call.method.run t).1

/-- The deadlines and the counts agree, and what the next call may do. -/
structure Bookkeeping (t : Timeout P R) : Prop where
  deadline_iff : ∀ peer, t.isBusy peer = true ↔ ∃ what, 0 < t.count peer what
  busyWith_iff : ∀ peer what, t.isBusyWith peer what = true ↔ 0 < t.count peer what
  /-- No count goes below zero. -/
  countsUp : ∀ call : Call P R, call.Positive → (call.method.run t).2 ≠ .panic .subOverflow
  overdue : ∀ (w : Surroundings P) (expected : List R), ∃ sent,
    ((check w expected).run t).1.sent = t.sent ++ sent ∧ ∀ peer ∈ sent, Overdue w expected t peer
  /-- The other calls disconnect nobody. -/
  others : ∀ call : Call P R, call.Positive → (∀ w expected, call ≠ .check w expected) →
    (call.method.run t).1.sent = t.sent

theorem InStep.safe (h : InStep t) {call : Call P R} (hpositive : call.Positive)
    (hother : ∀ w expected, call ≠ .check w expected) : Safe call.method t := by
  cases call with
  | expect w peer n what => exact safe_expect h w peer hpositive what
  | received w peer n what => exact safe_received h w peer n what
  | check w expected => exact absurd rfl (hother w expected)
  | forget peer => exact safe_forget h peer

theorem InStep.step (h : InStep t) {call : Call P R} (hpositive : call.Positive) :
    InStep (t.step call) := by
  cases call with
  | check w expected => exact (check_cases h w expected).1
  | expect w peer n what => exact (safe_expect h w peer hpositive what).inStep
  | received w peer n what => exact (safe_received h w peer n what).inStep
  | forget peer => exact (safe_forget h peer).inStep

theorem InStep.run (h : InStep t) {calls : List (Call P R)}
    (hpositive : ∀ call ∈ calls, call.Positive) : InStep (Lib.run Timeout.step t calls) := by
  induction calls generalizing t with
  | nil => exact h
  | cons call calls ih =>
    obtain ⟨hcall, hcalls⟩ := List.forall_mem_cons.mp hpositive
    exact ih (h.step hcall) hcalls

omit [DecidableEq R] in
theorem isBusy_iff (t : Timeout P R) (peer : P) : t.isBusy peer = true ↔ peer ∈ t.timeouts :=
  AList.lookup_isSome

/-- A counter above zero keeps its peer busy. -/
theorem InStep.busyWith_iff (h : InStep t) (peer : P) (what : R) :
    t.isBusyWith peer what = true ↔ 0 < t.count peer what := by
  have hcode : t.isBusyWith peer what = (t.isBusy peer && decide (0 < t.count peer what)) := by
    unfold isBusyWith count counter
    cases t.isBusy peer with
    | false => rfl
    | true =>
      cases t.expected.lookup peer with
      | none => rfl
      | some expected =>
        cases hcounter : expected.lookup what with
        | none => simp [hcounter]
        | some n => simp [hcounter]
  rw [hcode, Bool.and_eq_true, decide_eq_true_iff, isBusy_iff]
  exact and_iff_right_of_imp fun hcount => (h peer).mpr ⟨what, hcount⟩

theorem InStep.bookkeeping (h : InStep t) : Bookkeeping t where
  deadline_iff peer := (isBusy_iff t peer).trans (h peer)
  busyWith_iff := h.busyWith_iff
  countsUp call hpositive := by
    cases call with
    | check w expected => exact (check_cases h w expected).2.1
    | expect w peer n what => exact (safe_expect h w peer hpositive what).countsUp
    | received w peer n what => exact (safe_received h w peer n what).countsUp
    | forget peer => exact (safe_forget h peer).countsUp
  overdue w expected := (check_cases h w expected).2.2
  others call hpositive hother := (h.safe hpositive hother).sent

/-- **Timeouts**: after any calls the deadlines and the counts agree. -/
theorem bookkeeping_run (calls : List (Call P R)) (hpositive : ∀ call ∈ calls, call.Positive) :
    Bookkeeping (run step (new : Timeout P R) calls) :=
  (inStep_new.run hpositive).bookkeeping

/-! ### One peer -/

/-- A clock that stands still, and an open channel. -/
def still (now : UInt64) : Surroundings Nat where
  clock _ := some now
  walk peers := peers
  walk_perm _ := List.Perm.refl _
  connected := true

/-- Two replies are expected and one is received; the other is checked for after the deadline. -/
def oneOwed : List (Call Nat Bool) :=
  [.expect (still 10) 7 2 true, .received (still 20) 7 1 true, .received (still 30) 8 1 false,
    .check (still 200) [true]]

example : (run step (new : Timeout Nat Bool) oneOwed).sent = [7] := by decide

theorem bookkeeping_oneOwed : Bookkeeping (run step (new : Timeout Nat Bool) oneOwed) := by
  apply bookkeeping_run
  simp [oneOwed, Call.Positive]

end Timeout

end Cashbox.Btc
