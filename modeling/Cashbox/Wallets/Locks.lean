import Cashbox.Lib.Run

/-!
# The locks of the wallets

To lock the wallets of a context a thread takes the lock of the registry, finds the wallets, waits
for their own lock and gives the lock of the registry back. To unlock them it does the same. The
thread that has the wallets needs the registry to give them back, so that another one must not
wait for them with the lock of the registry in its hands.
-/

namespace Cashbox.Wallets.Locks

open Cashbox.Lib

section Locks

variable {Thread Id : Type} [DecidableEq Thread] [DecidableEq Id]

/-! ## Reentrant locks -/

/-- The owner of a lock and how often it has it. -/
structure Held (Thread : Type) where
  owner : Thread
  lockCount : Nat
  deriving DecidableEq

/-- `RawReentrantMutex::lock`, or none while another thread has the lock. -/
def lock (thread : Thread) : Option (Held Thread) → Option (Held Thread)
  | none => some ⟨thread, 1⟩
  | some held => if held.owner = thread then some ⟨thread, held.lockCount + 1⟩ else none

/-- `RawReentrantMutex::unlock`, which does not ask who has the lock. -/
def unlock : Option (Held Thread) → Option (Held Thread)
  | some held =>
    if held.lockCount = 1 then none else some { held with lockCount := held.lockCount - 1 }
  | none => none

/-! ## Calls -/

inductive Call (Id : Type) where
  | lockRead (id : Id)
  | unlockRead (id : Id)
  | lockWrite (id : Id)
  | unlockWrite (id : Id)
  deriving DecidableEq

/-- The context of a call. -/
def Call.id : Call Id → Id
  | .lockRead id | .unlockRead id | .lockWrite id | .unlockWrite id => id

/-- The wallets that a call locks. -/
def Call.locks : Call Id → Option Id
  | .lockRead id | .lockWrite id => some id
  | .unlockRead _ | .unlockWrite _ => none

/-- What the method of the call makes of the lock of the wallets, or none while it waits. Reading
and writing are the same. -/
def Call.perform (thread : Thread) : Call Id → Option (Held Thread) → Option (Option (Held Thread))
  | .lockRead _, held | .lockWrite _, held => (lock thread held).map some
  | .unlockRead _, held | .unlockWrite _, held => some (unlock held)

/-- The call of the thread that has the lock of the registry, and whether it is through with
the wallets. -/
structure Calling (Thread Id : Type) where
  thread : Thread
  call : Call Id
  through : Bool

variable (Thread Id) in
structure State where
  /-- the lock of `Contexts::collection`, with the call it is taken for -/
  collection : Option (Calling Thread Id)
  /-- `raw_reentrant` of the wallets of a context -/
  wallets : Id → Option (Held Thread)

def State.new : State Thread Id := ⟨none, fun _ => none⟩

variable (Thread Id) in
inductive Action where
  /-- a call takes the lock of the registry -/
  | enter (thread : Thread) (call : Call Id)
  /-- and locks or unlocks the wallets -/
  | perform (thread : Thread)
  /-- and gives the lock of the registry back -/
  | leave (thread : Thread)
  deriving DecidableEq

/-- A step of a thread; a thread that has to wait stays where it is. The wallets of the contexts
in `registered` are found. -/
def step (registered : Id → Bool) (s : State Thread Id) : Action Thread Id → State Thread Id
  | .enter thread call =>
    match s.collection with
    | none => { s with collection := some ⟨thread, call, false⟩ }
    | some _ => s
  | .perform thread =>
    match s.collection with
    | some calling =>
      if calling.thread = thread ∧ calling.through = false then
        if registered calling.call.id then
          match calling.call.perform thread (s.wallets calling.call.id) with
          | some held =>
            { collection := some { calling with through := true }
              wallets := fun id => if id = calling.call.id then held else s.wallets id }
          | none => s
        else { s with collection := some { calling with through := true } }
      else s
    | none => s
  | .leave thread =>
    match s.collection with
    | some calling =>
      if calling.thread = thread ∧ calling.through then { s with collection := none } else s
    | none => s

/-! ## Deadlocks -/

variable (registered : Id → Bool)

/-- The wallets that a thread is locking while another thread has them. -/
def Deadlock (s : State Thread Id) : Prop :=
  ∃ calling id held, s.collection = some calling ∧ calling.through = false ∧
    calling.call.locks = some id ∧ registered id = true ∧ s.wallets id = some held ∧
    held.owner ≠ calling.thread

/-- The condition on a step: wallets are not locked while another thread has them. -/
def Action.Ok (s : State Thread Id) : Action Thread Id → Prop
  | .enter thread call => s.collection = none → ∀ id held, call.locks = some id →
      registered id = true → s.wallets id = some held → held.owner = thread
  | _ => True

variable {registered} {s : State Thread Id}

omit [DecidableEq Id] in
theorem Call.id_of_locks {call : Call Id} {id : Id} (h : call.locks = some id) : call.id = id := by
  cases call <;> first | exact Option.some.inj h | cases h

omit [DecidableEq Id] in
theorem Call.perform_of_locks {call : Call Id} {id : Id} (thread : Thread)
    (held : Option (Held Thread)) (h : call.locks = some id) :
    call.perform thread held = (lock thread held).map some := by
  cases call <;> first | rfl | cases h

/-- **A deadlock stays**: the thread that waits has the lock of the registry, and every other
needs it. -/
theorem Deadlock.step (h : Deadlock registered s) (a : Action Thread Id) :
    Locks.step registered s a = s := by
  obtain ⟨calling, id, held, hcollection, hthrough, hlocks, hregistered, hheld, howner⟩ := h
  obtain rfl : calling.call.id = id := Call.id_of_locks hlocks
  cases a with
  | enter thread call => simp [Locks.step, hcollection]
  | perform thread =>
    have hwaits : calling.call.perform calling.thread (s.wallets calling.call.id) = none := by
      rw [Call.perform_of_locks _ _ hlocks, hheld]
      simp [lock, howner]
    by_cases hthread : calling.thread = thread
    · subst hthread
      simp [Locks.step, hcollection, hthrough, hregistered, hwaits]
    · simp [Locks.step, hcollection, hthread]
  | leave thread => simp [Locks.step, hcollection, hthrough]

/-- The thread that has the wallets cannot give them back any more. -/
theorem Deadlock.run (h : Deadlock registered s) (as : List (Action Thread Id)) :
    Lib.run (Locks.step registered) s as = s := by
  induction as with
  | nil => rfl
  | cons a as ih => rw [run_cons, h.step, ih]

/-- **One step** leads into a deadlock exactly if it begins to lock wallets that another thread
has. -/
theorem deadlock_step_iff (h : ¬ Deadlock registered s) (a : Action Thread Id) :
    ¬ Deadlock registered (Locks.step registered s a) ↔ a.Ok registered s := by
  -- a call that has gone through waits for no wallet
  have hthrough : ∀ (calling : Calling Thread Id) wallets,
      ¬ Deadlock registered ⟨some { calling with through := true }, wallets⟩ := by
    rintro calling wallets ⟨_, _, _, hsome, hwaits, _⟩
    cases hsome
    cases hwaits
  cases a with
  | enter thread call =>
    unfold Locks.step Action.Ok
    cases hcollection : s.collection with
    | some calling => exact iff_of_true h fun hnone => nomatch hnone
    | none =>
      constructor
      · intro hno _ id held hlocks hregistered hheld
        by_contra howner
        exact hno ⟨_, id, held, rfl, rfl, hlocks, hregistered, hheld, howner⟩
      · rintro hok ⟨calling, id, held, hsome, _, hlocks, hregistered, hheld, howner⟩
        cases hsome
        exact howner (hok rfl id held hlocks hregistered hheld)
  | perform thread =>
    -- whoever waits goes through, or waits as before
    refine iff_of_true ?_ trivial
    unfold Locks.step
    cases hcollection : s.collection with
    | none => exact h
    | some calling =>
      dsimp only
      split
      · split
        · split
          · exact hthrough calling _
          · exact h
        · exact hthrough calling _
      · exact h
  | leave thread =>
    refine iff_of_true ?_ trivial
    unfold Locks.step
    cases hcollection : s.collection with
    | none => exact h
    | some calling =>
      dsimp only
      split
      · rintro ⟨_, _, _, hsome, _⟩
        cases hsome
      · exact h

/-- **The locks of the wallets** are free of deadlocks exactly as long as no thread begins to lock
wallets that another thread has. -/
theorem not_deadlock_run_iff (registered : Id → Bool) (as : List (Action Thread Id)) :
    (∀ pre, pre <+: as → ¬ Deadlock registered (Lib.run (Locks.step registered) State.new pre)) ↔
      Guarded (Locks.step registered) (fun s a => a.Ok registered s) State.new as := by
  have hstep : ∀ s (a : Action Thread Id), ¬ Deadlock registered s → a.Ok registered s →
      ¬ Deadlock registered (Locks.step registered s a) :=
    fun _ a h hok => (deadlock_step_iff h a).mpr hok
  have hbad : ∀ s (a : Action Thread Id), ¬ Deadlock registered s → ¬ a.Ok registered s →
      ¬ ¬ Deadlock registered (Locks.step registered s a) :=
    fun _ a h hno hnot => hno ((deadlock_step_iff h a).mp hnot)
  have hnew : ¬ Deadlock registered (State.new : State Thread Id) := by
    rintro ⟨_, _, _, hnone, _⟩
    cases hnone
  exact forall_prefix_iff_guarded (fun _ h => h) hstep hbad hnew as

end Locks

/-- A thread has the wallets, and another one locks them. -/
theorem not_deadlockFree : ¬ ∀ (Thread Id : Type) [DecidableEq Thread] [DecidableEq Id]
    (registered : Id → Bool) (as : List (Action Thread Id)), ∀ pre, pre <+: as →
    ¬ Deadlock registered (Lib.run (step registered) State.new pre) := by
  intro h
  refine h Bool Unit (fun _ => true) [.enter false (.lockRead ()), .perform false, .leave false,
    .enter true (.lockRead ())] _ List.prefix_rfl ?_
  exact ⟨_, (), ⟨false, 1⟩, rfl, rfl, rfl, rfl, rfl, by decide⟩

end Cashbox.Wallets.Locks
