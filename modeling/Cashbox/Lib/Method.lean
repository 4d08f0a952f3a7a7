import Cashbox.Lib.Outcome

/-!
# Methods with a mutable receiver

A Rust method on `&mut self` that returns `Result<T, E>` maps the receiver to a
new receiver and an outcome. What it wrote before it returned `Err` stays
written, so the receiver is part of the result in every case.
-/

namespace Cashbox.Lib

/-- A method on a receiver of type `σ`. -/
structure Method (σ ε α : Type) where
  run : σ → σ × Outcome ε α

namespace Method

variable {σ τ ε α β γ : Type}

/-- Sequencing: the second method starts from the receiver the first one leaves. -/
protected def bind (m : Method σ ε α) (f : α → Method σ ε β) : Method σ ε β where
  run s :=
    match m.run s with
    | (s', .ok a) => (f a).run s'
    -- what was written before stays written
    | (s', .err e) => (s', .err e)
    | (s', .panic p) => (s', .panic p)

instance : Monad (Method σ ε) where
  pure a := ⟨fun s => (s, .ok a)⟩
  bind := Method.bind

/-- A function that does not touch the receiver. -/
def lift (x : Outcome ε α) : Method σ ε α := ⟨fun s => (s, x)⟩

def get : Method σ ε σ := ⟨fun s => (s, .ok s)⟩

def modify (f : σ → σ) : Method σ ε Unit := ⟨fun s => (f s, .ok ())⟩

/-- Matching on the `Result` of a call instead of passing its `Err` on. -/
def attempt (m : Method σ ε α) : Method σ ε (Except ε α) where
  run s :=
    match m.run s with
    | (s', .ok a) => (s', .ok (.ok a))
    | (s', .err e) => (s', .ok (.error e))
    | (s', .panic p) => (s', .panic p)

/-- A method `n` times, with the results in order. -/
def times (m : Method σ ε α) : Nat → Method σ ε (List α)
  | 0 => pure []
  | n + 1 => do
    let x ← m
    let xs ← times m n
    pure (x :: xs)

/-- A method of a field of the receiver. -/
def on (read : τ → σ) (write : τ → σ → τ) (m : Method σ ε α) : Method τ ε α where
  run t := (write t (m.run (read t)).1, (m.run (read t)).2)

/-! ## Runs -/

@[simp] theorem run_pure (a : α) (s : σ) : (pure a : Method σ ε α).run s = (s, .ok a) := rfl

@[simp] theorem run_lift (x : Outcome ε α) (s : σ) :
    (lift x : Method σ ε α).run s = (s, x) := rfl

@[simp] theorem run_get (s : σ) : (get : Method σ ε σ).run s = (s, .ok s) := rfl

@[simp] theorem run_modify (f : σ → σ) (s : σ) :
    (modify f : Method σ ε Unit).run s = (f s, .ok ()) := rfl

@[simp] theorem run_on (read : τ → σ) (write : τ → σ → τ) (m : Method σ ε α)
    (t : τ) : (m.on read write).run t = (write t (m.run (read t)).1, (m.run (read t)).2) := rfl

theorem run_bind (m : Method σ ε α) (f : α → Method σ ε β) (s : σ) :
    (m >>= f).run s =
      match m.run s with
      | (s', .ok a) => (f a).run s'
      | (s', .err e) => (s', .err e)
      | (s', .panic p) => (s', .panic p) := rfl

/-- A method that returns `Ok` hands its receiver and value on. -/
theorem run_bind_of_ok {m : Method σ ε α} {f : α → Method σ ε β} {s s' : σ} {a : α}
    (h : m.run s = (s', .ok a)) : (m >>= f).run s = (f a).run s' := by
  rw [run_bind, h]

/-- A method that returns `Err` ends the sequence. -/
theorem run_bind_of_err {m : Method σ ε α} {f : α → Method σ ε β} {s s' : σ} {e : ε}
    (h : m.run s = (s', .err e)) : (m >>= f).run s = (s', .err e) := by
  rw [run_bind, h]

theorem run_bind_of_panic {m : Method σ ε α} {f : α → Method σ ε β} {s s' : σ} {p : Panic}
    (h : m.run s = (s', .panic p)) : (m >>= f).run s = (s', .panic p) := by
  rw [run_bind, h]

theorem run_lift_bind_of_ok {x : Outcome ε α} {f : α → Method σ ε β} {a : α} (h : x = .ok a)
    (s : σ) : (lift x >>= f).run s = (f a).run s := by
  rw [h]
  rfl

/-- Two values, of which the second depends on the first. -/
theorem run_lift_bind_lift (x : Outcome ε α) (f : α → Outcome ε β) (s : σ) :
    (lift x >>= fun a => lift (f a)).run s = (s, x >>= f) := by
  cases x <;> rfl

/-- A sequence that returns `Ok` is two methods that return `Ok`. -/
theorem run_bind_eq_ok {m : Method σ ε α} {f : α → Method σ ε β} {s t : σ} {b : β} :
    (m >>= f).run s = (t, .ok b) ↔
      ∃ s' a, m.run s = (s', .ok a) ∧ (f a).run s' = (t, .ok b) := by
  rw [run_bind]
  -- only a method that returns `Ok` reaches the second one
  rcases m.run s with ⟨s', a | e | p⟩
  · constructor
    · intro h
      exact ⟨s', a, rfl, h⟩
    · rintro ⟨_, _, heq, h⟩
      cases heq
      exact h
  · simp
  · simp

theorem run_attempt_of_ok {m : Method σ ε α} {s s' : σ} {a : α} (h : m.run s = (s', .ok a)) :
    m.attempt.run s = (s', .ok (.ok a)) := by
  simp only [attempt, h]

theorem run_attempt_of_err {m : Method σ ε α} {s s' : σ} {e : ε} (h : m.run s = (s', .err e)) :
    m.attempt.run s = (s', .ok (.error e)) := by
  simp only [attempt, h]

theorem run_attempt_of_panic {m : Method σ ε α} {s s' : σ} {p : Panic}
    (h : m.run s = (s', .panic p)) : m.attempt.run s = (s', .panic p) := by
  simp only [attempt, h]

/-- One round of a loop, then the others. -/
theorem run_times_succ {m : Method σ ε α} {n : Nat} {s s' s'' : σ} {x : α} {xs : List α}
    (hm : m.run s = (s', .ok x)) (hrest : (m.times n).run s' = (s'', .ok xs)) :
    (m.times (n + 1)).run s = (s'', .ok (x :: xs)) := by
  show (m >>= fun x => m.times n >>= fun xs => pure (x :: xs)).run s = _
  rw [run_bind_of_ok hm, run_bind_of_ok hrest]
  rfl

/-! ## Frames -/

/-- The method leaves the view `v` of the receiver as it is, whatever it returns. -/
def Keeps (v : σ → β) (m : Method σ ε α) : Prop := ∀ s, v (m.run s).1 = v s

namespace Keeps

variable {v : σ → γ}

theorem pure (a : α) : Keeps v (Pure.pure a : Method σ ε α) := fun _ => rfl

theorem lift (x : Outcome ε α) : Keeps v (Method.lift x : Method σ ε α) := fun _ => rfl

theorem ite {p : Prop} [Decidable p] {m m' : Method σ ε α} (hm : Keeps v m) (hm' : Keeps v m') :
    Keeps v (if p then m else m') := by
  split_ifs
  · exact hm
  · exact hm'

/-- What follows a method does not change a view that it leaves as it is. -/
theorem view_bind {m : Method σ ε α} {f : α → Method σ ε β} (hf : ∀ a, Keeps v (f a))
    (s : σ) : v ((m >>= f).run s).1 = v (m.run s).1 := by
  rw [run_bind]
  rcases m.run s with ⟨s', a | e | p⟩
  · exact hf a s'
  · rfl
  · rfl

/-- A sequence of methods that leave a view as it is does so too. -/
theorem bind {m : Method σ ε α} {f : α → Method σ ε β} (hm : Keeps v m)
    (hf : ∀ a, Keeps v (f a)) : Keeps v (m >>= f) := by
  intro s
  rw [view_bind hf, hm s]

end Keeps

end Method

end Cashbox.Lib
