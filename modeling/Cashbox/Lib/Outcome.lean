import Mathlib.Algebra.GroupWithZero.Nat
import Mathlib.Order.Basic

/-!
# Outcomes of Rust functions

A Rust function that returns `Result<T, E>` ends in one of three ways: it
returns `Ok`, it returns `Err`, or it panics. `Outcome ε α` keeps the three
apart, and `Panic` names the reason, so that "returns an error" and "does not
panic" are different statements about a model.

Arithmetic is checked: an addition, subtraction or multiplication that leaves
its machine word is a panic, as in a build with overflow checks.
-/

namespace Cashbox.Lib

/-! ## Outcomes -/

/-- Why a computation panics. -/
inductive Panic where
  | addOverflow
  | subOverflow
  | mulOverflow
  | indexOutOfBounds
  | lengthMismatch
  | unwrapFailed
  | assertFailed
  /-- A call of `panic!`. -/
  | explicit
  /-- A modelled loop used up its bound: the Rust loop goes on from here. -/
  | loopBound
  deriving DecidableEq, Repr

/-- The result of a function that may return `Err` or panic. -/
inductive Outcome (ε α : Type) where
  | ok (value : α)
  | err (error : ε)
  | panic (why : Panic)
  deriving DecidableEq, Repr

namespace Outcome

variable {ε α β γ : Type}

/-- Sequencing: the `?` operator, with panics passed on. -/
protected def bind (x : Outcome ε α) (f : α → Outcome ε β) : Outcome ε β :=
  match x with
  | .ok a => f a
  | .err e => .err e
  | .panic p => .panic p

instance : Monad (Outcome ε) where
  pure := .ok
  bind := Outcome.bind

@[simp] theorem pure_eq_ok (a : α) : (pure a : Outcome ε α) = .ok a := rfl

@[simp] theorem ok_bind (a : α) (f : α → Outcome ε β) : (Outcome.ok a >>= f) = f a := rfl

@[simp] theorem err_bind (e : ε) (f : α → Outcome ε β) :
    ((.err e : Outcome ε α) >>= f) = .err e := rfl

@[simp] theorem panic_bind (p : Panic) (f : α → Outcome ε β) :
    ((.panic p : Outcome ε α) >>= f) = .panic p := rfl

/-- A sequence returns `Ok` exactly when both of its parts do. -/
theorem bind_eq_ok {x : Outcome ε α} {f : α → Outcome ε β} {b : β} :
    (x >>= f) = .ok b ↔ ∃ a, x = .ok a ∧ f a = .ok b := by
  cases x with
  | ok a => simp
  | err e => simp
  | panic p => simp

instance : LawfulMonad (Outcome ε) :=
  LawfulMonad.mk' _ (fun x => by cases x <;> rfl) (fun _ _ => rfl)
    (fun x _ _ => by cases x <;> rfl)

/-- A loop whose rounds all return `Ok`. -/
theorem mapM_of_ok {xs : List α} {f : α → Outcome ε β} {g : α → β}
    (h : ∀ x ∈ xs, f x = .ok (g x)) : xs.mapM f = .ok (xs.map g) := by
  induction xs with
  | nil => rfl
  | cons x xs ih =>
    obtain ⟨hx, hxs⟩ := List.forall_mem_cons.mp h
    simp [List.mapM_cons, hx, ih hxs]

/-- `Result::map_err`. -/
def mapErr {ε' : Type} (f : ε → ε') : Outcome ε α → Outcome ε' α
  | .ok a => .ok a
  | .err e => .err (f e)
  | .panic p => .panic p

/-- `Result::unwrap`: an `Err` becomes a panic. -/
def unwrap {ε' : Type} : Outcome ε α → Outcome ε' α
  | .ok a => .ok a
  | .err _ => .panic .unwrapFailed
  | .panic p => .panic p

/-- `Option::unwrap`. -/
def ofSome : Option α → Outcome ε α
  | some a => .ok a
  | none => .panic .unwrapFailed

/-- `Option::ok_or`. -/
def okOr (e : ε) : Option α → Outcome ε α
  | some a => .ok a
  | none => .err e

/-- A `Result` of code outside the model. -/
def ofExcept : Except ε α → Outcome ε α
  | .ok a => .ok a
  | .error e => .err e

@[simp] theorem ofExcept_ok (a : α) : ofExcept (.ok a : Except ε α) = .ok a := rfl

@[simp] theorem ofExcept_error (e : ε) : ofExcept (.error e : Except ε α) = .err e := rfl

theorem ofExcept_eq_ok {x : Except ε α} {a : α} : ofExcept x = .ok a ↔ x = .ok a := by
  cases x with
  | ok b => simp
  | error e => simp

theorem ofExcept_bind (x : Except ε α) (f : α → Except ε β) :
    ofExcept (x >>= f) = (ofExcept x >>= fun a => ofExcept (f a)) := by
  cases x <;> rfl

/-- `Result::is_ok`, false also for a panic. -/
def isOk : Outcome ε α → Bool
  | .ok _ => true
  | _ => false

/-- The computation returns `Err`. -/
def IsErr : Outcome ε α → Prop
  | .err _ => True
  | _ => False

instance (x : Outcome ε α) : Decidable x.IsErr := by
  cases x <;> unfold IsErr <;> infer_instance

@[simp] theorem isErr_err (e : ε) : (.err e : Outcome ε α).IsErr := trivial

@[simp] theorem not_isErr_ok (a : α) : ¬ (.ok a : Outcome ε α).IsErr := id

@[simp] theorem not_isErr_panic (p : Panic) : ¬ (.panic p : Outcome ε α).IsErr := id

theorem isOk_iff {x : Outcome ε α} : x.isOk = true ↔ ∃ a, x = .ok a := by
  cases x <;> simp [isOk]

theorem mapErr_eq_ok {ε' : Type} {f : ε → ε'} {x : Outcome ε α} {a : α} :
    x.mapErr f = .ok a ↔ x = .ok a := by
  cases x <;> simp [mapErr]

/-! ## Panics that do not happen -/

/-- The computation does not panic for this reason. -/
def Avoids (p : Panic) (x : Outcome ε α) : Prop := x ≠ .panic p

theorem avoids_ok (p : Panic) (a : α) : Avoids p (.ok a : Outcome ε α) := by
  simp [Avoids]

theorem avoids_err (p : Panic) (e : ε) : Avoids p (.err e : Outcome ε α) := by
  simp [Avoids]

/-- A sequence avoids what both of its parts avoid. -/
theorem Avoids.bind {p : Panic} {x : Outcome ε α} {f : α → Outcome ε β} (hx : Avoids p x)
    (hf : ∀ a, Avoids p (f a)) : Avoids p (x >>= f) := by
  cases x with
  | ok a => exact hf a
  | err e => exact avoids_err p e
  | panic q =>
    intro h
    cases h
    exact hx rfl

theorem Avoids.mapErr {ε' : Type} {p : Panic} {x : Outcome ε α} (hx : Avoids p x) {f : ε → ε'} :
    Avoids p (x.mapErr f) := by
  cases x with
  | ok a => exact avoids_ok p a
  | err e => exact avoids_err p (f e)
  | panic q =>
    intro h
    cases h
    exact hx rfl

/-- A sequence does not panic if its first part does not, and the second does not after it. -/
theorem bind_ne_panic {x : Outcome ε α} {f : α → Outcome ε β} :
    (∀ why, (x >>= f) ≠ .panic why) ↔
      (∀ why, x ≠ .panic why) ∧ ∀ a, x = .ok a → ∀ why, f a ≠ .panic why := by
  cases x <;> simp

theorem avoids_ofExcept (p : Panic) (x : Except ε α) : Avoids p (ofExcept x) := by
  cases x with
  | ok a => exact avoids_ok p a
  | error e => exact avoids_err p e

theorem avoids_ofSome {p : Panic} (hp : p ≠ .unwrapFailed) (x : Option α) :
    Avoids p (ofSome x : Outcome ε α) := by
  cases x with
  | some a => exact avoids_ok p a
  | none =>
    intro h
    cases h
    exact hp rfl

end Outcome

/-! ## Checked arithmetic -/

section Checked

variable {ε : Type}

/-- `a + b` in a `w`-bit unsigned word. -/
def checkedAdd (w a b : Nat) : Outcome ε Nat :=
  if a + b < 2 ^ w then .ok (a + b) else .panic .addOverflow

/-- `a - b` in an unsigned word. -/
def checkedSub (a b : Nat) : Outcome ε Nat :=
  if b ≤ a then .ok (a - b) else .panic .subOverflow

/-- `a * b` in a `w`-bit unsigned word. -/
def checkedMul (w a b : Nat) : Outcome ε Nat :=
  if a * b < 2 ^ w then .ok (a * b) else .panic .mulOverflow

/-- The sum of an iterator of `w`-bit words. -/
def checkedSum (w : Nat) (values : List Nat) : Outcome ε Nat := values.foldlM (checkedAdd w) 0

theorem checkedAdd_of_lt {w a b : Nat} (h : a + b < 2 ^ w) :
    (checkedAdd w a b : Outcome ε Nat) = .ok (a + b) := if_pos h

theorem checkedAdd_of_le {w a b : Nat} (h : 2 ^ w ≤ a + b) :
    (checkedAdd w a b : Outcome ε Nat) = .panic .addOverflow := if_neg (Nat.not_lt.mpr h)

theorem checkedSub_of_le {a b : Nat} (h : b ≤ a) :
    (checkedSub a b : Outcome ε Nat) = .ok (a - b) := if_pos h

theorem checkedSub_of_lt {a b : Nat} (h : a < b) :
    (checkedSub a b : Outcome ε Nat) = .panic .subOverflow := if_neg (Nat.not_le.mpr h)

theorem checkedMul_of_le {w a b : Nat} (h : 2 ^ w ≤ a * b) :
    (checkedMul w a b : Outcome ε Nat) = .panic .mulOverflow := if_neg (Nat.not_lt.mpr h)

theorem checkedMul_of_lt {w a b : Nat} (h : a * b < 2 ^ w) :
    (checkedMul w a b : Outcome ε Nat) = .ok (a * b) := if_pos h

/-- A sum is the mathematical sum where that fits its word; partial sums fit
then, too. -/
theorem checkedSum_eq (w : Nat) (values : List Nat) :
    (checkedSum w values : Outcome ε Nat) =
      if values.sum < 2 ^ w then .ok values.sum else .panic .addOverflow := by
  -- the induction is on the values left, from any sum that still fits
  have hgen : ∀ (vs : List Nat) (acc : Nat), acc < 2 ^ w →
      (vs.foldlM (checkedAdd w) acc : Outcome ε Nat) =
        if acc + vs.sum < 2 ^ w then .ok (acc + vs.sum) else .panic .addOverflow := by
    intro vs
    induction vs with
    | nil =>
      intro acc hacc
      simp [hacc]
    | cons v vs ih =>
      intro acc hacc
      rw [List.foldlM_cons, List.sum_cons, ← Nat.add_assoc]
      by_cases hv : acc + v < 2 ^ w
      · rw [checkedAdd_of_lt hv, Outcome.ok_bind, ih _ hv]
      · -- the sum of all values is larger still
        rw [checkedAdd_of_le (Nat.not_lt.mp hv), Outcome.panic_bind, if_neg (by omega)]
  have h := hgen values 0 (Nat.two_pow_pos w)
  rwa [Nat.zero_add] at h

end Checked

end Cashbox.Lib
