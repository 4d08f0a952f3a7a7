import Mathlib.Data.List.Basic
import Mathlib.Order.MinMax
import Mathlib.Order.Nat

/-!
# A queue with a checkpoint

The list of everything ever written, a position to read from and a checkpoint to roll back
to, with the checkpoint never after the position. Nothing is ever forgotten, so an
implementation that drops what was committed is compared with this one by what it answers.
-/

namespace Cashbox.Lib

variable {α : Type}

structure Queue (α : Type) where
  items : List α
  pos : Nat
  checkpoint : Nat
  checkpoint_le : checkpoint ≤ pos
  pos_le : pos ≤ items.length

namespace Queue

def empty : Queue α := ⟨[], 0, 0, le_refl 0, le_refl 0⟩

/-! ## Operations -/

/-- What was not read. -/
def unread (q : Queue α) : List α := q.items.drop q.pos

/-- What was not committed, read or not. -/
def uncommitted (q : Queue α) : List α := q.items.drop q.checkpoint

def write (xs : List α) (q : Queue α) : Queue α where
  items := q.items ++ xs
  pos := q.pos
  checkpoint := q.checkpoint
  checkpoint_le := q.checkpoint_le
  pos_le := q.pos_le.trans (by simp)

/-- The position moves by `n` items, or to the end. -/
def advance (n : Nat) (q : Queue α) : Queue α where
  items := q.items
  pos := min (q.pos + n) q.items.length
  checkpoint := q.checkpoint
  checkpoint_le := le_min (q.checkpoint_le.trans (Nat.le_add_right _ _))
    (q.checkpoint_le.trans q.pos_le)
  pos_le := min_le_right _ _

def commit (q : Queue α) : Queue α where
  items := q.items
  pos := q.pos
  checkpoint := q.pos
  checkpoint_le := le_refl _
  pos_le := q.pos_le

def rollback (q : Queue α) : Queue α where
  items := q.items
  pos := q.checkpoint
  checkpoint := q.checkpoint
  checkpoint_le := le_refl _
  pos_le := q.checkpoint_le.trans q.pos_le

/-! ## What the operations leave -/

variable {q : Queue α}

@[simp] theorem unread_empty : (empty : Queue α).unread = [] := rfl

@[simp] theorem uncommitted_empty : (empty : Queue α).uncommitted = [] := rfl

@[simp] theorem unread_write (xs : List α) : (q.write xs).unread = q.unread ++ xs := by
  simp [unread, write, List.drop_append_of_le_length q.pos_le]

@[simp] theorem uncommitted_write (xs : List α) :
    (q.write xs).uncommitted = q.uncommitted ++ xs := by
  simp [uncommitted, write, List.drop_append_of_le_length (q.checkpoint_le.trans q.pos_le)]

@[simp] theorem unread_advance (n : Nat) : (q.advance n).unread = q.unread.drop n := by
  simp only [unread, advance, List.drop_drop]
  rcases le_total (q.pos + n) q.items.length with hle | hge
  · rw [min_eq_left hle]
  · -- the position stops at the end
    rw [min_eq_right hge, List.drop_length, List.drop_eq_nil_of_le hge]

@[simp] theorem uncommitted_advance (n : Nat) : (q.advance n).uncommitted = q.uncommitted := rfl

@[simp] theorem unread_commit : q.commit.unread = q.unread := rfl

@[simp] theorem uncommitted_commit : q.commit.uncommitted = q.unread := rfl

@[simp] theorem unread_rollback : q.rollback.unread = q.uncommitted := rfl

@[simp] theorem uncommitted_rollback : q.rollback.uncommitted = q.uncommitted := rfl

/-! ## The queue as a machine -/

inductive Op (α : Type) where
  | write (xs : List α)
  | read (n : Nat)
  | readAhead (n : Nat)
  | advance (n : Nat)
  | commit
  | rollback
  | len
  deriving DecidableEq, Repr

/-- What an operation answers. -/
inductive Answer (α : Type) where
  | done
  | count (n : Nat)
  | items (xs : List α)
  deriving DecidableEq, Repr

def exec (q : Queue α) : Op α → Queue α × Answer α
  | .write xs => (q.write xs, .count xs.length)
  | .read n => (q.advance n, .items (q.unread.take n))
  | .readAhead n => (q, .items (q.unread.take n))
  | .advance n => (q.advance n, .count n)
  | .commit => (q.commit, .done)
  | .rollback => (q.rollback, .done)
  | .len => (q, .count q.unread.length)

/-- No more is skipped than there is. -/
def Allowed (q : Queue α) : Op α → Prop
  | .advance n => n ≤ q.unread.length
  | _ => True

instance (q : Queue α) (op : Op α) : Decidable (q.Allowed op) := by
  cases op <;> unfold Allowed <;> infer_instance

end Queue

end Cashbox.Lib
