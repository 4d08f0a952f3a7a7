import Mathlib.Order.Monotone.Basic
import Mathlib.Data.Nat.Find
import Mathlib.Tactic.Linarith

/-!
# Walks with growing strides

A walk marks the places that it comes to. Where no stride is longer than the way behind it,
every place has a mark within twice its distance.
-/

namespace Cashbox.Lib

/-- The place after `k` strides. -/
def mark (stride : Nat → Nat) : Nat → Nat
  | 0 => 0
  | k + 1 => mark stride k + stride k

variable {stride : Nat → Nat}

@[simp] theorem mark_zero : mark stride 0 = 0 := rfl

theorem mark_succ (k : Nat) : mark stride (k + 1) = mark stride k + stride k := rfl

theorem strictMono_mark (hpos : ∀ k, 0 < stride k) : StrictMono (mark stride) := by
  apply strictMono_nat_of_lt_succ
  intro k
  rw [mark_succ]
  exact Nat.lt_add_of_pos_right (hpos k)

/-- The marks before a place. -/
theorem exists_marks (hpos : ∀ k, 0 < stride k) (n : Nat) :
    ∃ k, n ≤ mark stride k ∧ ∀ j < k, mark stride j < n := by
  have hex : ∃ k, n ≤ mark stride k := ⟨n, (strictMono_mark hpos).id_le n⟩
  exact ⟨Nat.find hex, Nat.find_spec hex, fun j hj => Nat.not_le.mp (Nat.find_min hex hj)⟩

/-- **Coverage**: the first mark that is not before a place is within twice its distance. -/
theorem exists_mark_le_twice (hpos : ∀ k, 0 < stride k)
    (hstride : ∀ k, stride k ≤ mark stride k + 1) {d k : Nat} (hd : d ≤ mark stride k) :
    ∃ j ≤ k, d ≤ mark stride j ∧ mark stride j ≤ 2 * d := by
  obtain ⟨j, hj, hbefore⟩ := exists_marks hpos d
  refine ⟨j, ?_, hj, ?_⟩
  · by_contra hlt
    exact absurd hd (Nat.not_le.mpr (hbefore k (Nat.not_le.mp hlt)))
  · cases j with
    | zero => exact Nat.zero_le _
    | succ i =>
      have hi : mark stride i < d := hbefore i (Nat.lt_succ_self i)
      have hlong := hstride i
      rw [mark_succ]
      omega

end Cashbox.Lib
