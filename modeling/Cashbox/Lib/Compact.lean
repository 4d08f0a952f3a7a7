import Mathlib.Order.Bounds.Basic
import Mathlib.Algebra.Order.Ring.Nat

/-!
# Natural numbers in floating point

A number `a * b ^ e` with a mantissa `a` below `m` is expressible in base `b`. Dropping
low digits rounds a number down to an expressible one; it is the greatest expressible
number that is not above it, once dropping one digit less leaves a mantissa too large.
-/

namespace Cashbox.Lib

/-- The number has a mantissa below `m` in base `b`. -/
def Expressible (m b n : Nat) : Prop := ∃ a e, a < m ∧ n = a * b ^ e

/-- The number with its `e` low digits set to zero. -/
def dropDigits (b e n : Nat) : Nat := n / b ^ e * b ^ e

variable {m b e n x : Nat}

theorem dropDigits_le (b e n : Nat) : dropDigits b e n ≤ n := Nat.div_mul_le_self n (b ^ e)

/-- A number without low digits of its own stays below. -/
theorem le_dropDigits_of_dvd (hdvd : b ^ e ∣ x) (hx : x ≤ n) : x ≤ dropDigits b e n := by
  obtain ⟨a, rfl⟩ := hdvd
  unfold dropDigits
  rw [Nat.mul_comm (b ^ e) a] at hx ⊢
  rcases Nat.eq_zero_or_pos (b ^ e) with hz | hpos
  · simp [hz]
  · exact Nat.mul_le_mul_right _ ((Nat.le_div_iff_mul_le hpos).mpr hx)

theorem expressible_dropDigits (hfit : n / b ^ e < m) : Expressible m b (dropDigits b e n) :=
  ⟨n / b ^ e, e, hfit, rfl⟩

/-- A number with `e` digits dropped is dropped further by dividing its mantissa. -/
theorem dropDigits_succ (b e n : Nat) :
    dropDigits b (e + 1) n = n / b ^ e / b * b * b ^ e := by
  unfold dropDigits
  rw [Nat.div_div_eq_div_mul, Nat.pow_succ, Nat.mul_assoc, Nat.mul_comm b]

/-- **Rounding down**: the mantissa fits, and with one digit more it does not. -/
theorem isGreatest_dropDigits (hb : 0 < b) (hfit : n / b ^ e < m)
    (hlow : ∀ f, e = f + 1 → m * b ^ f ≤ dropDigits b e n) :
    IsGreatest {x | Expressible m b x ∧ x ≤ n} (dropDigits b e n) := by
  refine ⟨⟨expressible_dropDigits hfit, dropDigits_le b e n⟩, ?_⟩
  rintro x ⟨⟨a, f, ha, rfl⟩, hx⟩
  by_cases hef : e ≤ f
  · -- a larger exponent leaves no low digits
    exact le_dropDigits_of_dvd (Dvd.dvd.mul_left (Nat.pow_dvd_pow b hef) a) hx
  · -- a smaller one makes the number too small
    obtain ⟨d, hd⟩ : ∃ d, e = d + 1 := ⟨e - 1, by omega⟩
    calc a * b ^ f ≤ m * b ^ f := Nat.mul_le_mul_right _ ha.le
      _ ≤ m * b ^ d := Nat.mul_le_mul_left _ (Nat.pow_le_pow_right hb (by omega))
      _ ≤ dropDigits b e n := hlow d hd

end Cashbox.Lib
