import Mathlib.Tactic.NormNum
import Mathlib.Tactic.Positivity
import Mathlib.Tactic.Ring
import Cashbox.Lib.Compact
import Cashbox.Btc.HeaderCache

/-!
# The target at a retarget height

Every 2016 headers the target is scaled by the time that they took. Bitcoin's rule is about
integers: the old target times the timespan, clamped to a factor of four, over two weeks, no
more than the maximum target and rounded down to what the compact form expresses. The code
computes it in words of 256 bits and shifts whole bytes.
-/

namespace Cashbox.Btc

open Cashbox.Lib

/-! ## Compact precision -/

/-- The number fits the compact form: a mantissa of 23 bits and an exponent of bytes. -/
def Compact (n : Nat) : Prop := Expressible (2 ^ 23) 256 n

theorem maxTarget_toNat : maxTarget.toNat = 0xFFFF * 256 ^ 26 := by decide

theorem compact_maxTarget : Compact maxTarget.toNat :=
  ⟨0xFFFF, 26, by norm_num, maxTarget_toNat⟩

theorem bits_of_pos {n : Uint256} (hn : 0 < n.toNat) :
    2 ^ (bits n - 1) ≤ n.toNat ∧ n.toNat < 2 ^ bits n ∧ 0 < bits n := by
  have hne : n ≠ 0 := by
    rintro rfl
    simp at hn
  simp only [bits, if_neg hne, Nat.add_sub_cancel]
  exact ⟨Nat.log2_self_le hn.ne', Nat.lt_log2_self, Nat.succ_pos _⟩

/-- The bytes of a number, beyond the three of the mantissa, leave its three highest. -/
theorem div_bytes {n : Uint256} (hn : 2 ^ 16 ≤ n.toNat) :
    3 ≤ (bits n + 7) / 8 ∧ 2 ^ 16 ≤ n.toNat / 256 ^ ((bits n + 7) / 8 - 3) ∧
      n.toNat / 256 ^ ((bits n + 7) / 8 - 3) < 2 ^ 24 := by
  obtain ⟨hlow, hhigh, hpos⟩ := bits_of_pos (by omega : 0 < n.toNat)
  have hbits : 16 < bits n := by
    by_contra hle
    have hpow : 2 ^ bits n ≤ 2 ^ 16 := Nat.pow_le_pow_right (by norm_num) (by omega)
    omega
  have h3 : 3 ≤ (bits n + 7) / 8 := by omega
  obtain ⟨e, he⟩ : ∃ e, (bits n + 7) / 8 = e + 3 := ⟨(bits n + 7) / 8 - 3, by omega⟩
  have hunit : 256 ^ e = 2 ^ (8 * e) := by rw [Nat.pow_mul]
  refine ⟨h3, ?_, ?_⟩
  · rw [he, Nat.add_sub_cancel, Nat.le_div_iff_mul_le (by positivity), hunit, ← Nat.pow_add]
    exact (Nat.pow_le_pow_right (by norm_num) (by omega)).trans hlow
  · rw [he, Nat.add_sub_cancel, Nat.div_lt_iff_lt_mul (by positivity), hunit, ← Nat.pow_add]
    exact hhigh.trans_le (Nat.pow_le_pow_right (by norm_num) (by omega))

/-- The number that the shifts leave: one more byte is dropped when the mantissa would have
its sign bit set. -/
theorem satoshiThePrecision_eq {n : Uint256} (hn : 2 ^ 16 ≤ n.toNat) :
    ∃ r, satoshiThePrecision n = .ok r ∧
      r.toNat = if n.toNat / 256 ^ ((bits n + 7) / 8 - 3) < 2 ^ 23
        then dropDigits 256 ((bits n + 7) / 8 - 3) n.toNat
        else dropDigits 256 ((bits n + 7) / 8 - 3 + 1) n.toNat := by
  obtain ⟨h3, hlow, hhigh⟩ := div_bytes hn
  generalize hd : (bits n + 7) / 8 - 3 = d at hlow hhigh ⊢
  have hunit : 2 ^ (8 * d) = 256 ^ d := by rw [Nat.pow_mul]
  have hshift : (n >>> (8 * d)).toNat = n.toNat / 256 ^ d := by
    rw [BitVec.toNat_ushiftRight, Nat.shiftRight_eq_div_pow, hunit]
  have hbit : (n >>> (8 * d)).getLsbD 23 = true ↔ ¬ n.toNat / 256 ^ d < 2 ^ 23 := by
    rw [BitVec.getLsbD, hshift, Nat.testBit_eq_decide_div_mod_eq, decide_eq_true_iff]
    omega
  have hback : ∀ q : Uint256, q.toNat * 256 ^ d ≤ n.toNat →
      (q <<< (8 * d)).toNat = q.toNat * 256 ^ d := by
    intro q hq
    rw [BitVec.toNat_shiftLeft, Nat.shiftLeft_eq, hunit, Nat.mod_eq_of_lt]
    exact hq.trans_lt n.isLt
  unfold satoshiThePrecision
  rw [checkedSub_of_le h3, hd, Outcome.ok_bind]
  refine ⟨_, rfl, ?_⟩
  by_cases hq : n.toNat / 256 ^ d < 2 ^ 23
  · -- the mantissa is kept as it is
    have hclear : (n >>> (8 * d)).getLsbD 23 ≠ true := fun hset => hbit.mp hset hq
    simp only [if_neg hclear, if_pos hq]
    rw [hback _ (hshift ▸ Nat.div_mul_le_self _ _), hshift, dropDigits]
  · -- the sign bit is set, and the mantissa loses its lowest byte
    have hset : (n >>> (8 * d)).getLsbD 23 = true := hbit.mpr hq
    have hmant : ((n >>> (8 * d) >>> 8) <<< 8).toNat = n.toNat / 256 ^ d / 256 * 256 := by
      rw [BitVec.toNat_shiftLeft, BitVec.toNat_ushiftRight, hshift, Nat.shiftLeft_eq,
        Nat.shiftRight_eq_div_pow]
      omega
    simp only [if_pos hset, if_neg hq]
    rw [hback, hmant, dropDigits_succ]
    · rw [hmant, ← dropDigits_succ]
      exact dropDigits_le _ _ _

/-- **Compact precision**: from three bytes on, the result is the greatest number of the
compact form that is not above. -/
theorem satoshiThePrecision_of_le {n : Uint256} (hn : 2 ^ 16 ≤ n.toNat) :
    ∃ r, satoshiThePrecision n = .ok r ∧
      IsGreatest {x | Compact x ∧ x ≤ n.toNat} r.toNat := by
  obtain ⟨r, hr, hval⟩ := satoshiThePrecision_eq hn
  obtain ⟨_, hlow, hhigh⟩ := div_bytes hn
  generalize (bits n + 7) / 8 - 3 = d at hval hlow hhigh
  refine ⟨r, hr, ?_⟩
  rw [hval]
  split_ifs with hq
  · apply isGreatest_dropDigits (by norm_num) hq
    rintro f rfl
    -- the mantissa has a third byte
    calc 2 ^ 23 * 256 ^ f ≤ 2 ^ 16 * 256 * 256 ^ f := Nat.mul_le_mul_right _ (by norm_num)
      _ = 2 ^ 16 * 256 ^ (f + 1) := by ring
      _ ≤ dropDigits 256 (f + 1) n.toNat := Nat.mul_le_mul_right _ hlow
  · apply isGreatest_dropDigits (by norm_num)
    · rw [Nat.pow_succ, ← Nat.div_div_eq_div_mul]
      omega
    · intro f hf
      obtain rfl : d = f := by omega
      rw [dropDigits_succ]
      exact Nat.mul_le_mul_right _ (by omega)

/-- Below three bytes the shift is computed below zero. -/
theorem satoshiThePrecision_of_lt {n : Uint256} (hn : n.toNat < 2 ^ 16) :
    satoshiThePrecision n = .panic .subOverflow := by
  have hbits : bits n ≤ 16 := by
    unfold bits
    split_ifs with h0
    · omega
    · have hne : n.toNat ≠ 0 := fun h => h0 (BitVec.eq_of_toNat_eq (by simpa using h))
      have hlog : Nat.log2 n.toNat < 16 := (Nat.log2_lt hne).mpr hn
      omega
  unfold satoshiThePrecision
  rw [checkedSub_of_lt (by omega), Outcome.panic_bind]

/-! ## Bitcoin's rule -/

namespace HeaderCache

/-- The timespan, which may be negative, within a factor of four of two weeks. -/
def clamped (timespan : Int) : Nat :=
  (max (diffchangeTimespan / 4 : Int) (min timespan (diffchangeTimespan * 4))).toNat

/-- The target that follows `old` after a retarget period of this timespan: scaled, capped
and rounded down to compact precision. -/
def IsRetarget (old : Nat) (timespan : Int) (new : Nat) : Prop :=
  IsGreatest {x | Compact x ∧
    x ≤ min (old * clamped timespan / diffchangeTimespan) maxTarget.toNat} new

/-- The product of target and timespan is computed in range: it fits its word and is not
too small for the shifts, or what is left of it is still above the maximum target. -/
def InRange (old timespan : Nat) : Prop :=
  old * timespan < 2 ^ 256 ∧ 2 ^ 16 * diffchangeTimespan ≤ old * timespan ∨
    2 ^ 256 ≤ old * timespan ∧
      maxTarget.toNat * diffchangeTimespan ≤ old * timespan % 2 ^ 256

instance (old timespan : Nat) : Decidable (InRange old timespan) := by
  unfold InRange
  infer_instance

theorem clampTimespan_le (n : Nat) : clampTimespan n ≤ diffchangeTimespan * 4 := by
  unfold clampTimespan
  split_ifs <;> simp only [diffchangeTimespan] at * <;> omega

theorem clamped_eq {a b : Nat} (h : b ≤ a) : clamped (a - b) = clampTimespan (a - b) := by
  unfold clamped clampTimespan
  split_ifs <;> simp only [diffchangeTimespan] at * <;> omega

/-- The scaled target in words, before the cap. -/
theorem scaled_toNat (old : Uint256) {timespan : Nat} (hle : timespan ≤ diffchangeTimespan * 4) :
    (old * BitVec.ofNat 256 timespan / BitVec.ofNat 256 diffchangeTimespan).toNat =
      old.toNat * timespan % 2 ^ 256 / diffchangeTimespan := by
  have hspan : timespan < 2 ^ 256 := by
    simp only [diffchangeTimespan] at hle
    omega
  rw [BitVec.toNat_udiv, BitVec.toNat_mul, BitVec.toNat_ofNat, BitVec.toNat_ofNat,
    Nat.mod_eq_of_lt hspan]
  rfl

/-- The cap, in numbers. -/
theorem capped_toNat (n : Uint256) :
    (if maxTarget < n then maxTarget else n).toNat = min n.toNat maxTarget.toNat := by
  split_ifs with h
  · exact (min_eq_right (BitVec.lt_def.mp h).le).symm
  · exact (min_eq_left (not_lt.mp fun hlt => h (BitVec.lt_def.mpr hlt))).symm

/-- Rounding returns the rule's target exactly where the number has three bytes. -/
theorem satoshiThePrecision_iff (n : Uint256) :
    (∃ new, satoshiThePrecision n = .ok new ∧ IsGreatest {x | Compact x ∧ x ≤ n.toNat} new.toNat) ↔
      2 ^ 16 ≤ n.toNat := by
  constructor
  · rintro ⟨new, hnew, _⟩
    by_contra hlt
    rw [satoshiThePrecision_of_lt (by omega)] at hnew
    cases hnew
  · exact satoshiThePrecision_of_le

/-- A number below the maximum target is not rounded up to it. -/
theorem not_isGreatest_of_lt {n new : Uint256} (hlt : n.toNat < maxTarget.toNat)
    (hnew : satoshiThePrecision n = .ok new) :
    ¬ IsGreatest {x | Compact x ∧ x ≤ maxTarget.toNat} new.toNat := by
  intro hgreatest
  have habove : maxTarget.toNat ≤ new.toNat := hgreatest.2 ⟨compact_maxTarget, le_refl _⟩
  have hn : 2 ^ 16 ≤ n.toNat := by
    by_contra hsmall
    rw [satoshiThePrecision_of_lt (by omega)] at hnew
    cases hnew
  obtain ⟨r, hr, hle⟩ := satoshiThePrecision_of_le hn
  cases hnew.symm.trans hr
  exact absurd (hle.1.2.trans_lt hlt) (not_lt.mpr habove)

/-- **The retarget computation**: it is Bitcoin's rule exactly where it is in range. -/
theorem retarget_iff (old : Uint256) {timespan : Nat} (hle : timespan ≤ diffchangeTimespan * 4) :
    (∃ new, retarget old timespan = .ok new ∧ IsGreatest {x | Compact x ∧
        x ≤ min (old.toNat * timespan / diffchangeTimespan) maxTarget.toNat} new.toNat) ↔
      InRange old.toNat timespan := by
  have hmax : 2 ^ 16 ≤ maxTarget.toNat := by decide
  have htop : maxTarget.toNat ≤ 2 ^ 256 / diffchangeTimespan := by decide
  obtain ⟨n, hret, hn⟩ : ∃ n, retarget old timespan = satoshiThePrecision n ∧
      n.toNat = min (old.toNat * timespan % 2 ^ 256 / diffchangeTimespan) maxTarget.toNat :=
    ⟨_, rfl, by rw [capped_toNat, scaled_toNat old hle]⟩
  rw [hret]
  unfold InRange
  generalize old.toNat * timespan = p at hn ⊢
  by_cases hp : p < 2 ^ 256
  · -- nothing is lost: the number rounded is that of the rule
    rw [Nat.mod_eq_of_lt hp] at hn
    rw [← hn, satoshiThePrecision_iff, hn, le_min_iff, and_iff_left hmax,
      Nat.le_div_iff_mul_le (by decide)]
    exact ⟨fun h => .inl ⟨hp, h⟩, fun h => h.elim And.right fun h => absurd hp (not_lt.mpr h.1)⟩
  · -- the rule asks for the maximum target
    have hrule : min (p / diffchangeTimespan) maxTarget.toNat = maxTarget.toNat :=
      min_eq_right (htop.trans (Nat.div_le_div_right (not_lt.mp hp)))
    rw [hrule]
    -- modulo 2 ^ 256 the product may still be above the cap
    by_cases hleft : maxTarget.toNat * diffchangeTimespan ≤ p % 2 ^ 256
    · have hcap : n.toNat = maxTarget.toNat := by
        rw [hn]
        exact min_eq_right ((Nat.le_div_iff_mul_le (by decide)).mpr hleft)
      refine iff_of_true ?_ (.inr ⟨not_lt.mp hp, hleft⟩)
      rw [← hcap]
      exact satoshiThePrecision_of_le (hcap ▸ hmax)
    · have hlt : n.toNat < maxTarget.toNat := by
        rw [hn]
        apply (min_le_left _ _).trans_lt
        exact (Nat.div_lt_iff_lt_mul (by decide)).mpr (not_le.mp hleft)
      refine iff_of_false ?_ ?_
      · rintro ⟨new, hnew, hgreatest⟩
        exact not_isGreatest_of_lt hlt hnew hgreatest
      · rintro (⟨hlt', _⟩ | ⟨_, hleft'⟩)
        · exact hp hlt'
        · exact hleft hleft'

end HeaderCache

end Cashbox.Btc
