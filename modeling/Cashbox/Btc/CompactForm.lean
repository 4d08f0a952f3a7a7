import Mathlib.Data.Nat.Digits.Lemmas
import Cashbox.Btc.Retarget

/-!
# The compact form of a target

Bitcoin writes a target as up to three leading bytes and a number of bytes. The leading byte is
below 0x80, as the mantissa has a sign. `satoshi_the_precision` computes the target that is left
when the other bytes are dropped, but shifts by a number of bytes less three.
-/

namespace Cashbox.Btc

open Cashbox.Lib

/-! ## What the form denotes -/

/-- The bytes of a number without leading zeros. -/
def byteCount (n : Nat) : Nat := (Nat.digits 256 n).length

def topByte (n : Nat) : Nat := n / 256 ^ (byteCount n - 1)

/-- What Bitcoin's compact form of a number denotes. -/
def compactValue (n : Nat) : Nat :=
  if byteCount n ≤ 2 then n
  else if topByte n < 0x80 then dropDigits 256 (byteCount n - 3) n
  else dropDigits 256 (byteCount n - 2) n

/-- The rounded target is the one that Bitcoin's form denotes, and a header can carry it. -/
def RoundsAsBitcoin (n : Uint256) : Prop :=
  ∃ r, satoshiThePrecision n = .ok r ∧ r.toNat = compactValue n.toNat ∧
    ∃ bits : UInt32, ∀ header : BlockHeader, header.bits = bits → header.target = r

example : compactValue 0x1234 = 0x1234 ∧ compactValue 0x12345678 = 0x12345600 ∧
    compactValue 0x82345678 = 0x82340000 := by decide

/-! ## Bytes -/

theorem byteCount_le_iff {n k : Nat} : byteCount n ≤ k ↔ n < 256 ^ k := by
  unfold byteCount
  exact Nat.digits_length_le_iff (by norm_num) n

theorem byteCount_eq {n k : Nat} (hlow : 256 ^ k ≤ n) (hhigh : n < 256 ^ (k + 1)) :
    byteCount n = k + 1 := by
  apply Nat.le_antisymm
  · exact byteCount_le_iff.mpr hhigh
  · by_contra hlt
    exact absurd (byteCount_le_iff.mp (Nat.lt_succ_iff.mp (Nat.not_le.mp hlt))) hlow.not_gt

/-- The bytes that the shifts count are those of the number. -/
theorem byteCount_eq_bits {n : Uint256} (hn : 2 ^ 16 ≤ n.toNat) :
    byteCount n.toNat = (bits n + 7) / 8 := by
  obtain ⟨h3, hlow, hhigh⟩ := div_bytes hn
  obtain ⟨d, hd⟩ : ∃ d, (bits n + 7) / 8 = d + 3 := ⟨(bits n + 7) / 8 - 3, by omega⟩
  rw [hd, Nat.add_sub_cancel] at hlow hhigh
  rw [hd]
  apply byteCount_eq
  · rw [Nat.pow_add, Nat.mul_comm]
    exact (Nat.le_div_iff_mul_le (by positivity)).mp hlow
  · rw [show d + 2 + 1 = d + 3 from rfl, Nat.pow_add, Nat.mul_comm]
    exact (Nat.div_lt_iff_lt_mul (by positivity)).mp hhigh

/-- The highest of three bytes decides about the sign bit. -/
theorem topByte_lt_iff {n d : Nat} (hcount : byteCount n = d + 3) :
    topByte n < 0x80 ↔ n / 256 ^ d < 2 ^ 23 := by
  have htop : topByte n = n / 256 ^ d / 256 ^ 2 := by
    unfold topByte
    rw [hcount, Nat.div_div_eq_div_mul, ← Nat.pow_add]
    rfl
  rw [htop]
  omega

/-! ## The bits field -/

theorem toNat_bitsField {m e : Nat} (hm : m < 2 ^ 24) (he : e < 2 ^ 8) :
    (UInt32.ofNat (e * 2 ^ 24 + m)).toNat = e * 2 ^ 24 + m := by
  rw [UInt32.toNat_ofNat', Nat.mod_eq_of_lt]
  omega

/-- **Expressible targets**: a mantissa of 23 bits and an exponent of bytes make a bits field. -/
theorem target_of_bits {m e : Nat} (hm : m < 2 ^ 23) (he : e + 3 < 2 ^ 8) {header : BlockHeader}
    (hbits : header.bits = UInt32.ofNat ((e + 3) * 2 ^ 24 + m)) :
    header.target = BitVec.ofNat 256 m <<< (8 * e) := by
  have hfield : header.bits.toNat = (e + 3) * 2 ^ 24 + m := by
    rw [hbits]
    exact toNat_bitsField (by omega) he
  -- the exponent is the upper byte, the mantissa the rest
  have hexpt : (header.bits >>> 24).toNat = e + 3 := by
    rw [UInt32.toNat_shiftRight, hfield]
    show ((e + 3) * 2 ^ 24 + m) >>> 24 = e + 3
    rw [Nat.shiftRight_eq_div_pow]
    omega
  have hmant : (header.bits &&& 0xFFFFFF).toNat = m := by
    rw [UInt32.toNat_and, hfield]
    show ((e + 3) * 2 ^ 24 + m) &&& (2 ^ 24 - 1) = m
    rw [Nat.and_two_pow_sub_one_eq_mod]
    omega
  have hpositive : ¬ (header.bits &&& 0xFFFFFF) > 0x7FFFFF := by
    rw [gt_iff_lt, UInt32.lt_iff_toNat_lt, hmant]
    exact Nat.not_lt.mpr (Nat.le_of_lt_succ hm)
  unfold BlockHeader.target
  rcases Nat.eq_zero_or_pos e with rfl | hpos
  · -- three bytes are not shifted
    have hthree : header.bits >>> 24 = 3 := UInt32.toNat_inj.mp hexpt
    have hshift : (header.bits &&& 0xFFFFFF) >>> (8 * (3 - 3)) = header.bits &&& 0xFFFFFF := by
      rw [← UInt32.toNat_inj, UInt32.toNat_shiftRight]
      rfl
    have hle : (3 : UInt32) ≤ 3 := by decide
    simp only [hthree, if_pos hle, hshift, if_neg hpositive, hmant]
    rfl
  · have hmore : ¬ header.bits >>> 24 ≤ 3 := by
      rw [UInt32.le_iff_toNat_le, hexpt]
      exact Nat.not_le.mpr (Nat.lt_add_of_pos_left hpos)
    have hshift : ((8 : UInt32) * (header.bits >>> 24 - 3)).toNat = 8 * e := by
      have hthree : (3 : UInt32) ≤ header.bits >>> 24 := by
        rw [UInt32.le_iff_toNat_le, hexpt]
        exact Nat.le_add_left 3 e
      rw [UInt32.toNat_mul, UInt32.toNat_sub_of_le _ _ hthree, hexpt]
      show 8 * (e + 3 - 3) % 2 ^ 32 = 8 * e
      omega
    simp only [if_neg hmore, if_neg hpositive, hmant, hshift]

/-- A rounded target is carried by a header. -/
theorem exists_bits {m e : Nat} {r : Uint256} (hm : m < 2 ^ 23) (hpos : 0 < m)
    (hr : r.toNat = m * 256 ^ e) :
    ∃ bits : UInt32, ∀ header : BlockHeader, header.bits = bits → header.target = r := by
  have hfit : m * 256 ^ e < 2 ^ 256 := hr ▸ r.isLt
  have he : e < 32 := by
    by_contra hle
    have hpow : 256 ^ 32 ≤ 256 ^ e := Nat.pow_le_pow_right (by norm_num) (Nat.not_lt.mp hle)
    have hlow : 256 ^ e ≤ m * 256 ^ e := Nat.le_mul_of_pos_left _ hpos
    exact absurd hfit (Nat.not_lt.mpr (hpow.trans hlow))
  refine ⟨UInt32.ofNat ((e + 3) * 2 ^ 24 + m), fun header hbits => ?_⟩
  rw [target_of_bits hm (by omega) hbits]
  apply BitVec.eq_of_toNat_eq
  have hsmall : m < 2 ^ 256 := hm.trans (by norm_num)
  rw [BitVec.toNat_shiftLeft, BitVec.toNat_ofNat, hr, Nat.shiftLeft_eq, Nat.mod_eq_of_lt hsmall,
    Nat.pow_mul]
  exact Nat.mod_eq_of_lt hfit

/-! ## The rounding -/

/-- From three bytes on, the rounding is Bitcoin's. -/
theorem roundsAsBitcoin_of_le {n : Uint256} (hn : 2 ^ 16 ≤ n.toNat) : RoundsAsBitcoin n := by
  obtain ⟨r, hr, hval⟩ := satoshiThePrecision_eq hn
  obtain ⟨h3, hlow, hhigh⟩ := div_bytes hn
  obtain ⟨d, hd⟩ : ∃ d, (bits n + 7) / 8 = d + 3 := ⟨(bits n + 7) / 8 - 3, by omega⟩
  rw [hd, Nat.add_sub_cancel] at hval hlow hhigh
  have hcount : byteCount n.toNat = d + 3 := (byteCount_eq_bits hn).trans hd
  have hvalue : r.toNat = compactValue n.toNat := by
    unfold compactValue
    simp only [hval, topByte_lt_iff hcount, hcount]
    rfl
  refine ⟨r, hr, hvalue, ?_⟩
  by_cases hq : n.toNat / 256 ^ d < 2 ^ 23
  · rw [if_pos hq] at hval
    exact exists_bits hq (by omega) hval
  · -- the byte with the sign bit leaves two
    rw [if_neg hq] at hval
    have hmant : n.toNat / 256 ^ (d + 1) = n.toNat / 256 ^ d / 256 := by
      rw [Nat.pow_succ, Nat.div_div_eq_div_mul]
    exact exists_bits (by omega) (by omega) hval

/-- **Compact precision**: a target is rounded as Bitcoin rounds it exactly if it has three bytes
or more. -/
theorem roundsAsBitcoin_iff (n : Uint256) : RoundsAsBitcoin n ↔ 2 ^ 16 ≤ n.toNat := by
  constructor
  · rintro ⟨r, hr, -⟩
    by_contra hlt
    rw [satoshiThePrecision_of_lt (Nat.not_le.mp hlt)] at hr
    cases hr
  · exact roundsAsBitcoin_of_le

/-- For the target 1 the shift is computed below zero. -/
theorem not_roundsAsBitcoin_one : ¬ RoundsAsBitcoin 1 := by
  rintro ⟨r, hr, -⟩
  rw [satoshiThePrecision_of_lt (by decide)] at hr
  cases hr

end Cashbox.Btc
