import Mathlib.Data.List.TakeWhile
import Cashbox.Eth.Numerals

/-!
# Amounts of a token

An amount that is entered as a decimal numeral should become the number of smallest units that it
is worth, and nothing else should become a number. The conversion returns as soon as the part
before the point is read, and takes what is no number for zero.
-/

namespace Cashbox.Eth

open Cashbox.Lib

/-! ## Decimal numerals -/

/-- The number of a text of digits. -/
def number (digits : Text) : Nat := Nat.ofDigitChars 10 digits 0

/-- The text is a decimal numeral, worth `m / 10 ^ k`. -/
def Denotes (value : Text) (m k : Nat) : Prop :=
  ∃ whole fraction : Text, whole.all Char.isDigit = true ∧ fraction.all Char.isDigit = true ∧
    whole ++ fraction ≠ [] ∧
    ((value = whole ∧ fraction = []) ∨ value = whole ++ '.' :: fraction) ∧
    m = number (whole ++ fraction) ∧ k = fraction.length

/-- Exactly the numerals become numbers, each the whole number of units that it is worth, if that
has 256 bits; from everything else nothing comes back. -/
def Scales {ε : Type} (value : Text) (decimal : Nat) (result : Outcome ε (Option U256)) : Prop :=
  ∃ converted, result = .ok converted ∧ ∀ v : U256, converted = some v ↔
    ∃ m k, Denotes value m k ∧ v.toNat = m * 10 ^ decimal / 10 ^ k

/-- The condition on a text that has no point, and on one with its parts before and after the
first. -/
def Converts (value : Text) (decimal : Nat) : Prop :=
  let whole := value.takeWhile (· ≠ '.')
  match value.dropWhile (· ≠ '.') with
  | [] => whole ≠ [] ∧ whole.all Char.isDigit = true ∧ number whole < 2 ^ 256
  | _ :: fraction =>
    if whole.all Char.isDigit = true ∧ number whole < 2 ^ 256 then
      -- too much already, or the part after the point is worth less than a unit
      2 ^ 256 ≤ number whole * 10 ^ decimal ∨
        fraction.all Char.isDigit = true ∧ whole ++ fraction ≠ [] ∧
          number fraction * 10 ^ decimal < 10 ^ fraction.length
    -- the part before the point is taken for zero
    else (fraction.take decimal).all Char.isDigit = false

/-! ## Digits -/

theorem isDigit_iff (c : Char) : c.isDigit = true ↔ 48 ≤ c.toNat ∧ c.toNat ≤ 57 := by
  simp [Char.isDigit, UInt32.le_iff_toNat_le]

theorem utf8EncodeChar_of_isDigit {c : Char} (h : c.isDigit = true) :
    String.utf8EncodeChar c = [UInt8.ofNat c.toNat] := by
  obtain ⟨_, hle⟩ := (isDigit_iff c).mp h
  unfold String.utf8EncodeChar
  exact if_pos (show c.toNat ≤ 0x7f by omega)

/-- The bytes of a character are digits exactly if it is one. -/
theorem all_utf8EncodeChar (c : Char) :
    ((String.utf8EncodeChar c).all fun b => 48 ≤ b ∧ b ≤ 57) = c.isDigit := by
  rw [Bool.eq_iff_iff, isDigit_iff]
  by_cases hascii : c.toNat ≤ 0x7f
  · have hbyte : (UInt8.ofNat c.toNat).toNat = c.toNat := by
      rw [UInt8.toNat_ofNat']
      exact Nat.mod_eq_of_lt (by omega)
    rw [show String.utf8EncodeChar c = [UInt8.ofNat c.toNat] from if_pos hascii]
    simp [UInt8.le_iff_toNat_le, hbyte]
  · -- a longer encoding begins with a byte that is no digit
    have hlead : ∃ n rest, 192 ≤ n ∧ n < 256 ∧ String.utf8EncodeChar c = UInt8.ofNat n :: rest := by
      unfold String.utf8EncodeChar
      dsimp only
      rw [Char.toNat_val, if_neg hascii]
      split
      · exact ⟨_, _, Nat.le_add_left .., by omega, rfl⟩
      · split
        · exact ⟨_, _, by omega, by omega, rfl⟩
        · exact ⟨_, _, by omega, by omega, rfl⟩
    obtain ⟨n, rest, hle, hlt, heq⟩ := hlead
    have hbyte : (UInt8.ofNat n).toNat = n := by
      rw [UInt8.toNat_ofNat']
      exact Nat.mod_eq_of_lt hlt
    have hfirst : ¬ UInt8.ofNat n ≤ 57 := by
      rw [UInt8.le_iff_toNat_le, hbyte]
      exact fun h => by simp at h; omega
    rw [heq]
    simp [hfirst]
    omega

theorem all_asBytes (s : Text) :
    (s.asBytes.all fun b => 48 ≤ b ∧ b ≤ 57) = s.all Char.isDigit := by
  unfold Text.asBytes
  rw [List.all_flatMap]
  exact congrArg s.all (funext all_utf8EncodeChar)

theorem byteLen_of_digits {s : Text} (h : s.all Char.isDigit = true) : s.byteLen = s.length := by
  induction s with
  | nil => rfl
  | cons c s ih =>
    rw [List.all_cons, Bool.and_eq_true] at h
    have hc : c.utf8Size = 1 := by
      rw [← String.length_utf8EncodeChar, utf8EncodeChar_of_isDigit h.1]
      rfl
    rw [Text.byteLen_cons, hc, ih h.2, List.length_cons, Nat.add_comm]

theorem number_append (a b : Text) : number (a ++ b) = 10 ^ b.length * number a + number b := by
  unfold number
  rw [Nat.ofDigitChars_append, Nat.ofDigitChars_eq_ofDigitChars_zero]

theorem number_lt {s : Text} (h : s.all Char.isDigit = true) : number s < 10 ^ s.length := by
  induction s using List.reverseRecOn with
  | nil => exact Nat.one_pos
  | append_singleton s c ih =>
    rw [List.all_append, Bool.and_eq_true] at h
    have hc : number [c] < 10 := by
      have hle := ((isDigit_iff c).mp (by simpa using h.2)).2
      simp only [number, Nat.ofDigitChars_cons, Nat.ofDigitChars_nil]
      simp
      omega
    have hs := ih h.1
    rw [number_append, List.length_append, List.length_singleton, Nat.pow_succ]
    omega

/-- The digits are read while the number has 256 bits. -/
theorem decDigits_eq {s : Text} (h : s.all Char.isDigit = true) {n : Nat} (hn : n < 2 ^ 256) :
    decDigits s.asBytes n =
      if Nat.ofDigitChars 10 s n < 2 ^ 256 then .ok (BitVec.ofNat 256 (Nat.ofDigitChars 10 s n))
      else .err .invalidLength := by
  induction s generalizing n with
  | nil =>
    rw [Nat.ofDigitChars_nil, if_pos hn]
    rfl
  | cons c s ih =>
    rw [List.all_cons, Bool.and_eq_true] at h
    obtain ⟨hle, hle'⟩ := (isDigit_iff c).mp h.1
    have hdigit : (UInt8.ofNat c.toNat - 48).toNat = c.toNat - 48 := by
      rw [UInt8.toNat_sub_of_le]
      · rw [UInt8.toNat_ofNat', Nat.mod_eq_of_lt (by omega)]
        rfl
      · rw [UInt8.le_iff_toNat_le, UInt8.toNat_ofNat', Nat.mod_eq_of_lt (by omega)]
        exact hle
    have hbytes : Text.asBytes (c :: s) = UInt8.ofNat c.toNat :: Text.asBytes s := by
      unfold Text.asBytes
      rw [List.flatMap_cons, utf8EncodeChar_of_isDigit h.1]
      rfl
    have hnumber : Nat.ofDigitChars 10 (c :: s) n =
        Nat.ofDigitChars 10 s (n * 10 + (c.toNat - 48)) := by
      rw [Nat.ofDigitChars_cons, Nat.mul_comm]
      rfl
    rw [hbytes, hnumber]
    unfold decDigits
    rw [hdigit]
    split
    · rename_i hlt
      exact ih h.2 hlt
    · rename_i hlarge
      -- the number only grows with the digits that follow
      have hgrows : n * 10 + (c.toNat - 48) ≤ Nat.ofDigitChars 10 s (n * 10 + (c.toNat - 48)) := by
        rw [Nat.ofDigitChars_eq_ofDigitChars_zero]
        exact (Nat.le_mul_of_pos_left _ (Nat.pow_pos (by omega))).trans (Nat.le_add_right ..)
      rw [if_neg (by omega)]

/-- A text is read as a number if it has digits only and the number has 256 bits. -/
theorem okValue_fromDecStr (s : Text) : okValue (fromDecStr s) =
    if s.all Char.isDigit = true ∧ number s < 2 ^ 256 then some (BitVec.ofNat 256 (number s))
    else none := by
  unfold fromDecStr
  rw [all_asBytes]
  by_cases hdigits : s.all Char.isDigit = true
  · rw [if_pos hdigits, decDigits_eq hdigits (by decide)]
    unfold number
    by_cases hlt : Nat.ofDigitChars 10 s 0 < 2 ^ 256
    · rw [if_pos hlt, if_pos ⟨hdigits, hlt⟩]
      rfl
    · rw [if_neg hlt, if_neg fun h => hlt h.2]
      rfl
  · rw [if_neg hdigits, if_neg fun h => hdigits h.1]
    rfl

theorem exp10_of_le {ε : Type} {n : Nat} (h : n ≤ 77) :
    (exp10 n : Outcome ε U256) = .ok (BitVec.ofNat 256 (10 ^ n)) := if_pos h

theorem pow_lt_of_le {n : Nat} (h : n ≤ 77) : 10 ^ n < 2 ^ 256 :=
  (Nat.pow_le_pow_right (by decide) h).trans_lt (by decide)

theorem scaled_eq {ε : Type} {n decimal : Nat} (hn : n < 2 ^ 256) (h : decimal ≤ 77) :
    (scaled (BitVec.ofNat 256 n) decimal : Outcome ε (Option U256)) =
      .ok (if n * 10 ^ decimal < 2 ^ 256 then some (BitVec.ofNat 256 (n * 10 ^ decimal))
        else none) := by
  unfold scaled
  rw [exp10_of_le h]
  show Outcome.ok (u256CheckedMul _ _) = _
  unfold u256CheckedMul
  rw [BitVec.toNat_ofNat, BitVec.toNat_ofNat, Nat.mod_eq_of_lt hn,
    Nat.mod_eq_of_lt (pow_lt_of_le h), ← BitVec.ofNat_mul]

/-! ## The part after the point -/

theorem decimalPart_append (whole fraction : Text) (decimal : Nat) :
    decimalPart (whole ++ '.' :: fraction) whole.byteLen decimal =
      Text.takeBytes (if fraction.byteLen + 1 ≤ decimal then fraction.byteLen else decimal)
        fraction := by
  have hpoint : Text.byteLen (whole ++ ['.']) = whole.byteLen + 1 := by
    rw [Text.byteLen_append]
    rfl
  have hvalue : whole ++ '.' :: fraction = (whole ++ ['.']) ++ fraction := by simp
  have hlength : Text.byteLen (whole ++ '.' :: fraction) - whole.byteLen =
      fraction.byteLen + 1 := by
    rw [hvalue, Text.byteLen_append, hpoint]
    omega
  unfold decimalPart
  rw [hlength]
  by_cases hshort : fraction.byteLen + 1 ≤ decimal
  · rw [if_pos hshort, if_pos hshort, hvalue, Text.byteLen_append, ← hpoint]
    exact Text.get_append ..
  · rw [if_neg hshort, if_neg hshort, hvalue, ← hpoint]
    exact Text.get_append ..

/-- Where the first digits after the point are digits, they are the part that is read. -/
theorem decimalPart_of_digits {whole fraction : Text} {decimal : Nat}
    (h : (fraction.take decimal).all Char.isDigit = true) :
    decimalPart (whole ++ '.' :: fraction) whole.byteLen decimal =
      some (fraction.take decimal) := by
  rw [decimalPart_append]
  by_cases hshort : fraction.byteLen + 1 ≤ decimal
  · have hlength := Text.length_le_byteLen fraction
    rw [if_pos hshort, List.take_of_length_le (by omega)]
    simpa using Text.takeBytes_append fraction []
  · have hbytes := byteLen_of_digits h
    have hlong : decimal ≤ fraction.length := by
      by_contra hless
      rw [List.take_of_length_le (by omega)] at hbytes
      omega
    rw [List.length_take, Nat.min_eq_left hlong] at hbytes
    have htake := Text.takeBytes_append (fraction.take decimal) (fraction.drop decimal)
    rw [List.take_append_drop, hbytes] at htake
    rw [if_neg hshort]
    exact htake

theorem decimalPart_of_not_digits {whole fraction part : Text} {decimal : Nat}
    (h : (fraction.take decimal).all Char.isDigit = false)
    (hpart : decimalPart (whole ++ '.' :: fraction) whole.byteLen decimal = some part) :
    part.all Char.isDigit = false := by
  rw [decimalPart_append] at hpart
  obtain ⟨hbytes, rest, hfraction⟩ := Text.eq_append_of_takeBytes hpart
  rw [Bool.eq_false_iff]
  intro hdigits
  have hlength : part.length = part.byteLen := (byteLen_of_digits hdigits).symm
  have htake : fraction.take decimal = part := by
    by_cases hshort : fraction.byteLen + 1 ≤ decimal
    · -- the part is everything after the point
      rw [if_pos hshort, hfraction, Text.byteLen_append] at hbytes
      have hrest : rest = [] := by
        have hle := Text.length_le_byteLen rest
        exact List.length_eq_zero_iff.mp (by omega)
      have hle := Text.length_le_byteLen fraction
      rw [List.take_of_length_le (by omega), hfraction, hrest, List.append_nil]
    · rw [if_neg hshort] at hbytes
      rw [hfraction, ← hbytes, ← hlength, List.take_left]
  rw [htake, hdigits] at h
  cases h

section Conversion

variable {ε : Type} {value whole fraction : Text} {decimal : Nat}

/-- Digits after the point are returned for a part before it that is no number. -/
theorem convertDecimalPart_of_digits (hdecimal : decimal ≤ 77)
    (h : (fraction.take decimal).all Char.isDigit = true) :
    ∃ n < 2 ^ 256, (convertDecimalPart (whole ++ '.' :: fraction) whole.byteLen decimal :
      Outcome ε (Option U256)) = .ok (some (BitVec.ofNat 256 n)) := by
  have hlength : (fraction.take decimal).length ≤ decimal := List.length_take_le ..
  have hlt := number_lt h
  have hpow := pow_lt_of_le hdecimal
  have hsmall : number (fraction.take decimal) < 2 ^ 256 :=
    (hlt.trans_le (Nat.pow_le_pow_right (by decide) hlength)).trans hpow
  have hscaled : number (fraction.take decimal) *
      10 ^ (decimal - (fraction.take decimal).length) < 2 ^ 256 := by
    refine lt_trans ?_ hpow
    calc number (fraction.take decimal) * 10 ^ (decimal - (fraction.take decimal).length)
        < 10 ^ (fraction.take decimal).length * 10 ^ (decimal - (fraction.take decimal).length) :=
          Nat.mul_lt_mul_of_pos_right hlt (Nat.pow_pos (by decide))
      _ = 10 ^ decimal := by rw [← Nat.pow_add, Nat.add_sub_cancel' hlength]
  refine ⟨_, hscaled, ?_⟩
  unfold convertDecimalPart
  rw [decimalPart_of_digits h]
  dsimp only
  rw [okValue_fromDecStr, if_pos ⟨h, hsmall⟩, byteLen_of_digits h]
  dsimp only
  rw [checkedSub_of_le hlength]
  exact (scaled_eq hsmall (by omega)).trans (congrArg Outcome.ok (if_pos hscaled))

theorem convertDecimalPart_of_not_digits (h : (fraction.take decimal).all Char.isDigit = false) :
    (convertDecimalPart (whole ++ '.' :: fraction) whole.byteLen decimal :
      Outcome ε (Option U256)) = .ok none := by
  unfold convertDecimalPart
  cases hpart : decimalPart (whole ++ '.' :: fraction) whole.byteLen decimal with
  | none => rfl
  | some part =>
    have hdigits := decimalPart_of_not_digits h hpart
    dsimp only
    rw [okValue_fromDecStr, if_neg (by simp [hdigits])]

/-! ## What a text denotes -/

theorem not_mem_of_digits {s : Text} (h : s.all Char.isDigit = true) : '.' ∉ s := fun hmem =>
  absurd (List.all_eq_true.mp h _ hmem) (by decide)

theorem denotes_of_not_mem (h : '.' ∉ value) (m k : Nat) : Denotes value m k ↔
    (value.all Char.isDigit = true ∧ value ≠ []) ∧ m = number value ∧ k = 0 := by
  constructor
  · rintro ⟨whole, fraction, hwhole, _, hne, hvalue, rfl, rfl⟩
    rcases hvalue with ⟨rfl, rfl⟩ | rfl
    · rw [List.append_nil] at hne ⊢
      exact ⟨⟨hwhole, hne⟩, rfl, rfl⟩
    · exact absurd (by simp) h
  · rintro ⟨⟨hdigits, hne⟩, rfl, rfl⟩
    exact ⟨value, [], hdigits, rfl, by simpa using hne, .inl ⟨rfl, rfl⟩, by simp, rfl⟩

theorem denotes_append (h : '.' ∉ whole) (m k : Nat) : Denotes (whole ++ '.' :: fraction) m k ↔
    (whole.all Char.isDigit = true ∧ fraction.all Char.isDigit = true ∧ whole ++ fraction ≠ []) ∧
      m = number (whole ++ fraction) ∧ k = fraction.length := by
  constructor
  · rintro ⟨whole', fraction', hwhole, hfraction, hne, hvalue, rfl, rfl⟩
    rcases hvalue with ⟨heq, rfl⟩ | heq
    · exact absurd (heq ▸ by simp) (not_mem_of_digits hwhole)
    · -- the first point is the same
      have hsame : whole' = whole ∧ fraction' = fraction := by
        have hnot := not_mem_of_digits hwhole
        have htake := congrArg (List.takeWhile (· ≠ '.')) heq
        have hdrop := congrArg (List.dropWhile (· ≠ '.')) heq
        rw [Text.takeWhile_append_cons h, Text.takeWhile_append_cons hnot] at htake
        rw [Text.dropWhile_append_cons h, Text.dropWhile_append_cons hnot] at hdrop
        exact ⟨htake.symm, (List.cons.inj hdrop).2.symm⟩
      obtain ⟨rfl, rfl⟩ := hsame
      exact ⟨⟨hwhole, hfraction, hne⟩, rfl, rfl⟩
  · rintro ⟨⟨hwhole, hfraction, hne⟩, rfl, rfl⟩
    exact ⟨whole, fraction, hwhole, hfraction, hne, .inr rfl, rfl, rfl⟩

/-- Nothing comes back exactly where there is no numeral, or one that is worth too much. -/
theorem scales_none_iff {P : Prop} {M K : Nat}
    (h : ∀ m k, Denotes value m k ↔ P ∧ m = M ∧ k = K) :
    Scales value decimal (.ok none : Outcome ε (Option U256)) ↔
      (P → 2 ^ 256 ≤ M * 10 ^ decimal / 10 ^ K) := by
  constructor
  · rintro ⟨_, hsame, hiff⟩ hP
    cases hsame
    by_contra hlt
    have hv : (BitVec.ofNat 256 (M * 10 ^ decimal / 10 ^ K)).toNat = M * 10 ^ decimal / 10 ^ K := by
      rw [BitVec.toNat_ofNat, Nat.mod_eq_of_lt (Nat.lt_of_not_le hlt)]
    exact nomatch (hiff _).mpr ⟨M, K, (h M K).mpr ⟨hP, rfl, rfl⟩, hv⟩
  · refine fun hlarge => ⟨none, rfl, fun v => ⟨(fun hnone => nomatch hnone), ?_⟩⟩
    rintro ⟨m, k, hdenotes, hv⟩
    obtain ⟨hP, rfl, rfl⟩ := (h m k).mp hdenotes
    exact absurd v.isLt (Nat.not_lt.mpr (hv ▸ hlarge hP))

/-- A number comes back exactly where there is a numeral that is worth it. -/
theorem scales_some_iff {P : Prop} {M K n : Nat} (hn : n < 2 ^ 256)
    (h : ∀ m k, Denotes value m k ↔ P ∧ m = M ∧ k = K) :
    Scales value decimal (.ok (some (BitVec.ofNat 256 n)) : Outcome ε (Option U256)) ↔
      P ∧ n = M * 10 ^ decimal / 10 ^ K := by
  have hv : (BitVec.ofNat 256 n).toNat = n := by
    rw [BitVec.toNat_ofNat, Nat.mod_eq_of_lt hn]
  constructor
  · rintro ⟨_, hsame, hiff⟩
    cases hsame
    obtain ⟨m, k, hdenotes, hworth⟩ := (hiff _).mp rfl
    obtain ⟨hP, rfl, rfl⟩ := (h m k).mp hdenotes
    exact ⟨hP, hv.symm.trans hworth⟩
  · rintro ⟨hP, hworth⟩
    refine ⟨_, rfl, fun v => ⟨?_, ?_⟩⟩
    · rintro hsame
      cases hsame
      exact ⟨M, K, (h M K).mpr ⟨hP, rfl, rfl⟩, hv.trans hworth⟩
    · rintro ⟨m, k, hdenotes, hworth'⟩
      obtain ⟨_, rfl, rfl⟩ := (h m k).mp hdenotes
      exact congrArg some (BitVec.eq_of_toNat_eq (hv.trans (hworth.trans hworth'.symm)))

/-! ## The conversion -/

theorem scales_of_not_mem (hdecimal : decimal ≤ 77) (h : '.' ∉ value) :
    Scales value decimal (convertToken value decimal : Outcome ε (Option U256)) ↔
      value ≠ [] ∧ value.all Char.isDigit = true ∧ number value < 2 ^ 256 := by
  have hdenotes := denotes_of_not_mem h
  unfold convertToken
  rw [Text.find_of_not_mem h]
  dsimp only
  rw [okValue_fromDecStr]
  by_cases hread : value.all Char.isDigit = true ∧ number value < 2 ^ 256
  · rw [if_pos hread, Option.getD_some, scaled_eq hread.2 hdecimal]
    by_cases hlt : number value * 10 ^ decimal < 2 ^ 256
    · rw [if_pos hlt, scales_some_iff hlt hdenotes]
      constructor
      · exact fun hnumeral => ⟨hnumeral.1.2, hread⟩
      · exact fun hnumeral => ⟨⟨hread.1, hnumeral.1⟩, by simp⟩
    · rw [if_neg hlt, scales_none_iff hdenotes]
      refine iff_of_true (fun _ => by simpa using hlt) ⟨?_, hread⟩
      rintro rfl
      simp [number, Nat.ofDigitChars_nil] at hlt
  · -- what is no number is taken for zero
    have hzero : (scaled (0 : U256) decimal : Outcome ε (Option U256)) =
        .ok (some (BitVec.ofNat 256 0)) := by
      have hscaled : (scaled (BitVec.ofNat 256 0) decimal : Outcome ε (Option U256)) = _ :=
        scaled_eq (by decide) hdecimal
      rw [Nat.zero_mul, if_pos (by decide)] at hscaled
      exact hscaled
    rw [if_neg hread, Option.getD_none, hzero, scales_some_iff (by decide) hdenotes]
    refine iff_of_false ?_ fun hnumeral => hread hnumeral.2
    rintro ⟨⟨hdigits, _⟩, hworth⟩
    have hnumber : number value = 0 := by
      rw [Nat.pow_zero, Nat.div_one] at hworth
      exact (Nat.mul_eq_zero.mp hworth.symm).resolve_right (Nat.pow_pos (by decide)).ne'
    exact hread ⟨hdigits, by rw [hnumber]; decide⟩

theorem scales_append (hdecimal : decimal ≤ 77) (h : '.' ∉ whole) :
    Scales (whole ++ '.' :: fraction) decimal
        (convertToken (whole ++ '.' :: fraction) decimal : Outcome ε (Option U256)) ↔
      if whole.all Char.isDigit = true ∧ number whole < 2 ^ 256 then
        2 ^ 256 ≤ number whole * 10 ^ decimal ∨
          fraction.all Char.isDigit = true ∧ whole ++ fraction ≠ [] ∧
            number fraction * 10 ^ decimal < 10 ^ fraction.length
      else (fraction.take decimal).all Char.isDigit = false := by
  have hdenotes : ∀ m k, Denotes (whole ++ '.' :: fraction) m k ↔ _ := denotes_append h
  have hpos : 0 < 10 ^ fraction.length := Nat.pow_pos (by decide)
  -- the worth is that of the part before the point and that of the part after it
  have hworth : number (whole ++ fraction) * 10 ^ decimal / 10 ^ fraction.length =
      number whole * 10 ^ decimal + number fraction * 10 ^ decimal / 10 ^ fraction.length := by
    rw [number_append, Nat.add_mul, Nat.mul_assoc, Nat.mul_add_div hpos]
  have hwhole : Text.get (whole ++ '.' :: fraction) 0 whole.byteLen = some whole := by
    have hget := Text.get_append [] (whole ++ '.' :: fraction) whole.byteLen
    rw [Text.takeBytes_append, Text.byteLen_nil, Nat.zero_add] at hget
    exact hget
  unfold convertToken
  rw [Text.find_append_cons h]
  dsimp only
  rw [hwhole, Option.bind_some, okValue_fromDecStr]
  by_cases hread : whole.all Char.isDigit = true ∧ number whole < 2 ^ 256
  · rw [if_pos hread, if_pos hread]
    dsimp only
    rw [scaled_eq hread.2 hdecimal]
    by_cases hlt : number whole * 10 ^ decimal < 2 ^ 256
    · rw [if_pos hlt, scales_some_iff hlt hdenotes, hworth, or_iff_right (Nat.not_le.mpr hlt),
        ← Nat.div_eq_zero_iff_lt hpos]
      constructor
      · rintro ⟨⟨_, hfraction, hne⟩, hsame⟩
        exact ⟨hfraction, hne, by omega⟩
      · rintro ⟨hfraction, hne, hzero⟩
        exact ⟨⟨hread.1, hfraction, hne⟩, by omega⟩
    · rw [if_neg hlt, scales_none_iff hdenotes, hworth]
      have hlarge := Nat.le_of_not_lt hlt
      exact iff_of_true (fun _ => hlarge.trans (Nat.le_add_right ..)) (.inl hlarge)
  · rw [if_neg hread, if_neg hread]
    dsimp only
    have hlarge : (whole.all Char.isDigit = true ∧ fraction.all Char.isDigit = true ∧
        whole ++ fraction ≠ []) →
        2 ^ 256 ≤ number (whole ++ fraction) * 10 ^ decimal / 10 ^ fraction.length := by
      rintro ⟨hdigits, _⟩
      have hle : 2 ^ 256 ≤ number whole := Nat.le_of_not_lt fun hlt => hread ⟨hdigits, hlt⟩
      rw [hworth]
      exact (hle.trans (Nat.le_mul_of_pos_right _ (Nat.pow_pos (by decide)))).trans
        (Nat.le_add_right ..)
    cases hdigits : (fraction.take decimal).all Char.isDigit with
    | false =>
      rw [convertDecimalPart_of_not_digits hdigits, scales_none_iff hdenotes]
      exact iff_of_true hlarge rfl
    | true =>
      obtain ⟨n, hn, hconvert⟩ := convertDecimalPart_of_digits hdecimal hdigits
      rw [hconvert, scales_some_iff hn hdenotes]
      refine iff_of_false ?_ (by decide)
      rintro ⟨hnumeral, rfl⟩
      exact absurd hn (Nat.not_lt.mpr (hlarge hnumeral))

/-- **The conversion** is exact decimal scaling precisely for the texts that meet the condition:
what comes after a point is worth less than a unit, or it does not matter. -/
theorem scales_convertToken_iff (ε : Type) (value : Text) {decimal : Nat}
    (hdecimal : decimal ≤ 77) :
    Scales value decimal (convertToken value decimal : Outcome ε (Option U256)) ↔
      Converts value decimal := by
  unfold Converts
  by_cases hpoint : '.' ∈ value
  · obtain ⟨whole, fraction, rfl, hwhole⟩ := List.eq_append_cons_of_mem hpoint
    rw [Text.takeWhile_append_cons hwhole, Text.dropWhile_append_cons hwhole]
    exact scales_append hdecimal hwhole
  · have hne : ∀ c ∈ value, decide (c ≠ '.') = true := by
      intro c hc
      simpa using ne_of_mem_of_not_mem hc hpoint
    have hdrop : value.dropWhile (· ≠ '.') = [] := List.dropWhile_eq_nil_iff.mpr hne
    have htake : value.takeWhile (· ≠ '.') = value := List.takeWhile_eq_self_iff.mpr hne
    rw [hdrop, htake]
    exact scales_of_not_mem hdecimal hpoint

theorem scales_oneAndAHalf :
    Scales ['1', '.', '5'] 1 (convertToken ['1', '.', '5'] 1 : Outcome Unit (Option U256)) ↔
      Converts ['1', '.', '5'] 1 :=
  scales_convertToken_iff Unit ['1', '.', '5'] (by decide)

/-- One and a half of a token of one digit become ten smallest units, and not fifteen. -/
theorem not_scales_oneAndAHalf : ¬ ∀ (value : Text) (decimal : Nat), decimal ≤ 77 →
    Scales value decimal (convertToken value decimal : Outcome Unit (Option U256)) := by
  intro h
  obtain ⟨converted, hconvert, hiff⟩ := h ['1', '.', '5'] 1 (by decide)
  have hten : (convertToken ['1', '.', '5'] 1 : Outcome Unit (Option U256)) =
      .ok (some (BitVec.ofNat 256 10)) := by decide +kernel
  have hfifteen := (hiff (BitVec.ofNat 256 15)).mpr
    ⟨15, 1, ⟨['1'], ['5'], by decide, by decide, by decide, .inr rfl, by decide, rfl⟩, by decide⟩
  rw [hten, hfifteen] at hconvert
  revert hconvert
  decide

end Conversion

end Cashbox.Eth
