import Cashbox.Eth.Numerals

/-!
# Bytes as hexadecimal text

The text that `hex::encode` writes is read back by `hex::decode`, and behind the
marker `0x` by `hexstr_to_vec`.
-/

namespace Cashbox.Crypto

open Cashbox.Lib Cashbox.Eth

/-! ## Digits -/

def hexDigit (n : Nat) : Char := if n < 10 then Char.ofNat (48 + n) else Char.ofNat (87 + n)

/-- `hex::encode`: two lower-case digits a byte. -/
def hexEncode (bytes : Bytes) : Text :=
  bytes.flatMap fun b => [hexDigit (b.toNat / 16), hexDigit (b.toNat % 16)]

/-- The byte of a digit. -/
def digitByte (n : Nat) : UInt8 := if n < 10 then UInt8.ofNat (48 + n) else UInt8.ofNat (87 + n)

theorem utf8_hexDigit {n : Nat} (h : n < 16) :
    String.utf8EncodeChar (hexDigit n) = [digitByte n] := by
  interval_cases n <;> rfl

/-- A digit is read as its value. -/
theorem hexVal_digitByte {n : Nat} (h : n < 16) (index : Nat) :
    hexVal (digitByte n) index = .ok (UInt8.ofNat n) := by
  interval_cases n <;> rfl

/-- Two digits are put together. -/
theorem pack_two {high low : Nat} (hhigh : high < 16) (hlow : low < 16) :
    UInt8.ofNat high <<< 4 ||| UInt8.ofNat low = UInt8.ofNat (16 * high + low) := by
  -- the low digit fills the bits that the shift leaves free
  have hor : high <<< 4 ||| low = 16 * high + low := by
    rw [← Nat.shiftLeft_add_eq_or_of_lt hlow, Nat.shiftLeft_eq]
    omega
  have hbyte {n : Nat} (hn : n < 256) : (UInt8.ofNat n).toNat = n := UInt8.toNat_ofNat_of_lt hn
  apply UInt8.toNat_inj.mp
  rw [UInt8.toNat_or, UInt8.toNat_shiftLeft, hbyte (by omega), hbyte (by omega),
    hbyte (by omega)]
  show high <<< 4 % 256 ||| low = 16 * high + low
  rw [Nat.mod_eq_of_lt (by rw [Nat.shiftLeft_eq]; omega), hor]

/-- A byte is put together again from its halves. -/
theorem halves (b : UInt8) :
    UInt8.ofNat (b.toNat / 16) <<< 4 ||| UInt8.ofNat (b.toNat % 16) = b := by
  have hlt := b.toNat_lt
  rw [pack_two (by omega) (by omega), Nat.div_add_mod, UInt8.ofNat_toNat]

/-! ## Reading back -/

theorem asBytes_hexEncode_cons (b : UInt8) (bytes : Bytes) :
    (hexEncode (b :: bytes)).asBytes =
      digitByte (b.toNat / 16) :: digitByte (b.toNat % 16) :: (hexEncode bytes).asBytes := by
  have hb := b.toNat_lt
  show String.utf8EncodeChar (hexDigit (b.toNat / 16)) ++
    (String.utf8EncodeChar (hexDigit (b.toNat % 16)) ++ (hexEncode bytes).asBytes) = _
  rw [utf8_hexDigit (by omega), utf8_hexDigit (by omega)]
  rfl

theorem length_asBytes_hexEncode (bytes : Bytes) :
    (hexEncode bytes).asBytes.length = 2 * bytes.length := by
  induction bytes with
  | nil => rfl
  | cons b bytes ih =>
    rw [asBytes_hexEncode_cons, List.length_cons, List.length_cons, ih, List.length_cons]
    omega

theorem hexPairs_hexEncode (bytes : Bytes) (index : Nat) :
    hexPairs index (hexEncode bytes).asBytes = .ok bytes := by
  induction bytes generalizing index with
  | nil => rfl
  | cons b bytes ih =>
    have hb := b.toNat_lt
    rw [asBytes_hexEncode_cons, hexPairs, hexVal_digitByte (by omega), Outcome.ok_bind,
      hexVal_digitByte (by omega), Outcome.ok_bind, ih, Outcome.ok_bind, halves]

theorem hexDecode_hexEncode (bytes : Bytes) :
    hexDecode (hexEncode bytes).asBytes = .ok bytes := by
  have heven : ¬ (hexEncode bytes).asBytes.length % 2 ≠ 0 := by
    rw [length_asBytes_hexEncode]
    omega
  unfold hexDecode
  rw [if_neg heven, hexPairs_hexEncode]

/-! ## Text with a marker -/

/-- Digits are no quotation marks, no letter `x` and no white space. -/
theorem hexDigit_cases {n : Nat} (h : n < 16) :
    hexDigit n ≠ '\"' ∧ hexDigit n ≠ 'x' ∧ Text.isWhitespace (hexDigit n) = false := by
  interval_cases n <;> decide

theorem mem_hexEncode {bytes : Bytes} {c : Char} (h : c ∈ hexEncode bytes) :
    ∃ n < 16, c = hexDigit n := by
  obtain ⟨b, _, hc⟩ := List.mem_flatMap.mp h
  have hb := b.toNat_lt
  rcases List.mem_cons.mp hc with rfl | hc
  · exact ⟨_, by omega, rfl⟩
  · obtain rfl := List.mem_singleton.mp hc
    exact ⟨_, by omega, rfl⟩

/-- Nothing is trimmed off a text none of whose characters matches. -/
theorem trimMatches_eq {p : Char → Bool} {s : Text} (h : ∀ c ∈ s, p c = false) :
    s.trimMatches p = s := by
  have hdrop : ∀ t : Text, (∀ c ∈ t, p c = false) → t.dropWhile p = t := by
    intro t ht
    cases t with
    | nil => rfl
    | cons c t => rw [List.dropWhile_cons_of_neg (by simp [ht c List.mem_cons_self])]
  unfold Text.trimMatches
  rw [hdrop s h, hdrop s.reverse (fun c hc => h c (List.mem_reverse.mp hc)), List.reverse_reverse]

/-- A text with its marker is read as the bytes. -/
theorem hexstrToVec_hexEncode (bytes : Bytes) :
    hexstrToVec ('0' :: 'x' :: hexEncode bytes) = .ok bytes := by
  have hquote : Text.trimMatches (· = '\"') ('0' :: 'x' :: hexEncode bytes) =
      '0' :: 'x' :: hexEncode bytes := by
    apply trimMatches_eq
    intro c hc
    rcases List.mem_cons.mp hc with rfl | hc
    · decide
    rcases List.mem_cons.mp hc with rfl | hc
    · decide
    obtain ⟨n, hn, rfl⟩ := mem_hexEncode hc
    exact decide_eq_false (hexDigit_cases hn).1
  -- no second marker can follow, since no digit is the letter x
  have hstart : Text.trimStartMatches ('0' :: 'x' :: hexEncode bytes) ['0', 'x'] =
      hexEncode bytes := by
    have hnone : ∀ k, Text.trimStartRounds ['0', 'x'] k (hexEncode bytes) = hexEncode bytes := by
      intro k
      have hprefix : List.isPrefixOf ['0', 'x'] (hexEncode bytes) = false := by
        apply Bool.eq_false_iff.mpr
        intro hprefix
        have hx : 'x' ∈ hexEncode bytes :=
          (List.isPrefixOf_iff_prefix.mp hprefix).subset (by simp)
        obtain ⟨n, hn, hxn⟩ := mem_hexEncode hx
        exact (hexDigit_cases hn).2.1 hxn.symm
      cases k with
      | zero => rfl
      | succ k => rw [Text.trimStartRounds, hprefix, if_neg Bool.false_ne_true]
    show Text.trimStartRounds ['0', 'x'] ((hexEncode bytes).length + 1 + 1) _ = _
    rw [Text.trimStartRounds, if_pos (by rfl)]
    exact hnone _
  have htrim : Text.trim (hexEncode bytes) = hexEncode bytes := by
    apply trimMatches_eq
    intro c hc
    obtain ⟨n, hn, rfl⟩ := mem_hexEncode hc
    exact (hexDigit_cases hn).2.2
  unfold hexstrToVec
  rw [hquote, hstart, htrim, hexDecode_hexEncode]

end Cashbox.Crypto
