import Cashbox.Crypto.Hex
import Cashbox.Lib.Trim

/-!
# Hexadecimal digits in any case

`hex::decode` reads a text exactly if it has an even number of hexadecimal digits and nothing else.
Two digits make a byte, so the bytes are those of the number in the digits.
-/

namespace Cashbox.Crypto

open Cashbox.Lib Cashbox.Eth

/-! ## Digits of a text -/

/-- The text has these digits. -/
def Digits (s : Text) (values : List Nat) : Prop :=
  List.Forall₂ (fun c d => toDigit16 c = some d) s values

/-- Two digits a byte. -/
def packDigits : List Nat → Bytes
  | high :: low :: rest => UInt8.ofNat (16 * high + low) :: packDigits rest
  | _ => []

/-- The number in digits. -/
def numberOf (values : List Nat) : Nat := values.foldl (fun n d => n * 16 + d) 0

/-! ## One digit -/

/-- What the characters of one byte are as digits. -/
theorem ascii_digits : ∀ n < 128, String.utf8EncodeChar (Char.ofNat n) = [UInt8.ofNat n] ∧
    (∀ d ∈ toDigit16 (Char.ofNat n), d < 16 ∧ hexVal (UInt8.ofNat n) 0 = .ok (UInt8.ofNat d)) ∧
    ((hexVal (UInt8.ofNat n) 0).isOk = true → (toDigit16 (Char.ofNat n)).isSome) ∧
    ((toDigit16 (Char.ofNat n)).isSome →
      Char.ofNat n ≠ '\"' ∧ Char.ofNat n ≠ 'x' ∧ Char.ofNat n ≠ 'X' ∧
        Text.isWhitespace (Char.ofNat n) = false) := by
  decide +kernel

theorem utf8_of_lt {c : Char} (h : c.toNat < 128) :
    String.utf8EncodeChar c = [UInt8.ofNat c.toNat] := by
  have hc := (ascii_digits c.toNat h).1
  rwa [Char.ofNat_toNat] at hc

theorem lt_of_toDigit16 {c : Char} {d : Nat} (h : toDigit16 c = some d) : c.toNat < 128 := by
  have hle (a b : Char) (hab : a ≤ b) : a.toNat ≤ b.toNat := hab
  unfold toDigit16 at h
  split_ifs at h with h1 h2 h3
  · exact (hle _ _ h1.2).trans_lt (by decide)
  · exact (hle _ _ h2.2).trans_lt (by decide)
  · exact (hle _ _ h3.2).trans_lt (by decide)

theorem hexVal_index {b v : UInt8} {i : Nat} (h : hexVal b i = .ok v) (j : Nat) :
    hexVal b j = .ok v := by
  unfold hexVal at h ⊢
  split_ifs at h ⊢
  · exact h
  · exact h
  · exact h

/-- A digit is one byte, which is read as its value. -/
theorem utf8_of_toDigit16 {c : Char} {d : Nat} (h : toDigit16 c = some d) :
    d < 16 ∧ String.utf8EncodeChar c = [UInt8.ofNat c.toNat] ∧
      ∀ index, hexVal (UInt8.ofNat c.toNat) index = .ok (UInt8.ofNat d) := by
  have hlt := lt_of_toDigit16 h
  have hmem : d ∈ toDigit16 (Char.ofNat c.toNat) := by rwa [Char.ofNat_toNat]
  obtain ⟨hsixteen, hread⟩ := (ascii_digits _ hlt).2.1 d hmem
  exact ⟨hsixteen, utf8_of_lt hlt, hexVal_index hread⟩

/-- A byte beyond 127 is no digit. -/
theorem hexVal_of_le {b : UInt8} (h : 128 ≤ b.toNat) (index : Nat) :
    (hexVal b index).isOk = false := by
  unfold hexVal
  simp only [UInt8.le_iff_toNat_le]
  split_ifs with h1 h2 h3
  · exact absurd (h.trans h1.2) (by decide)
  · exact absurd (h.trans h2.2) (by decide)
  · exact absurd (h.trans h3.2) (by decide)
  · rfl

/-- The last byte of a longer character has its highest bit set. -/
theorem exists_high_byte {c : Char} (h : 128 ≤ c.toNat) :
    ∃ b ∈ String.utf8EncodeChar c, 128 ≤ b.toNat := by
  have hlong : ¬ c.val.toNat ≤ 0x7f := Nat.not_le.mpr h
  have hlast : 128 ≤ (UInt8.ofNat (c.val.toNat % 0x40 + 0x80)).toNat := by
    rw [UInt8.toNat_ofNat']
    omega
  refine ⟨UInt8.ofNat (c.val.toNat % 0x40 + 0x80), ?_, hlast⟩
  unfold String.utf8EncodeChar
  simp only [if_neg hlong]
  split_ifs <;> simp

/-- A character whose bytes are digits is one. -/
theorem exists_digit {c : Char}
    (h : ∀ b ∈ String.utf8EncodeChar c, ∃ index, (hexVal b index).isOk = true) :
    ∃ d, toDigit16 c = some d := by
  by_cases hlt : c.toNat < 128
  · obtain ⟨index, hok⟩ := h (UInt8.ofNat c.toNat) (by simp [utf8_of_lt hlt])
    obtain ⟨v, hv⟩ := Outcome.isOk_iff.mp hok
    have hsome := (ascii_digits c.toNat hlt).2.2.1 (Outcome.isOk_iff.mpr ⟨v, hexVal_index hv 0⟩)
    rw [Char.ofNat_toNat] at hsome
    exact Option.isSome_iff_exists.mp hsome
  · exfalso
    obtain ⟨b, hb, hhigh⟩ := exists_high_byte (Nat.not_lt.mp hlt)
    obtain ⟨index, hok⟩ := h b hb
    rw [hexVal_of_le hhigh] at hok
    cases hok

/-! ## A text of digits -/

theorem digits_lt {s : Text} {values : List Nat} (h : Digits s values) : ∀ d ∈ values, d < 16 := by
  induction h with
  | nil => simp
  | cons hdigit _ ih => exact List.forall_mem_cons.mpr ⟨(utf8_of_toDigit16 hdigit).1, ih⟩

theorem asBytes_of_digits {s : Text} {values : List Nat} (h : Digits s values) :
    s.asBytes = s.map fun c => UInt8.ofNat c.toNat := by
  induction h with
  | nil => rfl
  | cons hdigit _ ih =>
    rw [List.map_cons, ← ih]
    exact congrArg (· ++ _) (utf8_of_toDigit16 hdigit).2.1

theorem hexPairs_of_digits {values : List Nat} (heven : values.length % 2 = 0) :
    ∀ {s : Text}, Digits s values → ∀ index,
      hexPairs index (s.map fun c => UInt8.ofNat c.toNat) = .ok (packDigits values) := by
  induction values using packDigits.induct with
  | case1 high low rest ih =>
    intro s hs index
    have heven : rest.length % 2 = 0 := by
      rw [List.length_cons, List.length_cons] at heven
      omega
    cases hs with
    | cons hhigh hs =>
      cases hs with
      | cons hlow hs =>
        obtain ⟨hhigh16, -, hhigh⟩ := utf8_of_toDigit16 hhigh
        obtain ⟨hlow16, -, hlow⟩ := utf8_of_toDigit16 hlow
        rw [List.map_cons, List.map_cons, hexPairs, hhigh, Outcome.ok_bind, hlow, Outcome.ok_bind,
          ih heven hs, Outcome.ok_bind, pack_two hhigh16 hlow16, packDigits]
  | case2 values hshort =>
    intro s hs index
    cases hs with
    | nil => rfl
    | cons hdigit hs =>
      cases hs with
      | nil => cases heven
      | cons _ _ => exact (hshort _ _ _ rfl).elim

theorem hexDecode_of_digits {s : Text} {values : List Nat} (h : Digits s values)
    (heven : values.length % 2 = 0) : hexDecode s.asBytes = .ok (packDigits values) := by
  have hlength : (s.map fun c => UInt8.ofNat c.toNat).length = values.length := by
    rw [List.length_map, h.length_eq]
  unfold hexDecode
  rw [asBytes_of_digits h, hlength, if_neg (by omega)]
  exact hexPairs_of_digits heven h 0

theorem hexDecode_of_odd {s : Text} {values : List Nat} (h : Digits s values)
    (hodd : values.length % 2 ≠ 0) : hexDecode s.asBytes = .err .oddLength := by
  have hlength : (s.map fun c => UInt8.ofNat c.toNat).length = values.length := by
    rw [List.length_map, h.length_eq]
  unfold hexDecode
  rw [asBytes_of_digits h, hlength, if_pos hodd]

/-- Bytes that are read are digits. -/
theorem exists_hexVal {bytes out : Bytes} : ∀ {index : Nat}, bytes.length % 2 = 0 →
    hexPairs index bytes = .ok out → ∀ b ∈ bytes, ∃ index, (hexVal b index).isOk = true := by
  induction bytes using List.twoStepInduction generalizing out with
  | nil => simp
  | singleton b =>
    intro index heven
    cases heven
  | cons_cons high low rest ih _ =>
    intro index heven hread
    have heven : rest.length % 2 = 0 := by
      rw [List.length_cons, List.length_cons] at heven
      omega
    rw [hexPairs] at hread
    obtain ⟨h, hhigh, hread⟩ := Outcome.bind_eq_ok.mp hread
    obtain ⟨l, hlow, hread⟩ := Outcome.bind_eq_ok.mp hread
    obtain ⟨bytes, hrest, -⟩ := Outcome.bind_eq_ok.mp hread
    simp only [List.forall_mem_cons]
    exact ⟨⟨_, Outcome.isOk_iff.mpr ⟨h, hhigh⟩⟩, ⟨_, Outcome.isOk_iff.mpr ⟨l, hlow⟩⟩,
      ih heven hrest⟩

theorem exists_digits {s : Text} (h : ∀ c ∈ s, ∃ d, toDigit16 c = some d) :
    ∃ values, Digits s values := by
  induction s with
  | nil => exact ⟨[], .nil⟩
  | cons c s ih =>
    obtain ⟨⟨d, hd⟩, hs⟩ := List.forall_mem_cons.mp h
    obtain ⟨values, hvalues⟩ := ih hs
    exact ⟨d :: values, .cons hd hvalues⟩

/-- **What is decoded**: an even number of digits, two a byte. -/
theorem hexDecode_eq_ok {s : Text} {bytes : Bytes} : hexDecode s.asBytes = .ok bytes ↔
    ∃ values, Digits s values ∧ values.length % 2 = 0 ∧ bytes = packDigits values := by
  constructor
  · intro h
    have hread := h
    unfold hexDecode at hread
    split_ifs at hread with heven
    have hdigits : ∀ c ∈ s, ∃ d, toDigit16 c = some d := by
      intro c hc
      apply exists_digit
      intro b hb
      exact exists_hexVal (by omega) hread b (List.mem_flatMap.mpr ⟨c, hc, hb⟩)
    obtain ⟨values, hvalues⟩ := exists_digits hdigits
    have hlength : s.asBytes.length = values.length := by
      rw [asBytes_of_digits hvalues, List.length_map, hvalues.length_eq]
    have hvalueseven : values.length % 2 = 0 := by omega
    rw [hexDecode_of_digits hvalues hvalueseven] at h
    exact ⟨values, hvalues, hvalueseven, (Outcome.ok.inj h).symm⟩
  · rintro ⟨values, hvalues, heven, rfl⟩
    exact hexDecode_of_digits hvalues heven

/-! ## Numbers -/

theorem numberOf_cons (d : Nat) (values : List Nat) :
    numberOf (d :: values) = d * 16 ^ values.length + numberOf values := by
  have hfrom : ∀ (values : List Nat) (n : Nat), values.foldl (fun n d => n * 16 + d) n =
      n * 16 ^ values.length + numberOf values := by
    intro values
    induction values with
    | nil => simp [numberOf]
    | cons d values ih =>
      intro n
      have hd := ih d
      unfold numberOf at hd ⊢
      simp only [List.foldl_cons, Nat.zero_mul, Nat.zero_add, List.length_cons]
      rw [ih, hd]
      unfold numberOf
      ring
  unfold numberOf
  rw [List.foldl_cons, Nat.zero_mul, Nat.zero_add, hfrom, numberOf]

theorem ofBe_cons (b : UInt8) (bytes : Bytes) :
    ofBe (b :: bytes) = b.toNat * 256 ^ bytes.length + ofBe bytes := by
  unfold ofBe
  rw [List.reverse_cons, List.map_append, Nat.ofDigits_append, List.length_map, List.length_reverse,
    List.map_singleton, Nat.ofDigits_singleton]
  ring

theorem length_packDigits (values : List Nat) : (packDigits values).length = values.length / 2 := by
  induction values using packDigits.induct with
  | case1 high low rest ih =>
    rw [packDigits, List.length_cons, ih, List.length_cons, List.length_cons]
    omega
  | case2 values hshort =>
    match values with
    | [] => rfl
    | [_] => simp [packDigits]
    | high :: low :: rest => exact (hshort high low rest rfl).elim

/-- The bytes are those of the number in the digits. -/
theorem ofBe_packDigits {values : List Nat} (heven : values.length % 2 = 0)
    (hlt : ∀ d ∈ values, d < 16) : ofBe (packDigits values) = numberOf values := by
  induction values using packDigits.induct with
  | case1 high low rest ih =>
    simp only [List.forall_mem_cons] at hlt
    obtain ⟨hhigh, hlow, hrest⟩ := hlt
    have hrest_even : rest.length % 2 = 0 := by
      rw [List.length_cons, List.length_cons] at heven
      omega
    have hpow : 256 ^ (rest.length / 2) = 16 ^ rest.length := by
      rw [show 256 = 16 ^ 2 by norm_num, ← Nat.pow_mul]
      congr 1
      omega
    have hbyte : (UInt8.ofNat (16 * high + low)).toNat = 16 * high + low := by
      rw [UInt8.toNat_ofNat', Nat.mod_eq_of_lt (by omega)]
    rw [packDigits, ofBe_cons, ih hrest_even hrest, length_packDigits, hbyte, hpow, numberOf_cons,
      numberOf_cons, List.length_cons, Nat.pow_succ]
    ring
  | case2 values hshort =>
    match values with
    | [] => rfl
    | [_] => cases heven
    | high :: low :: rest => exact (hshort high low rest rfl).elim

/-! ## Digits behind a marker -/

/-- A digit is no quotation mark, no letter `x` and no white space. -/
theorem not_mark_of_digit {c : Char} {d : Nat} (h : toDigit16 c = some d) :
    c ≠ '\"' ∧ c ≠ 'x' ∧ c ≠ 'X' ∧ Text.isWhitespace c = false := by
  have hc := (ascii_digits c.toNat (lt_of_toDigit16 h)).2.2.2
  rw [Char.ofNat_toNat, h] at hc
  exact hc rfl

theorem mem_digits {s : Text} {values : List Nat} (h : Digits s values) :
    ∀ c ∈ s, ∃ d, toDigit16 c = some d := by
  induction h with
  | nil => simp
  | cons hdigit _ ih => exact List.forall_mem_cons.mpr ⟨⟨_, hdigit⟩, ih⟩

theorem trim_digits {digits : Text} {values : List Nat} (h : Digits digits values) :
    digits.trim = digits := by
  apply trimMatches_eq
  intro c hc
  obtain ⟨d, hd⟩ := mem_digits h c hc
  exact (not_mark_of_digit hd).2.2.2

/-- Digits with blanks around them. -/
structure Padded (text before digits after : Text) (values : List Nat) : Prop where
  text_eq : text = before ++ (digits ++ after)
  blank_before : ∀ c ∈ before, Text.isWhitespace c = true
  blank_after : ∀ c ∈ after, Text.isWhitespace c = true
  digits : Digits digits values

section Padded

variable {text before digits after : Text} {values : List Nat}

/-- There is no quotation mark among digits and blanks, and no letter of a marker. -/
theorem Padded.not_mark (h : Padded text before digits after values) :
    ∀ c ∈ text, c ≠ '\"' ∧ c ≠ 'x' ∧ c ≠ 'X' := by
  intro c hc
  have hblank (hc : Text.isWhitespace c = true) : c ≠ '\"' ∧ c ≠ 'x' ∧ c ≠ 'X' := by
    refine ⟨?_, ?_, ?_⟩ <;> rintro rfl <;> exact absurd hc (by decide)
  rw [h.text_eq, List.mem_append, List.mem_append] at hc
  rcases hc with hc | hc | hc
  · exact hblank (h.blank_before c hc)
  · obtain ⟨d, hd⟩ := mem_digits h.digits c hc
    obtain ⟨hquote, hx, hX, -⟩ := not_mark_of_digit hd
    exact ⟨hquote, hx, hX⟩
  · exact hblank (h.blank_after c hc)

theorem Padded.not_marker (h : Padded text before digits after values) :
    ¬ ['0', 'x'] <+: text := by
  intro hpre
  exact (h.not_mark 'x' (hpre.subset (by simp))).2.1 rfl

theorem Padded.trim (h : Padded text before digits after values) : text.trim = digits := by
  rw [h.text_eq]
  exact (Text.trimMatches_append h.blank_before h.blank_after).trans (trim_digits h.digits)

end Padded

/-- **What is read over**: quotation marks at both ends, behind the first ones markers, and blanks
around the digits. -/
theorem hexstrToVec_of_padded {opening padded before digits after closing : Text}
    {values : List Nat} (markers : Nat) (hopening : ∀ c ∈ opening, c = '\"')
    (hclosing : ∀ c ∈ closing, c = '\"') (h : Padded padded before digits after values) :
    hexstrToVec (opening ++ ((List.replicate markers ['0', 'x']).flatten ++ padded ++ closing)) =
      hexDecode digits.asBytes := by
  have hquote : Text.trimMatches (· = '\"')
      (opening ++ ((List.replicate markers ['0', 'x']).flatten ++ padded ++ closing)) =
        (List.replicate markers ['0', 'x']).flatten ++ padded := by
    rw [Text.trimMatches_append (fun c hc => decide_eq_true (hopening c hc))
      (fun c hc => decide_eq_true (hclosing c hc))]
    apply trimMatches_eq
    intro c hc
    apply decide_eq_false
    rcases List.mem_append.mp hc with hc | hc
    · obtain ⟨marker, hmarker, hc⟩ := List.mem_flatten.mp hc
      rw [List.eq_of_mem_replicate hmarker] at hc
      rintro rfl
      exact absurd hc (by decide)
    · exact (h.not_mark c hc).1
  have hmarkers : Text.trimStartMatches ((List.replicate markers ['0', 'x']).flatten ++ padded)
      ['0', 'x'] = padded := by
    apply Text.trimStartRounds_replicate h.not_marker
    rw [List.length_append, List.length_flatten, List.map_replicate, List.sum_replicate_nat]
    simp only [List.length_cons, List.length_nil]
    omega
  unfold hexstrToVec
  rw [hquote, hmarkers, h.trim]

/-- **Digits behind the marker** are read, also with blanks behind them. -/
theorem hexstrToVec_of_digits {digits after : Text} {values : List Nat} (h : Digits digits values)
    (hafter : ∀ c ∈ after, Text.isWhitespace c = true) :
    hexstrToVec ('0' :: 'x' :: (digits ++ after)) = hexDecode digits.asBytes := by
  have hpad : Padded (digits ++ after) [] digits after values := ⟨rfl, by simp, hafter, h⟩
  have hread := @hexstrToVec_of_padded [] _ _ _ _ [] _ 1 (by simp) (by simp) hpad
  simpa using hread

/-- The text has these digits, and around them what is read over. -/
def Wrapped (text : Text) (values : List Nat) : Prop :=
  ∃ opening markers padded before digits after closing,
    text = opening ++ ((List.replicate markers ['0', 'x']).flatten ++ padded ++ closing) ∧
      (∀ c ∈ opening, c = '\"') ∧ (∀ c ∈ closing, c = '\"') ∧
      Padded padded before digits after values

/-- No marker in upper case is read over. -/
theorem Wrapped.ne_upper {text : Text} {values : List Nat} (h : Wrapped text values) :
    ∀ c ∈ text, c ≠ 'X' := by
  obtain ⟨opening, markers, padded, before, digits, after, closing, rfl, hopening, hclosing,
      hpad⟩ :=
    h
  intro c hc
  simp only [List.mem_append] at hc
  rcases hc with hc | (hc | hc) | hc
  · rw [hopening c hc]
    decide
  · obtain ⟨marker, hmarker, hc⟩ := List.mem_flatten.mp hc
    rw [List.eq_of_mem_replicate hmarker] at hc
    rintro rfl
    exact absurd hc (by decide)
  · exact (hpad.not_mark c hc).2.2
  · rw [hclosing c hc]
    decide

/-- **What is read**: an even number of digits, two a byte. -/
theorem hexstrToVec_eq_ok {text : Text} {bytes : Bytes} : hexstrToVec text = .ok bytes ↔
    ∃ values, Wrapped text values ∧ values.length % 2 = 0 ∧ bytes = packDigits values := by
  constructor
  · intro h
    obtain ⟨opening, closing, hopening, hclosing, hquote⟩ :=
      Text.exists_trimMatches (· = '\"') text
    obtain ⟨markers, hmarkers⟩ := Text.exists_trimStartRounds ['0', 'x']
      (Text.trimMatches (· = '\"') text).length (Text.trimMatches (· = '\"') text)
    obtain ⟨before, after, hbefore, hafter, hblanks⟩ := Text.exists_trimMatches Text.isWhitespace
      ((Text.trimMatches (· = '\"') text).trimStartMatches ['0', 'x'])
    obtain ⟨values, hdigits, heven, hbytes⟩ := hexDecode_eq_ok.mp h
    refine ⟨values, ?_, heven, hbytes⟩
    refine ⟨opening, markers, _, before, _, after, closing, hquote.trans ?_,
      fun c hc => of_decide_eq_true (hopening c hc), fun c hc => of_decide_eq_true (hclosing c hc),
      hblanks, hbefore, hafter, hdigits⟩
    exact congrArg (fun s => opening ++ (s ++ closing)) hmarkers
  · rintro ⟨values, ⟨opening, markers, padded, before, digits, after, closing, rfl, hopening,
      hclosing, hpad⟩, heven, rfl⟩
    rw [hexstrToVec_of_padded markers hopening hclosing hpad, hexDecode_of_digits hpad.digits heven]

end Cashbox.Crypto
