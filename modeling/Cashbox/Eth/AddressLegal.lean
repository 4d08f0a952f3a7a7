import Cashbox.Crypto.HexDigits
import Cashbox.Eth.Payload

/-!
# Legal addresses

`address_legal` checks the text of an address before a payload is made of it, and
`EthTransferPayload::decode` reads it. Both are written on their own. The check trims the text and
puts it in lower case before it looks at the marker, while the decoder only knows a marker at the
very start of the text, in lower case. The check admits all letters, while the decoder reads those
up to `f`.

So an address in hexadecimal digits is always legal, and a legal address is decoded exactly if it
starts with the marker in lower case and has 40 hexadecimal digits and nothing but blanks after it.
-/

namespace Cashbox.Eth

open Cashbox.Lib Cashbox.Crypto

/-! ## Lower case -/

/-- What the other characters become in lower case, which may depend on those around them: the
character at a position of a text becomes a character and those that follow it. -/
abbrev LowerCase := Text → Nat → Char × Text

/-- The character at a position in lower case. -/
def lowerChar (beyond : LowerCase) (whole : Text) (i : Nat) (c : Char) : Text :=
  if c.toNat < 128 then [c.toLower] else (beyond whole i).1 :: (beyond whole i).2

/-- The characters from a position of a text on. -/
def lowerFrom (beyond : LowerCase) (whole : Text) : Nat → Text → Text
  | _, [] => []
  | i, c :: s => lowerChar beyond whole i c ++ lowerFrom beyond whole (i + 1) s

/-- `to_lowercase` -/
def toLowercase (beyond : LowerCase) (s : Text) : Text := lowerFrom beyond s 0 s

/-! ## The check -/

/-- A lower-case letter or a decimal digit. -/
def legalChar (c : Char) : Bool := ('a' ≤ c ∧ c ≤ 'z') ∨ ('0' ≤ c ∧ c ≤ '9')

def addressLegal (beyond : LowerCase) (address : Text) : Bool :=
  let address := toLowercase beyond address.trim
  if address.isEmpty ∨ ¬ ['0', 'x'].isPrefixOf address ∨ address.byteLen ≠ 42 then false
  -- the marker takes two bytes
  else (address.drop 2).all legalChar

/-! ## What is asked of it -/

/-- The text denotes the address: behind a marker of either case are the 40 digits. -/
def DenotesAddress (text : Text) (address : H160) : Prop :=
  ∃ x digits values, (x = 'x' ∨ x = 'X') ∧ text.trim = '0' :: x :: digits ∧ Digits digits values ∧
    values.length = 40 ∧ address = BitVec.ofNat 160 (numberOf values)

/-- Every payload without a contract that sends to this text is decoded to what it denotes. -/
def DecodesTo (abi : Erc20Abi) (text : Text) : Prop :=
  ∀ (p : EthTransferPayload) (amount : U256), p.toAddress = text →
    p.contractAddress.trim = [] → NumericOk p amount →
      ∃ tx address, p.decode abi = .ok tx ∧ tx.toAddress = some address ∧
      DenotesAddress text address

/-- Forty hexadecimal digits behind the marker, with blanks around them. -/
def Written (text : Text) : Prop :=
  ∃ before digits values after, text = before ++ ('0' :: 'x' :: (digits ++ after)) ∧
    Digits digits values ∧ values.length = 40 ∧
    (∀ c ∈ before, Text.isWhitespace c = true) ∧ ∀ c ∈ after, Text.isWhitespace c = true

/-- The marker comes first, and blanks are behind the digits only. -/
def Spelled (text : Text) : Prop :=
  ∃ digits values after, text = '0' :: 'x' :: (digits ++ after) ∧ Digits digits values ∧
    values.length = 40 ∧ ∀ c ∈ after, Text.isWhitespace c = true

/-- A legal address is a decodable one, and an address in hexadecimal digits is legal. -/
def LegalIsDecodable (beyond : LowerCase) (abi : Erc20Abi) (text : Text) : Prop :=
  (addressLegal beyond text = true → DecodesTo abi text) ∧
    (Written text → addressLegal beyond text = true)

/-! ## Digits in lower case -/

theorem lower_digit {c : Char} {d : Nat} (h : toDigit16 c = some d) :
    toDigit16 c.toLower = some d ∧ legalChar c.toLower = true := by
  have hall : ∀ n < 128, ∀ d ∈ toDigit16 (Char.ofNat n),
      toDigit16 (Char.ofNat n).toLower = some d ∧ legalChar (Char.ofNat n).toLower = true := by
    decide +kernel
  have hc := hall c.toNat (lt_of_toDigit16 h)
  rw [Char.ofNat_toNat] at hc
  exact hc d h

section Lower

variable {beyond : LowerCase} {whole : Text}

/-- Digits stay digits of the same values. -/
theorem lowerFrom_digits (beyond : LowerCase) (whole : Text) {digits : Text} {values : List Nat}
    (h : Digits digits values) (i : Nat) :
    Digits (lowerFrom beyond whole i digits) values ∧
      (lowerFrom beyond whole i digits).all legalChar = true := by
  induction h generalizing i with
  | nil => exact ⟨.nil, rfl⟩
  | cons hdigit _ ih =>
    have hlower := lower_digit hdigit
    obtain ⟨hrest, hlegal⟩ := ih (i + 1)
    simp only [lowerFrom, lowerChar, if_pos (lt_of_toDigit16 hdigit), List.singleton_append,
      List.all_cons, hlower.2, hlegal]
    exact ⟨.cons hlower.1 hrest, rfl⟩

/-- No character is lost. -/
theorem le_length_lowerFrom (i : Nat) (s : Text) :
    s.length ≤ (lowerFrom beyond whole i s).length := by
  induction s generalizing i with
  | nil => simp
  | cons c s ih =>
    have hone : 1 ≤ (lowerChar beyond whole i c).length := by
      unfold lowerChar
      split_ifs <;> simp
    have hrest := ih (i + 1)
    simp only [lowerFrom, List.length_cons, List.length_append]
    omega

theorem mem_lowerFrom {c : Char} {s : Text} (hc : c ∈ s) (hlt : c.toNat < 128) (i : Nat) :
    c.toLower ∈ lowerFrom beyond whole i s := by
  induction s generalizing i with
  | nil => simp at hc
  | cons c' s ih =>
    rw [lowerFrom, List.mem_append]
    rcases List.mem_cons.mp hc with rfl | hc
    · left
      simp [lowerChar, hlt]
    · exact Or.inr (ih hc _)

end Lower

theorem byteLen_digits {digits : Text} {values : List Nat} (h : Digits digits values) :
    digits.byteLen = values.length := by
  rw [Text.byteLen, asBytes_of_digits h, List.length_map, h.length_eq]

/-! ## What is legal -/

/-- Blanks around a text that ends with a digit are trimmed off. -/
theorem trim_marked (before s : Text) {digits after : Text} {values : List Nat}
    (h : Digits digits values) (hsome : values ≠ [])
    (hbefore : ∀ c ∈ before, Text.isWhitespace c = true)
    (hafter : ∀ c ∈ after, Text.isWhitespace c = true) :
    Text.trim (before ++ ('0' :: (s ++ (digits ++ after)))) = '0' :: (s ++ digits) := by
  have hdigits : digits ≠ [] := fun hnil => hsome (List.forall₂_nil_left_iff.mp (hnil ▸ h))
  have hlast : Text.isWhitespace (digits.getLast hdigits) = false := by
    obtain ⟨d, hd⟩ := mem_digits h _ (digits.getLast_mem hdigits)
    exact (not_mark_of_digit hd).2.2.2
  have hsplit : s ++ digits = s ++ digits.dropLast ++ [digits.getLast hdigits] := by
    rw [List.append_assoc, List.dropLast_append_getLast]
  calc Text.trim (before ++ ('0' :: (s ++ (digits ++ after))))
      = Text.trim (before ++ ('0' :: (s ++ digits) ++ after)) := by simp
    _ = Text.trim ('0' :: (s ++ digits)) := Text.trimMatches_append hbefore hafter
    _ = '0' :: (s ++ digits) := by
      rw [hsplit]
      exact Text.trimMatches_between (by decide) hlast _

section Legal

variable {beyond : LowerCase} {text : Text}

/-- What a legal text is in lower case. -/
theorem of_addressLegal (h : addressLegal beyond text = true) :
    (toLowercase beyond text.trim).byteLen = 42 ∧
      ∀ c ∈ toLowercase beyond text.trim, legalChar c = true := by
  simp only [addressLegal] at h
  split_ifs at h with hcheck
  simp only [not_or, not_not] at hcheck
  obtain ⟨-, hprefix, hlength⟩ := hcheck
  refine ⟨hlength, ?_⟩
  obtain ⟨rest, hrest⟩ := List.isPrefixOf_iff_prefix.mp hprefix
  rw [← hrest] at h ⊢
  have hall : ∀ c ∈ rest, legalChar c = true := by simpa using h
  simp only [List.cons_append, List.nil_append, List.forall_mem_cons]
  exact ⟨by decide, by decide, hall⟩

/-- No quotation mark is legal. -/
theorem quote_not_mem (h : addressLegal beyond text = true) : '\"' ∉ text := by
  intro hquote
  have htrim : '\"' ∈ text.trim := Text.mem_trimMatches hquote (by decide)
  have hlegal := (of_addressLegal h).2 _ (mem_lowerFrom htrim (by decide) 0)
  exact absurd hlegal (by decide)

theorem length_trim_le (h : addressLegal beyond text = true) : text.trim.length ≤ 42 := by
  rw [← (of_addressLegal h).1]
  exact (le_length_lowerFrom 0 _).trans (Text.length_le_byteLen _)

/-- Digits alone are not legal. -/
theorem not_addressLegal_digits {values : List Nat} (hdigits : Digits text.trim values)
    (hforty : values.length = 40) : ¬ addressLegal beyond text = true := by
  intro h
  have hlength := (of_addressLegal h).1
  unfold toLowercase at hlength
  rw [byteLen_digits (lowerFrom_digits beyond _ hdigits 0).1, hforty] at hlength
  cases hlength

/-- **Forty digits behind the marker are legal**, with blanks around them. -/
theorem addressLegal_of_written (h : Written text) : addressLegal beyond text = true := by
  obtain ⟨before, digits, values, after, rfl, hdigits, hforty, hbefore, hafter⟩ := h
  have hsome : values ≠ [] := fun hnil => by simp [hnil] at hforty
  have htrim : Text.trim (before ++ ('0' :: 'x' :: (digits ++ after))) = '0' :: 'x' :: digits :=
    trim_marked before ['x'] hdigits hsome hbefore hafter
  have hlower : toLowercase beyond ('0' :: 'x' :: digits) =
      '0' :: 'x' :: lowerFrom beyond ('0' :: 'x' :: digits) 2 digits := rfl
  obtain ⟨hstay, hlegal⟩ := lowerFrom_digits beyond ('0' :: 'x' :: digits) hdigits 2
  have hlength : Text.byteLen (toLowercase beyond ('0' :: 'x' :: digits)) = 42 := by
    rw [hlower, Text.byteLen_cons, Text.byteLen_cons, byteLen_digits hstay, hforty]
    rfl
  unfold addressLegal
  rw [htrim, if_neg]
  · rw [hlower]
    exact hlegal
  · rw [hlength, hlower]
    simp

/-- A legal text that has the digits of 20 bytes starts with the marker and has no more digits. -/
theorem spelled_of_legal (h : addressLegal beyond text = true) (hread : HasDigits text 40) :
    Spelled text := by
  obtain ⟨values, hwrapped, hforty, -⟩ := hread
  obtain ⟨opening, k, padded, before, digits, after, closing, htext, hopening, hclosing, hpad⟩ :=
    hwrapped
  obtain ⟨rfl, hbefore, hafter, hdigits⟩ := hpad
  have hsome : values ≠ [] := fun hnil => by simp [hnil] at hforty
  -- no quotation mark is there to be read over
  have hnone {part : Text} (hpart : ∀ c ∈ part, c = '\"') (hsub : part ⊆ text) : part = [] := by
    apply List.eq_nil_iff_forall_not_mem.mpr
    intro c hc
    exact quote_not_mem h (hpart c hc ▸ hsub hc)
  have hstart : opening = [] :=
    hnone hopening fun c hc => htext ▸ List.mem_append_left _ hc
  have hend : closing = [] :=
    hnone hclosing fun c hc => htext ▸ List.mem_append_right _ (List.mem_append_right _ hc)
  rw [hstart, hend, List.nil_append, List.append_nil] at htext
  cases k with
  | zero =>
    -- without a marker the text is too short
    have htrim : text.trim = digits := by
      rw [htext]
      exact (Text.trimMatches_append hbefore hafter).trans (trim_digits hdigits)
    exact absurd h (not_addressLegal_digits (htrim ▸ hdigits) hforty)
  | succ k =>
    -- with anything between the marker and the digits it is too long
    have htext : text = '0' :: 'x' :: ((List.replicate k ['0', 'x']).flatten ++ before ++
        (digits ++ after)) := by
      rw [htext, List.replicate_succ, List.flatten_cons]
      simp
    have htrim : text.trim = '0' :: 'x' ::
        ((List.replicate k ['0', 'x']).flatten ++ before ++ digits) := by
      rw [htext]
      exact trim_marked [] ('x' :: ((List.replicate k ['0', 'x']).flatten ++ before)) hdigits hsome
        (by simp) hafter
    have hlength := length_trim_le h
    rw [htrim, List.length_cons, List.length_cons, List.length_append, hdigits.length_eq,
      hforty] at hlength
    have hnone : (List.replicate k ['0', 'x']).flatten ++ before = [] :=
      List.eq_nil_of_length_eq_zero (by omega)
    rw [hnone, List.nil_append] at htext
    exact ⟨digits, values, after, htext, hdigits, hforty, hafter⟩

end Legal

/-! ## What is decoded -/

section Decoded

variable {abi : Erc20Abi} {text : Text}

/-- A payload without a contract is decoded if its recipient is read. -/
theorem decode_plain (abi : Erc20Abi) {p : EthTransferPayload} {amount : U256}
    (hcontract : p.contractAddress.trim = []) (hto : p.toAddress.trim ≠ [])
    (hnumeric : NumericOk p amount) : ∃ gasPrice gas nonce, p.decode abi =
      (addressOf p.toAddress >>= fun recipient => .ok
        { nonce, toAddress := some recipient, value := amount, gasPrice, gas,
          data := p.extData.asBytes }) := by
  obtain ⟨gasPrice, hgasPrice⟩ := hnumeric.gasPrice
  obtain ⟨gas, hgas⟩ := hnumeric.gasLimit
  obtain ⟨nonce, hnonce⟩ := hnumeric.nonce
  refine ⟨gasPrice, gas, nonce, ?_⟩
  have hvalue : EthTransferPayload.convertField "value" p.value p.decimal.toNat = .ok amount := by
    unfold EthTransferPayload.convertField
    rw [hnumeric.value]
    rfl
  have hprice : EthTransferPayload.convertField "gas_price" p.gasPrice 9 = .ok gasPrice := by
    unfold EthTransferPayload.convertField
    rw [hgasPrice]
    rfl
  have hnotEmpty : p.toAddress ≠ [] := by
    intro hnil
    exact hto (by rw [hnil]; rfl)
  unfold EthTransferPayload.decode EthTransferPayload.destination
  cases haddress : addressOf p.toAddress with
  | ok a => simp [hcontract, hto, hnotEmpty, hvalue, hprice, hgas, hnonce]
  | err e => simp [hcontract, hto, hnotEmpty, hvalue]
  | panic why => simp [hcontract, hto, hnotEmpty, hvalue]

theorem decodesTo_of_spelled (h : Spelled text) : DecodesTo abi text := by
  obtain ⟨digits, values, after, rfl, hdigits, hforty, hafter⟩ := h
  intro p amount hto hcontract hnumeric
  have hsome : values ≠ [] := fun hnil => by simp [hnil] at hforty
  have htrim : Text.trim ('0' :: 'x' :: (digits ++ after)) = '0' :: 'x' :: digits :=
    trim_marked [] ['x'] hdigits hsome (by simp) hafter
  have hbytes : hexstrToVec ('0' :: 'x' :: (digits ++ after)) = .ok (packDigits values) := by
    rw [hexstrToVec_of_digits hdigits hafter, hexDecode_of_digits hdigits (by omega)]
  have htwenty : (packDigits values).length = 20 := by rw [length_packDigits, hforty]
  have haddress : addressOf ('0' :: 'x' :: (digits ++ after)) =
      .ok (BitVec.ofNat 160 (numberOf values)) := by
    unfold addressOf h160FromSlice
    rw [hbytes, ← ofBe_packDigits (by omega) (digits_lt hdigits)]
    exact if_pos htwenty
  obtain ⟨gasPrice, gas, nonce, hdecode⟩ := decode_plain abi hcontract
    (by rw [hto, htrim]; exact List.cons_ne_nil _ _) hnumeric
  rw [hto, haddress, Outcome.ok_bind] at hdecode
  exact ⟨_, _, hdecode, rfl, 'x', digits, values, Or.inl rfl, htrim, hdigits, hforty, rfl⟩

/-- A text that is decoded in a payload has the digits of 20 bytes. -/
theorem hasDigits_of_decodesTo (hsome : text.trim ≠ []) (h : DecodesTo abi text) :
    HasDigits text 40 := by
  obtain ⟨tx, address, hdecode, -⟩ :=
    h (unitPayload text []) _ rfl rfl (numericOk_unitPayload text [])
  obtain ⟨gasPrice, gas, nonce, heq⟩ := decode_plain abi (p := unitPayload text []) rfl
    hsome (numericOk_unitPayload text [])
  have hread : (unitPayload text []).toAddress = text := rfl
  rw [heq, hread] at hdecode
  obtain ⟨a, ha, -⟩ := Outcome.bind_eq_ok.mp hdecode
  have hcase := addressOf_cases text
  rw [ha] at hcase
  cases hcase with
  | read a hforty _ _ => exact hforty

/-- **Legal and decodable.** What is asked of the check holds of a text exactly if, where the text
is legal, it starts with the marker in lower case and has 40 hexadecimal digits and nothing but
blanks behind it. -/
theorem legalIsDecodable_iff (beyond : LowerCase) (abi : Erc20Abi) (text : Text) :
    LegalIsDecodable beyond abi text ↔ (addressLegal beyond text = true → Spelled text) := by
  constructor
  · intro ⟨hdecodes, _⟩ h
    have hsome : text.trim ≠ [] := by
      intro hnil
      have hlength := (of_addressLegal h).1
      rw [hnil] at hlength
      cases hlength
    exact spelled_of_legal h (hasDigits_of_decodesTo hsome (hdecodes h))
  · intro hspelled
    exact ⟨fun h => decodesTo_of_spelled (hspelled h), addressLegal_of_written⟩

end Decoded

/-! ## A letter that is no digit -/

/-- Forty times the letter `z`. -/
def notHexAddress : Text := '0' :: 'x' :: List.replicate 40 'z'

theorem not_legalIsDecodable_notHex :
    ¬ LegalIsDecodable (fun whole i => (whole.getD i ' ', [])) unitAbi notHexAddress := by
  intro ⟨hdecodes, _⟩
  have hlegal : addressLegal (fun whole i => (whole.getD i ' ', [])) notHexAddress = true := by
    decide +kernel
  obtain ⟨tx, address, hdecode, -⟩ :=
    hdecodes hlegal (unitPayload notHexAddress []) _ rfl rfl (numericOk_unitPayload _ _)
  have hrefused : (unitPayload notHexAddress []).decode unitAbi =
      .err (.decode (.hex (.invalidHexCharacter 'z' 0))) := by
    decide +kernel
  rw [hrefused] at hdecode
  cases hdecode

end Cashbox.Eth
