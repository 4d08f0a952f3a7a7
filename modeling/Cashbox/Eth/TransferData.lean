import Cashbox.Crypto.Hex
import Cashbox.Eth.Payload

/-!
# The text in a transfer's data

`decode_tranfer_data` gets back the text that a payload attaches to a transfer. In a token transfer
it comes after the call, which takes 138 bytes of the hexadecimal text with its marker; in a plain
transfer it is all of the data.

The text is always found again. No text is mistaken for a call, since the first byte of a call is
none that a character starts with. But a call whose text ends before the 138 bytes, or has a
character across their end, panics: the slice behind them does not exist and is unwrapped.
-/

namespace Cashbox.Eth

open Cashbox.Lib Cashbox.Crypto

/-! ## Decoding -/

/-- An error of `Error::Decoder`, whose text is the message or the debug output of the cause. -/
inductive TransferDataError where
  | decoder (message : String)
  | fromUtf8 (bytes : Bytes)
  deriving DecidableEq, Repr

/-- The marker and the selector of `transfer(address,uint256)`. -/
def transferPrefix : Text := ['0', 'x', 'a', '9', '0', '5', '9', 'c', 'b', 'b']

/-- The digits of the text. -/
def additionOf (input : Text) : Outcome TransferDataError Text :=
  if transferPrefix.isPrefixOf input then
    let startLen := 2 + 8
    .ofSome (Text.dropBytes (startLen + 64 * 2) input)
  else .ofSome (Text.dropBytes 2 input)

def decodeTranferData (input : Text) : Outcome TransferDataError Text :=
  if ¬ ['0', 'x'].isPrefixOf input then .err (.decoder "data format error")
  else do
    let addition ← additionOf input
    match (hexDecode addition.asBytes : Outcome FromHexError Bytes) with
    | .ok data => Outcome.okOr (.fromUtf8 data) (Text.fromUtf8 data)
    -- what is no hexadecimal text is returned as it is
    | .err _ => .ok input
    | .panic why => .panic why

/-- The text has an end of a character at this byte. -/
def Boundary (n : Nat) (input : Text) : Prop :=
  ∃ before after, input = before ++ after ∧ before.byteLen = n

/-! ## Calls and texts -/

theorem hexEncode_append (a b : Bytes) : hexEncode (a ++ b) = hexEncode a ++ hexEncode b :=
  List.flatMap_append

theorem byteLen_hexEncode (bytes : Bytes) : (hexEncode bytes).byteLen = 2 * bytes.length :=
  length_asBytes_hexEncode bytes

/-- The first byte of a call starts no character. -/
theorem not_transfer_of_utf8 (ext : Text) :
    ¬ transferPrefix <+: '0' :: 'x' :: hexEncode ext.asBytes := by
  intro h
  simp only [transferPrefix, List.cons_prefix_cons, true_and] at h
  cases ext with
  | nil => exact absurd h (by simp [Text.asBytes, hexEncode])
  | cons c s =>
    -- the first byte of the first character
    have hpos : 0 < (String.utf8EncodeChar c).length := by
      rw [String.length_utf8EncodeChar]
      exact c.utf8Size_pos
    have hfirst : ((String.utf8EncodeChar c)[0]).IsUTF8FirstByte :=
      UInt8.isUTF8FirstByte_getElem_utf8EncodeChar.mpr rfl
    obtain ⟨b, rest, hbytes⟩ := List.exists_cons_of_ne_nil (List.ne_nil_of_length_pos hpos)
    simp only [hbytes, List.getElem_cons_zero] at hfirst
    have hb := b.toNat_lt
    simp only [Text.asBytes, List.flatMap_cons, hbytes, List.cons_append, hexEncode,
      List.nil_append, List.cons_prefix_cons] at h
    obtain ⟨hhigh, hlow, -⟩ := h
    have hten : ∀ n < 16, 'a' = hexDigit n → n = 10 := by decide
    have hnine : ∀ n < 16, '9' = hexDigit n → n = 9 := by decide
    have h10 := hten _ (by omega) hhigh
    have h9 := hnine _ (by omega) hlow
    have heq : b = 0xa9 := by
      apply UInt8.toNat_inj.mp
      show b.toNat = 169
      omega
    rw [heq] at hfirst
    exact absurd hfirst (by decide)

/-- The digits behind a call are those of the text. -/
theorem additionOf_transfer (recipient : H160) (amount : U256) (bytes : Bytes) :
    additionOf ('0' :: 'x' :: hexEncode (erc20Transfer recipient amount ++ bytes)) =
      .ok (hexEncode bytes) := by
  have hselector : transferPrefix = '0' :: 'x' :: hexEncode transferSelector := by decide
  have hsplit : '0' :: 'x' :: hexEncode (erc20Transfer recipient amount ++ bytes) =
      ('0' :: 'x' :: hexEncode (erc20Transfer recipient amount)) ++ hexEncode bytes := by
    rw [hexEncode_append]
    rfl
  have hprefix :
      transferPrefix <+: '0' :: 'x' :: hexEncode (erc20Transfer recipient amount ++ bytes) := by
    rw [hselector]
    simp only [erc20Transfer, List.append_assoc, hexEncode_append transferSelector]
    exact List.prefix_append _ _
  have hlength : 2 + 8 + 64 * 2 =
      Text.byteLen ('0' :: 'x' :: hexEncode (erc20Transfer recipient amount)) := by
    rw [Text.byteLen_cons, Text.byteLen_cons, byteLen_hexEncode]
    simp only [erc20Transfer, List.length_append, beBytes_length]
    rfl
  unfold additionOf
  rw [if_pos (List.isPrefixOf_iff_prefix.mpr hprefix), hsplit]
  simp only [hlength, Text.dropBytes_append]
  rfl

theorem additionOf_plain {digits : Text} (h : ¬ transferPrefix <+: '0' :: 'x' :: digits) :
    additionOf ('0' :: 'x' :: digits) = .ok digits := by
  unfold additionOf
  rw [if_neg fun hprefix => h (List.isPrefixOf_iff_prefix.mp hprefix)]
  exact congrArg Outcome.ofSome (Text.dropBytes_append ['0', 'x'] digits)

/-- The digits of a text are decoded to it. -/
theorem decodeTranferData_of_addition {digits ext : Text}
    (h : additionOf ('0' :: 'x' :: digits) = .ok (hexEncode ext.asBytes)) :
    decodeTranferData ('0' :: 'x' :: digits) = .ok ext := by
  unfold decodeTranferData
  rw [if_neg (by simp), h, Outcome.ok_bind, hexDecode_hexEncode]
  show Outcome.okOr _ (Text.fromUtf8 ext.asBytes) = _
  rw [Text.fromUtf8_asBytes]
  rfl

/-! ## When it panics -/

theorem boundary_iff {n : Nat} {input : Text} :
    Boundary n input ↔ ∃ rest, Text.dropBytes n input = some rest := by
  constructor
  · rintro ⟨before, after, rfl, rfl⟩
    exact ⟨after, Text.dropBytes_append before after⟩
  · rintro ⟨rest, h⟩
    obtain ⟨before, rfl, hlength⟩ := Text.eq_append_of_dropBytes h
    exact ⟨before, rest, rfl, hlength⟩

theorem not_panic_of_addition {input addition : Text} (h : additionOf input = .ok addition)
    (why : Panic) : decodeTranferData input ≠ .panic why := by
  unfold decodeTranferData
  split_ifs
  · rw [h, Outcome.ok_bind]
    cases hdecode : (hexDecode addition.asBytes : Outcome FromHexError Bytes) with
    | ok data =>
      show Outcome.okOr _ (Text.fromUtf8 data) ≠ _
      cases Text.fromUtf8 data with
      | some s => exact Outcome.avoids_ok why s
      | none => exact Outcome.avoids_err why _
    | err e => exact Outcome.avoids_ok why input
    | panic p => exact absurd hdecode (hexDecode_avoids _ p)
  · exact Outcome.avoids_err why _

/-- An input is answered exactly if it is no call, or has a boundary behind the call. -/
theorem not_panic_iff (input : Text) : (∀ why, decodeTranferData input ≠ .panic why) ↔
    (transferPrefix <+: input → Boundary 138 input) := by
  by_cases hcall : transferPrefix <+: input
  · simp only [hcall, true_imp_iff, boundary_iff]
    have haddition : additionOf input = .ofSome (Text.dropBytes 138 input) :=
      if_pos (List.isPrefixOf_iff_prefix.mpr hcall)
    cases hdrop : Text.dropBytes 138 input with
    | some rest =>
      rw [hdrop] at haddition
      exact iff_of_true (not_panic_of_addition haddition) ⟨rest, rfl⟩
    | none =>
      rw [hdrop] at haddition
      have hmarker : ['0', 'x'] <+: input := List.IsPrefix.trans (by decide) hcall
      have hpanic : decodeTranferData input = .panic .unwrapFailed := by
        unfold decodeTranferData
        rw [if_neg (not_not.mpr (List.isPrefixOf_iff_prefix.mpr hmarker)), haddition]
        rfl
      apply iff_of_false
      · exact fun h => h _ hpanic
      · simp
  · apply iff_of_true _ fun h => absurd h hcall
    intro why
    by_cases hmarker : ['0', 'x'] <+: input
    · obtain ⟨digits, rfl⟩ := hmarker
      exact not_panic_of_addition (additionOf_plain hcall) why
    · unfold decodeTranferData
      rw [if_pos fun h => hmarker (List.isPrefixOf_iff_prefix.mp h)]
      exact Outcome.avoids_err why _

/-- **The text in a transfer's data.** The text of a token transfer and that of a plain transfer
are found again, and an input is answered at all exactly if it is no call or has a boundary at the
end of the call. -/
theorem decodeTranferData_spec (recipient : H160) (amount : U256) (ext input : Text) :
    decodeTranferData ('0' :: 'x' :: hexEncode (erc20Transfer recipient amount ++ ext.asBytes)) =
        .ok ext ∧
      decodeTranferData ('0' :: 'x' :: hexEncode ext.asBytes) = .ok ext ∧
      ((∀ why, decodeTranferData input ≠ .panic why) ↔
        (transferPrefix <+: input → Boundary 138 input)) :=
  ⟨decodeTranferData_of_addition (additionOf_transfer recipient amount ext.asBytes),
    decodeTranferData_of_addition (additionOf_plain (not_transfer_of_utf8 ext)),
    not_panic_iff input⟩

/-- A call that is cut short after its selector. -/
theorem not_answered_cut : ¬ ∀ why, decodeTranferData transferPrefix ≠ .panic why := by
  intro h
  exact h .unwrapFailed (by decide +kernel)

end Cashbox.Eth
