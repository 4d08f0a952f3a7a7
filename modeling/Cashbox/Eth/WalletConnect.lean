import Cashbox.Crypto.HexDigits
import Cashbox.Eth.Payload
import Cashbox.Eth.TokenAmount

/-!
# Transactions over a wallet connection

`EthWalletConnectTx::try_into` makes a transaction of the texts that an application sends. Amounts
arrive as quantities: the marker and the digits of the number, as few as possible. The value is read
as bytes, two digits each, so exactly the quantities with an even number of digits are read.

Two fields panic where they should be refused. A recipient whose digits are not 20 bytes fails the
assertion of `H160::from_slice`, and a value of more than 32 bytes that of `U256::from`.
-/

namespace Cashbox.Eth

open Cashbox.Lib Cashbox.Crypto

/-! ## Conversion -/

def TypedTxId.fromU8Id (n : UInt8) : Option TypedTxId :=
  if n = 0 then some .legacy
  else if n = 1 then some .accessList
  else if n = 2 then some .eip1559Transaction
  else none

structure EthWalletConnectTx where
  to' : Text
  data : Text
  gasPrice : Text
  gas : Text
  value : Text
  nonce : Text
  maxPriorityFeePerGas : Text
  typeTxId : UInt32
  deriving DecidableEq, Repr

/-- A field in decimal digits. -/
def decimalField (text : Text) : Outcome WalletError U256 :=
  (fromDecStr text).mapErr fun e => .custom e.toString

/-- A field in hexadecimal digits. -/
def hexField (text : Text) : Outcome WalletError Bytes :=
  (hexstrToVec text).mapErr fun e => .decode (.hex e)

/-- `U256::from` for bytes asserts that they fit. -/
def u256FromSlice (bytes : Bytes) : Outcome WalletError U256 :=
  if bytes.length ≤ 32 then .ok (BitVec.ofNat 256 (ofBe bytes)) else .panic .assertFailed

namespace EthWalletConnectTx

def actionOf (w : EthWalletConnectTx) : Outcome WalletError Action :=
  if w.to'.trim.isEmpty then .ok .create
  else do
    let address ← addressOf w.to'.trim
    .ok (.call address)

/-- The nonce in decimal digits. -/
def nonceDigits (w : EthWalletConnectTx) : Outcome WalletError Text :=
  if ['0', 'x'].isPrefixOf w.nonce then do
    let n ← (fromStrRadix16 (w.nonce.drop 2)).mapErr fun e => .decode (.int e)
    .ok (Nat.toDigits 10 n.toNat)
  else .ok w.nonce

def nonceOf (w : EthWalletConnectTx) : Outcome WalletError U256 := do
  let nonce ← w.nonceDigits
  decimalField nonce

/-- Maximum gas consumption, without a point. -/
def gasOf (w : EthWalletConnectTx) : Outcome WalletError U256 :=
  if '.' ∈ w.gas then .err (.custom ("input gas_limit illegal:" ++ String.ofList w.gas))
  else decimalField w.gas

def valueOf (w : EthWalletConnectTx) : Outcome WalletError U256 := do
  let bytes ← hexField w.value
  u256FromSlice bytes

/-- The transaction in the variant of its type. -/
def typedOf (w : EthWalletConnectTx) (transaction : Transaction) :
    Outcome WalletError TypedTransaction :=
  if 255 < w.typeTxId then
    .err (.custom "input type tx id should in the range of 0 to 255")
  else
    match TypedTxId.fromU8Id w.typeTxId.toUInt8 with
    | some .legacy => .ok (.legacy transaction)
    | some .accessList => .ok (.accessList { transaction, accessList := [] })
    | some .eip1559Transaction => do
      let maxPriorityFeePerGas ← decimalField w.maxPriorityFeePerGas
      .ok (.eip1559Transaction
        { transaction := { transaction, accessList := [] }, maxPriorityFeePerGas })
    | none => .err (.custom "unsupport transaction type")

def tryInto (w : EthWalletConnectTx) : Outcome WalletError TypedTransaction := do
  let action ← w.actionOf
  let nonce ← w.nonceOf
  -- the gas price is decimal; for a type with a priority fee it is the highest that is allowed
  let gasPrice ← decimalField w.gasPrice
  let gas ← w.gasOf
  let data ← hexField w.data
  let value ← w.valueOf
  w.typedOf { nonce, gasPrice, gas, action, value, data }

end EthWalletConnectTx

/-! ## What the texts mean -/

/-- A quantity: the marker and the digits of the number, without leading zeros. -/
def quantity (v : U256) : Text := '0' :: 'x' :: Nat.toDigits 16 v.toNat

/-- The text is the number in decimal digits. -/
def IsDecimal (text : Text) (n : U256) : Prop :=
  text.all Char.isDigit = true ∧ number text = n.toNat

/-- The text is the number in decimal digits, or in hexadecimal ones behind the marker. -/
def IsNonce (text : Text) (n : U256) : Prop :=
  IsDecimal text n ∨ ∃ digits values, text = '0' :: 'x' :: digits ∧ digits ≠ [] ∧
    Digits digits values ∧ numberOf values = n.toNat ∧ n.toNat < 2 ^ 64

/-- The text is the bytes, two digits each, behind the marker. -/
def IsData (text : Text) (bytes : Bytes) : Prop :=
  ∃ digits values, text = '0' :: 'x' :: digits ∧ Digits digits values ∧ values.length % 2 = 0 ∧
    bytes = packDigits values

/-- A blank text creates a contract; forty digits behind the marker are called, and blanks around
them are read over. -/
def IsAction (text : Text) : Action → Prop
  | .create => text.trim = []
  | .call address => ∃ digits values, text.trim = '0' :: 'x' :: digits ∧ Digits digits values ∧
      values.length = 40 ∧ address = BitVec.ofNat 160 (numberOf values)

/-- The texts are the fields of the transaction, and its value is a quantity. -/
structure Writes (w : EthWalletConnectTx) (tx : Transaction) : Prop where
  action : IsAction w.to' tx.action
  nonce : IsNonce w.nonce tx.nonce
  gasPrice : IsDecimal w.gasPrice tx.gasPrice
  gas : IsDecimal w.gas tx.gas
  data : IsData w.data tx.data
  value : w.value = quantity tx.value

/-- The variant that the type selects. -/
inductive Selects (w : EthWalletConnectTx) (tx : Transaction) : TypedTransaction → Prop where
  | legacy (htype : w.typeTxId = 0) : Selects w tx (.legacy tx)
  | accessList (htype : w.typeTxId = 1) :
      Selects w tx (.accessList { transaction := tx, accessList := [] })
  | eip1559Transaction (fee : U256) (htype : w.typeTxId = 2)
      (hfee : IsDecimal w.maxPriorityFeePerGas fee) :
      Selects w tx (.eip1559Transaction
        { transaction := { transaction := tx, accessList := [] }, maxPriorityFeePerGas := fee })

/-- The text has the digits of more than 32 bytes. -/
def TooLong (text : Text) : Prop := ∃ n, 64 < n ∧ HasDigits text n

/-- No field before the value is refused. -/
def ReachesValue (w : EthWalletConnectTx) : Prop :=
  w.nonceOf.isOk = true ∧ (decimalField w.gasPrice).isOk = true ∧ w.gasOf.isOk = true ∧
    (hexField w.data).isOk = true

/-- The recipient is blank, or its digits are not those of some other number of bytes. -/
def RecipientAnswered (w : EthWalletConnectTx) : Prop :=
  w.to'.trim = [] ∨ ¬ WrongLength w.to'.trim

/-- The value is not too long, unless a field before it is refused. -/
def ValueAnswered (w : EthWalletConnectTx) : Prop :=
  TooLong w.value → ReachesValue w → w.to'.trim ≠ [] ∧ Unreadable w.to'.trim

/-! ## Numbers in digits -/

theorem fromDecStr_of_isDecimal {text : Text} {n : U256} (h : IsDecimal text n) :
    fromDecStr text = .ok n := by
  obtain ⟨hdigits, hnumber⟩ := h
  have hn := n.isLt
  unfold fromDecStr
  rw [all_asBytes, if_pos hdigits, decDigits_eq hdigits (by decide)]
  unfold number at hnumber
  rw [hnumber, if_pos hn, BitVec.ofNat_toNat, BitVec.setWidth_eq]

theorem decimalField_of_isDecimal {text : Text} {n : U256} (h : IsDecimal text n) :
    decimalField text = .ok n := by
  unfold decimalField
  rw [fromDecStr_of_isDecimal h]
  rfl

theorem numberOf_append (values : List Nat) (d : Nat) :
    numberOf (values ++ [d]) = numberOf values * 16 + d := by
  unfold numberOf
  rw [List.foldl_append]
  rfl

/-- The digits of a number are read as it. -/
theorem digits_toDigits (n : Nat) : ∃ values, Digits (Nat.toDigits 16 n) values ∧
    numberOf values = n := by
  have hdigit : ∀ d < 16, toDigit16 (Nat.digitChar d) = some d := by decide
  induction n using Nat.strong_induction_on with
  | _ n ih =>
    rw [Nat.toDigits_eq_if (by decide)]
    split_ifs with hlt
    · exact ⟨[n], .cons (hdigit n hlt) .nil, by simp [numberOf]⟩
    · obtain ⟨values, hvalues, hnumber⟩ := ih (n / 16) (by omega)
      refine ⟨values ++ [n % 16], ?_, ?_⟩
      · exact List.rel_append hvalues (.cons (hdigit _ (Nat.mod_lt _ (by decide))) .nil)
      · rw [numberOf_append, hnumber]
        omega

/-- Digits are read while the number fits its word. -/
theorem radix16Digits_of_digits {s : Text} {values : List Nat} (h : Digits s values) {n : Nat}
    (hlt : values.foldl (fun n d => n * 16 + d) n < 2 ^ 64) :
    radix16Digits s n = .ok (UInt64.ofNat (values.foldl (fun n d => n * 16 + d) n)) := by
  have hgrows : ∀ (values : List Nat) (n : Nat), n ≤ values.foldl (fun n d => n * 16 + d) n := by
    intro values
    induction values with
    | nil => simp
    | cons d values ih =>
      intro n
      exact (show n ≤ n * 16 + d by omega).trans (ih (n * 16 + d))
  induction h generalizing n with
  | nil => rfl
  | @cons c d s values hdigit _ ih =>
    have hnow : n * 16 + d < 2 ^ 64 := (hgrows values _).trans_lt hlt
    unfold radix16Digits
    simp only [hdigit, if_pos hnow, List.foldl_cons]
    exact ih hlt

theorem fromStrRadix16_of_digits {s : Text} {values : List Nat} (h : Digits s values)
    (hsome : s ≠ []) (hlt : numberOf values < 2 ^ 64) :
    fromStrRadix16 s = .ok (UInt64.ofNat (numberOf values)) := by
  have hread := radix16Digits_of_digits h hlt
  cases h with
  | nil => exact absurd rfl hsome
  | @cons c d s values hdigit hrest =>
    -- a sign is no digit
    have hplus : c ≠ '+' := by
      rintro rfl
      cases hdigit
    have hminus : c ≠ '-' := by
      rintro rfl
      cases hdigit
    unfold fromStrRadix16
    split
    · rename_i heq
      cases heq
    · rename_i heq
      exact absurd (List.cons.inj heq).1 hplus
    · rename_i heq
      exact absurd (List.cons.inj heq).1 hminus
    · rename_i heq
      exact absurd (List.cons.inj heq).1 hplus
    · exact hread

/-! ## Fields that are read -/

section Read

variable {w : EthWalletConnectTx} {tx : Transaction}

theorem actionOf_of_isAction {action : Action} (h : IsAction w.to' action) :
    w.actionOf = .ok action := by
  unfold EthWalletConnectTx.actionOf
  cases action with
  | create =>
    have hblank : w.to'.trim = [] := h
    simp [hblank]
  | call address =>
    obtain ⟨digits, values, htrim, hdigits, hforty, rfl⟩ := h
    have hbytes : hexstrToVec ('0' :: 'x' :: digits) = .ok (packDigits values) := by
      have hread := hexstrToVec_of_digits hdigits (List.forall_mem_nil _)
      rwa [List.append_nil, hexDecode_of_digits hdigits (by omega)] at hread
    have htwenty : (packDigits values).length = 20 := by rw [length_packDigits, hforty]
    have haddress : addressOf ('0' :: 'x' :: digits) =
        .ok (BitVec.ofNat 160 (numberOf values)) := by
      unfold addressOf h160FromSlice
      rw [hbytes, ← ofBe_packDigits (by omega) (digits_lt hdigits)]
      exact if_pos htwenty
    simp [htrim, haddress]

theorem nonceOf_of_isNonce {nonce : U256} (h : IsNonce w.nonce nonce) : w.nonceOf = .ok nonce := by
  unfold EthWalletConnectTx.nonceOf EthWalletConnectTx.nonceDigits
  rcases h with hdecimal | ⟨digits, values, htext, hsome, hdigits, hnumber, hlt⟩
  · -- decimal digits do not start with the marker
    have hmarker : ¬ ['0', 'x'].isPrefixOf w.nonce = true := by
      intro hstart
      have hx : 'x' ∈ w.nonce := (List.isPrefixOf_iff_prefix.mp hstart).subset (by simp)
      exact absurd (List.all_eq_true.mp hdecimal.1 _ hx) (by decide)
    rw [if_neg hmarker]
    exact decimalField_of_isDecimal hdecimal
  · have hread := fromStrRadix16_of_digits hdigits hsome (hnumber ▸ hlt)
    have hword : (UInt64.ofNat nonce.toNat).toNat = nonce.toNat := by
      rw [UInt64.toNat_ofNat']
      exact Nat.mod_eq_of_lt hlt
    have hdecimal : IsDecimal (Nat.toDigits 10 nonce.toNat) nonce := by
      constructor
      · apply List.all_eq_true.mpr
        exact fun c hc => Nat.isDigit_of_mem_toDigits (by decide) (by decide) hc
      · exact Nat.ofDigitChars_ten_toDigits
    have hdrop : List.drop 2 ('0' :: 'x' :: digits) = digits := rfl
    rw [htext, if_pos (by simp), hdrop, hread, hnumber]
    show decimalField (Nat.toDigits 10 (UInt64.ofNat nonce.toNat).toNat) = _
    rw [hword]
    exact decimalField_of_isDecimal hdecimal

theorem gasOf_of_isDecimal {gas : U256} (h : IsDecimal w.gas gas) : w.gasOf = .ok gas := by
  unfold EthWalletConnectTx.gasOf
  rw [if_neg (not_mem_of_digits h.1), decimalField_of_isDecimal h]

theorem hexField_of_isData {text : Text} {bytes : Bytes} (h : IsData text bytes) :
    hexField text = .ok bytes := by
  obtain ⟨digits, values, rfl, hdigits, heven, rfl⟩ := h
  have hread := hexstrToVec_of_digits hdigits (List.forall_mem_nil _)
  rw [List.append_nil, hexDecode_of_digits hdigits heven] at hread
  unfold hexField
  rw [hread]
  rfl

/-- A quantity is read exactly if its digits are even in number. -/
theorem valueOf_of_quantity {v : U256} (h : w.value = quantity v) : w.valueOf =
    if (Nat.toDigits 16 v.toNat).length % 2 = 0 then .ok v
    else .err (.decode (.hex .oddLength)) := by
  obtain ⟨values, hdigits, hnumber⟩ := digits_toDigits v.toNat
  have hread := hexstrToVec_of_digits hdigits (List.forall_mem_nil _)
  rw [List.append_nil] at hread
  have hlength := hdigits.length_eq
  unfold EthWalletConnectTx.valueOf hexField quantity at *
  rw [h, hread]
  split_ifs with heven
  · have hsixtyFour : (Nat.toDigits 16 v.toNat).length ≤ 64 :=
      (Nat.length_toDigits_le_iff (by decide) (by decide)).mpr v.isLt
    have hfits : (packDigits values).length ≤ 32 := by
      rw [length_packDigits]
      omega
    rw [hexDecode_of_digits hdigits (by omega)]
    show u256FromSlice (packDigits values) = _
    unfold u256FromSlice
    rw [if_pos hfits, ofBe_packDigits (by omega) (digits_lt hdigits), hnumber, BitVec.ofNat_toNat,
      BitVec.setWidth_eq]
  · rw [hexDecode_of_odd hdigits (by omega)]
    rfl

theorem typedOf_of_selects {typed : TypedTransaction} (h : Selects w tx typed) :
    w.typedOf tx = .ok typed := by
  unfold EthWalletConnectTx.typedOf
  cases h with
  | legacy htype =>
    rw [htype]
    rfl
  | accessList htype =>
    rw [htype]
    rfl
  | eip1559Transaction fee htype hfee =>
    rw [htype]
    show (decimalField w.maxPriorityFeePerGas >>= fun fee => _) = _
    rw [decimalField_of_isDecimal hfee]
    rfl

/-- **The value is kept** exactly if its quantity has an even number of digits. -/
theorem tryInto_of_writes {typed : TypedTransaction} (h : Writes w tx) (hs : Selects w tx typed) :
    w.tryInto = .ok typed ↔ (Nat.toDigits 16 tx.value.toNat).length % 2 = 0 := by
  unfold EthWalletConnectTx.tryInto
  rw [actionOf_of_isAction h.action, Outcome.ok_bind, nonceOf_of_isNonce h.nonce, Outcome.ok_bind,
    decimalField_of_isDecimal h.gasPrice, Outcome.ok_bind, gasOf_of_isDecimal h.gas,
    Outcome.ok_bind, hexField_of_isData h.data, Outcome.ok_bind, valueOf_of_quantity h.value]
  split_ifs with heven
  · exact iff_of_true (typedOf_of_selects hs) heven
  · apply iff_of_false _ heven
    simp

end Read

/-! ## Fields that panic -/

theorem decimalField_avoids (text : Text) (p : Panic) : Outcome.Avoids p (decimalField text) := by
  -- the digits are read, or there are too many of them
  have hdigits : ∀ (bytes : Bytes) (n : Nat), Outcome.Avoids p (decDigits bytes n) := by
    intro bytes
    induction bytes with
    | nil => exact fun n => Outcome.avoids_ok p _
    | cons b bytes ih =>
      intro n
      unfold decDigits
      split_ifs
      · exact ih _
      · exact Outcome.avoids_err p _
  unfold decimalField fromDecStr
  apply Outcome.Avoids.mapErr
  split_ifs
  · exact hdigits _ 0
  · exact Outcome.avoids_err p _

theorem hexField_avoids (text : Text) (p : Panic) : Outcome.Avoids p (hexField text) :=
  (hexstrToVec_avoids text p).mapErr

section Panics

variable {w : EthWalletConnectTx}

theorem nonceOf_avoids (p : Panic) : Outcome.Avoids p w.nonceOf := by
  have hdigits : ∀ (s : Text) (n : Nat), Outcome.Avoids p (radix16Digits s n) := by
    intro s
    induction s with
    | nil => exact fun n => Outcome.avoids_ok p _
    | cons c s ih =>
      intro n
      unfold radix16Digits
      cases toDigit16 c with
      | none => exact Outcome.avoids_err p _
      | some d =>
        dsimp only
        split_ifs
        · exact ih _
        · exact Outcome.avoids_err p _
  have hradix : ∀ s, Outcome.Avoids p (fromStrRadix16 s) := by
    intro s
    unfold fromStrRadix16
    split
    · exact Outcome.avoids_err p _
    · exact Outcome.avoids_err p _
    · exact Outcome.avoids_err p _
    · exact hdigits _ 0
    · exact hdigits _ 0
  unfold EthWalletConnectTx.nonceOf EthWalletConnectTx.nonceDigits
  apply Outcome.Avoids.bind
  · split_ifs
    · exact (hradix _).mapErr.bind fun n => Outcome.avoids_ok p _
    · exact Outcome.avoids_ok p _
  · exact fun text => decimalField_avoids text p

theorem gasOf_avoids (p : Panic) : Outcome.Avoids p w.gasOf := by
  unfold EthWalletConnectTx.gasOf
  split_ifs
  · exact Outcome.avoids_err p _
  · exact decimalField_avoids _ p

theorem typedOf_avoids (tx : Transaction) (p : Panic) : Outcome.Avoids p (w.typedOf tx) := by
  unfold EthWalletConnectTx.typedOf
  split_ifs
  · exact Outcome.avoids_err p _
  · split
    · exact Outcome.avoids_ok p _
    · exact Outcome.avoids_ok p _
    · exact (decimalField_avoids _ p).bind fun fee => Outcome.avoids_ok p _
    · exact Outcome.avoids_err p _

/-- The recipient is read, refused or panics. -/
theorem actionOf_cases (w : EthWalletConnectTx) :
    ((∃ action, w.actionOf = .ok action) ∧ RecipientAnswered w ∧
      ¬ (w.to'.trim ≠ [] ∧ Unreadable w.to'.trim)) ∨
    ((∃ e, w.actionOf = .err e) ∧ RecipientAnswered w ∧
      w.to'.trim ≠ [] ∧ Unreadable w.to'.trim) ∨
    (w.actionOf = .panic .assertFailed ∧ ¬ RecipientAnswered w) := by
  unfold EthWalletConnectTx.actionOf RecipientAnswered
  by_cases hblank : w.to'.trim = []
  · left
    simp [hblank]
  · rw [if_neg fun hempty => hblank (List.isEmpty_iff.mp hempty)]
    have hcase := addressOf_cases w.to'.trim
    generalize addressOf w.to'.trim = r at hcase ⊢
    cases hcase with
    | read a hforty hlength _ =>
      left
      have hread : ¬ Unreadable w.to'.trim := fun hunread => hunread 40 hforty
      simp [hlength, hread]
    | refused e hunread =>
      right; left
      simp [hunread, hunread.not_wrongLength, hblank]
    | wrongLength hlength _ _ =>
      right; right
      simp [hlength, hblank]

/-- The value panics exactly if it is too long. -/
theorem valueOf_ne_panic (w : EthWalletConnectTx) :
    (∀ why, w.valueOf ≠ .panic why) ↔ ¬ TooLong w.value := by
  unfold EthWalletConnectTx.valueOf TooLong
  rw [Outcome.bind_ne_panic]
  constructor
  · rintro ⟨-, hfits⟩ ⟨_, hlong, values, hwrapped, rfl, heven⟩
    have hread := hexstrToVec_eq_ok.mpr ⟨values, hwrapped, heven, rfl⟩
    apply hfits (packDigits values) (Outcome.mapErr_eq_ok.mpr hread) .assertFailed
    refine if_neg ?_
    rw [length_packDigits]
    omega
  · intro hshort
    refine ⟨hexField_avoids w.value, fun bytes hbytes why => ?_⟩
    have hfits : bytes.length ≤ 32 := by
      by_contra hlong
      have hread := Outcome.mapErr_eq_ok.mp hbytes
      exact hshort ⟨2 * bytes.length, by omega, (hasDigits_iff hread).mpr rfl⟩
    unfold u256FromSlice
    rw [if_pos hfits]
    exact Outcome.avoids_ok why _

/-- **Every transaction is answered** exactly if its recipient and its value are. -/
theorem tryInto_ne_panic (w : EthWalletConnectTx) :
    (∀ why, w.tryInto ≠ .panic why) ↔ RecipientAnswered w ∧ ValueAnswered w := by
  unfold EthWalletConnectTx.tryInto
  simp only [Outcome.bind_ne_panic]
  rcases actionOf_cases w with ⟨⟨action, haction⟩, hanswered, hread⟩ |
      ⟨⟨e, herr⟩, hanswered, hread⟩ | ⟨hpanic, hnot⟩
  · -- the recipient is read, so the value decides
    simp only [haction, hanswered, true_and]
    constructor
    · rintro ⟨-, h⟩ hlong ⟨hnonce, hprice, hgas, hdata⟩
      obtain ⟨nonce, hnonce⟩ := Outcome.isOk_iff.mp hnonce
      obtain ⟨gasPrice, hprice⟩ := Outcome.isOk_iff.mp hprice
      obtain ⟨gas, hgas⟩ := Outcome.isOk_iff.mp hgas
      obtain ⟨data, hdata⟩ := Outcome.isOk_iff.mp hdata
      have hvalue := ((((h action rfl).2 nonce hnonce).2 gasPrice hprice).2 gas hgas).2 data hdata
      exact absurd hlong ((valueOf_ne_panic w).mp hvalue.1)
    · intro hvalue
      refine ⟨fun why h => (nomatch h), fun action _ => ⟨nonceOf_avoids, fun nonce hnonce =>
        ⟨decimalField_avoids w.gasPrice, fun gasPrice hprice => ⟨gasOf_avoids, fun gas hgas =>
          ⟨hexField_avoids w.data, fun data hdata => ⟨?_, fun value _ =>
            typedOf_avoids _⟩⟩⟩⟩⟩⟩
      apply (valueOf_ne_panic w).mpr
      intro hlong
      exact hread (hvalue hlong ⟨Outcome.isOk_iff.mpr ⟨nonce, hnonce⟩,
        Outcome.isOk_iff.mpr ⟨gasPrice, hprice⟩, Outcome.isOk_iff.mpr ⟨gas, hgas⟩,
        Outcome.isOk_iff.mpr ⟨data, hdata⟩⟩)
  · -- the recipient is refused, and nothing else is looked at
    apply iff_of_true
    · simp [herr]
    · exact ⟨hanswered, fun _ _ => hread⟩
  · apply iff_of_false
    · simp [hpanic]
    · exact fun h => hnot h.1

/-- **Transactions over a wallet connection.** Whatever the other fields are, the value and they are
kept exactly if the quantity of the value has an even number of digits; and any texts at all are
answered exactly if a recipient has no other number of bytes than 20 and a value that is looked at
has no more than 32. -/
theorem tryInto_spec (w : EthWalletConnectTx) :
    (∀ tx typed, Writes w tx → Selects w tx typed →
      (w.tryInto = .ok typed ↔ (Nat.toDigits 16 tx.value.toNat).length % 2 = 0)) ∧
    ((∀ why, w.tryInto ≠ .panic why) ↔ RecipientAnswered w ∧ ValueAnswered w) :=
  ⟨fun _ _ => tryInto_of_writes, tryInto_ne_panic w⟩

end Panics

/-! ## A quantity of each kind -/

/-- A transfer with a priority fee of some value. -/
def connectTx (value : U256) : EthWalletConnectTx where
  to' := unitAddress
  data := ['0', 'x']
  gasPrice := ['2', '0']
  gas := ['2', '1', '0', '0', '0']
  value := quantity value
  nonce := ['0', 'x', '1', 'f']
  maxPriorityFeePerGas := ['1']
  typeTxId := 2

/-- What its texts mean. -/
def connectMeaning (value : U256) : Transaction where
  nonce := 31
  gasPrice := 20
  gas := 21000
  action := .call (BitVec.ofNat 160 (numberOf (List.replicate 40 10)))
  value := value
  data := []

theorem writes_connectTx (value : U256) : Writes (connectTx value) (connectMeaning value) where
  action := by
    have htrim : unitAddress.trim = unitAddress := by decide +kernel
    refine ⟨List.replicate 40 'a', List.replicate 40 10, htrim, ?_, rfl, rfl⟩
    exact List.forall₂_iff_get.mpr ⟨rfl, by decide +kernel⟩
  nonce := by
    have hlt : (31 : U256).toNat < 2 ^ 64 := by decide
    exact Or.inr ⟨['1', 'f'], [1, 15], rfl, by simp, .cons rfl (.cons rfl .nil), rfl, hlt⟩
  gasPrice := ⟨rfl, rfl⟩
  gas := ⟨rfl, rfl⟩
  data := ⟨[], [], rfl, .nil, rfl, rfl⟩
  value := rfl

theorem selects_connectTx (value : U256) : Selects (connectTx value) (connectMeaning value)
    (.eip1559Transaction
      { transaction := { transaction := connectMeaning value, accessList := [] }
        maxPriorityFeePerGas := 1 }) :=
  .eip1559Transaction 1 rfl ⟨rfl, rfl⟩

/-- The quantity of 16 has two digits. -/
theorem tryInto_spec_sixteen :
    (connectTx 16).tryInto = .ok (.eip1559Transaction
      { transaction := { transaction := connectMeaning 16, accessList := [] }
        maxPriorityFeePerGas := 1 }) :=
  ((tryInto_spec (connectTx 16)).1 _ _ (writes_connectTx 16) (selects_connectTx 16)).mpr (by decide)

/-- That of 1 has one. -/
theorem not_kept_one : ¬ ∀ w tx typed, Writes w tx → Selects w tx typed →
    w.tryInto = .ok typed := by
  intro h
  have hkept := h _ _ _ (writes_connectTx 1) (selects_connectTx 1)
  have hrefused : (connectTx 1).tryInto = .err (.decode (.hex .oddLength)) := by
    decide +kernel
  rw [hrefused] at hkept
  cases hkept

end Cashbox.Eth
