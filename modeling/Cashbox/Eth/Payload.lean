import Cashbox.Crypto.HexDigits

/-!
# Transfer payloads

`EthTransferPayload::decode` turns the texts that a user enters into a raw
transaction. A payload is meant to be a token transfer when it names a contract and
a plain transfer when it does not.

That is what it does except in three cases. The check for a destination is passed when
only one of the two addresses is empty, and without a recipient the result creates a
contract. An address whose digits are not 20 bytes panics instead of being refused. And
forty digits are taken for an address also behind several markers, between quotation marks
or between blanks. These cases together are exactly the inputs that `Accepted` leaves out.

The contract interface library is a parameter.
-/

namespace Cashbox.Eth

open Cashbox.Lib Cashbox.Crypto

/-! ## Errors -/

/-- An error whose debug output is the text of `WalletError::Decode`. -/
inductive DecodeCause where
  | hex (error : FromHexError)
  | int (error : ParseIntError)
  deriving DecidableEq, Repr

inductive WalletError where
  | custom (message : String)
  | decode (cause : DecodeCause)
  | ethTx (message : String)
  deriving DecidableEq, Repr

/-! ## The contract interface -/

inductive Token where
  | address (address : H160)
  | uint (value : U256)
  deriving DecidableEq, Repr

/-- The contract of `Erc20.abi`, loaded by the interface library. -/
structure Erc20Abi where
  /-- The function with this name, then its `encode_input`. -/
  encodeInput : String → List Token → Except String Bytes

/-- The first four bytes of the hash of `transfer(address,uint256)`. -/
def transferSelector : Bytes := [0xa9, 0x05, 0x9c, 0xbb]

/-- The call `transfer(address, value)`: the selector and two words of 32 bytes. -/
def erc20Transfer (address : H160) (value : U256) : Bytes :=
  transferSelector ++ beBytes 32 address.toNat ++ beBytes 32 value.toNat

/-- What the code relies on: the library encodes a transfer as the interface says. -/
def Erc20Abi.EncodesTransfer (abi : Erc20Abi) : Prop :=
  ∀ address value, abi.encodeInput "transfer" [.address address, .uint value] =
    .ok (erc20Transfer address value)

def getErc20TransferData (abi : Erc20Abi) (address : H160) (value : U256) :
    Outcome WalletError Bytes :=
  (Outcome.ofExcept (abi.encodeInput "transfer" [.address address, .uint value])).mapErr .ethTx

/-! ## Payloads -/

structure EthTransferPayload where
  fromAddress : Text
  toAddress : Text
  contractAddress : Text
  /-- unit ETH -/
  value : Text
  nonce : Text
  gasPrice : Text
  gasLimit : Text
  decimal : UInt32
  extData : Text
  deriving DecidableEq, Repr

/-- `H160::from_slice` asserts the length. -/
def h160FromSlice (bytes : Bytes) : Outcome WalletError H160 :=
  if bytes.length = 20 then .ok (BitVec.ofNat 160 (ofBe bytes)) else .panic .assertFailed

/-- An address field as an address. -/
def addressOf (address : Text) : Outcome WalletError H160 := do
  let bytes ← (hexstrToVec address).mapErr fun e => .decode (.hex e)
  h160FromSlice bytes

namespace EthTransferPayload

def trim (p : EthTransferPayload) : EthTransferPayload where
  fromAddress := p.fromAddress.trim
  toAddress := p.toAddress.trim
  contractAddress := p.contractAddress.trim
  value := p.value.trim
  nonce := p.nonce.trim
  gasPrice := p.gasPrice.trim
  gasLimit := p.gasLimit.trim
  decimal := p.decimal
  extData := p.extData.trim

/-- A field that has to be convertible. -/
def convertField (name : String) (value : Text) (decimal : Nat) : Outcome WalletError U256 := do
  let amount ← convertToken value decimal
  Outcome.okOr (.custom ("input " ++ name ++ " illegal:" ++ String.ofList value)) amount

/-- The recipient and the data. -/
def destination (abi : Erc20Abi) (p : EthTransferPayload) (amount : U256) (data : Bytes) :
    Outcome WalletError (Option H160 × Bytes) :=
  if p.toAddress.trim.isEmpty then .ok (none, data)
  else if ¬ p.contractAddress.trim.isEmpty then do
    let contractAddress ← addressOf p.contractAddress
    let recipient ← addressOf p.toAddress
    let encodeData ← getErc20TransferData abi recipient amount
    .ok (some contractAddress, encodeData ++ data)
  else do
    let recipient ← addressOf p.toAddress
    .ok (some recipient, data)

/-- Maximum gas consumption, without a point. -/
def gasLimitOf (p : EthTransferPayload) : Outcome WalletError U256 :=
  if '.' ∈ p.gasLimit then .err (.custom ("input gas_limit illegal:" ++ String.ofList p.gasLimit))
  else (fromDecStr p.gasLimit).mapErr fun e => .custom e.toString

/-- The nonce in decimal digits. -/
def nonceDigits (p : EthTransferPayload) : Outcome WalletError Text :=
  if ['0', 'x'].isPrefixOf p.nonce then do
    let n ← (fromStrRadix16 (p.nonce.drop 2)).mapErr fun e => .decode (.int e)
    .ok (Nat.toDigits 10 n.toNat)
  else .ok p.nonce

def nonceOf (p : EthTransferPayload) : Outcome WalletError U256 := do
  let nonce ← p.nonceDigits
  (fromDecStr nonce).mapErr fun e => .custom e.toString

def decode (abi : Erc20Abi) (p : EthTransferPayload) : Outcome WalletError RawTransaction :=
  if p.contractAddress.isEmpty ∧ p.toAddress.isEmpty then
    .err (.custom "raw tx dest address in empty")
  else do
    let amount ← convertField "value" p.value p.decimal.toNat
    let value := if p.contractAddress.trim.isEmpty then amount else 0
    let (toAddress, data) ← p.destination abi amount p.extData.asBytes
    -- the default unit of the gas price is gwei
    let gasPrice ← convertField "gas_price" p.gasPrice 9
    let gas ← p.gasLimitOf
    let nonce ← p.nonceOf
    .ok { nonce, toAddress, value, gasPrice, gas, data }

end EthTransferPayload

/-! ## What a payload means -/

/-- The text is the address: forty hexadecimal digits, behind one marker of either case or
none. -/
def IsAddress (text : Text) (address : H160) : Prop :=
  ∃ marker digits values, (marker = [] ∨ marker = ['0', 'x'] ∨ marker = ['0', 'X']) ∧
    text = marker ++ digits ∧ Digits digits values ∧ values.length = 40 ∧
    address = BitVec.ofNat 160 (numberOf values)

/-- The numeric fields are well formed, and `value` converts to the amount. -/
structure NumericOk (p : EthTransferPayload) (amount : U256) : Prop where
  value : convertToken p.value p.decimal.toNat = (.ok (some amount) : Outcome WalletError _)
  gasPrice : ∃ gasPrice, convertToken p.gasPrice 9 = (.ok (some gasPrice) : Outcome WalletError _)
  gasLimit : ∃ gas, p.gasLimitOf = .ok gas
  nonce : ∃ nonce, p.nonceOf = .ok nonce

/-- The result of a payload is what the payload means. -/
structure Meaning (p : EthTransferPayload) (amount : U256)
    (r : Outcome WalletError RawTransaction) : Prop where
  /-- With a contract: its `transfer` is called, and no ether is sent. -/
  token : p.contractAddress ≠ [] → ∀ tx, r = .ok tx →
    ∃ contract recipient, IsAddress p.contractAddress contract ∧
      IsAddress p.toAddress recipient ∧ tx.toAddress = some contract ∧ tx.value = 0 ∧
      tx.data = erc20Transfer recipient amount ++ p.extData.asBytes
  /-- Without one: the amount is sent to the recipient. -/
  plain : p.contractAddress = [] → ∀ tx, r = .ok tx →
    ∃ recipient, IsAddress p.toAddress recipient ∧ tx.toAddress = some recipient ∧
      tx.value = amount ∧ tx.data = p.extData.asBytes
  noCreation : ∀ tx, r = .ok tx → tx.toAddress ≠ none
  /-- A text that is no address is refused. -/
  refused : (¬ ∃ recipient, IsAddress p.toAddress recipient) ∨
    (p.contractAddress ≠ [] ∧ ¬ ∃ contract, IsAddress p.contractAddress contract) → r.IsErr

/-! ## The condition -/

/-- The text has the digits of bytes, of so many digits. -/
def HasDigits (text : Text) (n : Nat) : Prop :=
  ∃ values, Wrapped text values ∧ values.length = n ∧ n % 2 = 0

/-- The text does not have the digits of bytes. -/
def Unreadable (text : Text) : Prop := ∀ n, ¬ HasDigits text n

/-- The text has the digits of bytes, but not of 20. -/
def WrongLength (text : Text) : Prop := ∃ n, n ≠ 40 ∧ HasDigits text n

/-- The condition. Without a contract the recipient is empty, has no digits of bytes, or is an
address. With one there is a recipient, and the contract has no digits of bytes, or forty of
them where the recipient has no digits of bytes, or both are addresses. -/
def Accepted (p : EthTransferPayload) : Prop :=
  if p.contractAddress = [] then
    p.toAddress = [] ∨ Unreadable p.toAddress ∨ ∃ recipient, IsAddress p.toAddress recipient
  else p.toAddress ≠ [] ∧
    (Unreadable p.contractAddress ∨
      HasDigits p.contractAddress 40 ∧ Unreadable p.toAddress ∨
      (∃ contract, IsAddress p.contractAddress contract) ∧
        ∃ recipient, IsAddress p.toAddress recipient)

/-! ## Address fields -/

/-- Decoding refuses what it does not read. -/
theorem hexDecode_avoids (bytes : Bytes) (p : Panic) : Outcome.Avoids p (hexDecode bytes) := by
  -- a digit is read or refused
  have hval : ∀ b index, Outcome.Avoids p (hexVal b index) := by
    intro b index
    unfold hexVal
    split_ifs
    · exact Outcome.avoids_ok p _
    · exact Outcome.avoids_ok p _
    · exact Outcome.avoids_ok p _
    · exact Outcome.avoids_err p _
  -- two digits at a time
  have hpairs : ∀ index bytes, Outcome.Avoids p (hexPairs index bytes) := by
    intro index bytes
    induction index, bytes using hexPairs.induct with
    | case1 index high low rest ih =>
      unfold hexPairs
      apply (hval high index).bind
      intro h
      apply (hval low (index + 1)).bind
      intro l
      exact ih.bind fun bytes => Outcome.avoids_ok p _
    | case2 index bytes hshort =>
      unfold hexPairs
      split
      · exact (hshort _ _ _ rfl).elim
      · exact Outcome.avoids_ok p _
  unfold hexDecode
  split_ifs
  · exact Outcome.avoids_err p _
  · exact hpairs 0 _

theorem hexstrToVec_avoids (text : Text) (p : Panic) : Outcome.Avoids p (hexstrToVec text) :=
  hexDecode_avoids _ p

theorem unreadable_iff {text : Text} :
    Unreadable text ↔ ∀ bytes, hexstrToVec text ≠ .ok bytes := by
  constructor
  · intro h bytes hread
    obtain ⟨values, hwrapped, heven, -⟩ := hexstrToVec_eq_ok.mp hread
    exact h _ ⟨values, hwrapped, rfl, heven⟩
  · rintro h n ⟨values, hwrapped, rfl, heven⟩
    exact h _ (hexstrToVec_eq_ok.mpr ⟨values, hwrapped, heven, rfl⟩)

/-- The digits that a text has are those that are read. -/
theorem hasDigits_iff {text : Text} {bytes : Bytes} (hread : hexstrToVec text = .ok bytes)
    {n : Nat} : HasDigits text n ↔ n = 2 * bytes.length := by
  obtain ⟨values, hwrapped, heven, rfl⟩ := hexstrToVec_eq_ok.mp hread
  constructor
  · rintro ⟨values', hwrapped', rfl, heven'⟩
    have hsame := hexstrToVec_eq_ok.mpr ⟨values', hwrapped', heven', rfl⟩
    have hlength := congrArg List.length (Outcome.ok.inj (hread.symm.trans hsame))
    rw [length_packDigits, length_packDigits] at hlength
    rw [length_packDigits]
    omega
  · rintro rfl
    rw [length_packDigits]
    exact ⟨values, hwrapped, by omega, by omega⟩

/-- An address that is read is read as it is. -/
theorem IsAddress.of_read {text : Text} {address : H160} (h : IsAddress text address)
    {bytes : Bytes} (hread : hexstrToVec text = .ok bytes) :
    bytes.length = 20 ∧ address = BitVec.ofNat 160 (ofBe bytes) := by
  obtain ⟨marker, digits, values, hmarker, rfl, hdigits, hforty, rfl⟩ := h
  have hpad : Padded digits [] digits [] values := ⟨by simp, by simp, by simp, hdigits⟩
  have heven : values.length % 2 = 0 := by omega
  have hpacked : hexstrToVec (marker ++ digits) = .ok (packDigits values) := by
    rcases hmarker with rfl | rfl | rfl
    · exact hexstrToVec_eq_ok.mpr ⟨values, ⟨[], 0, digits, [], digits, [], [], by simp, by simp,
        by simp, hpad⟩, heven, rfl⟩
    · exact hexstrToVec_eq_ok.mpr ⟨values, ⟨[], 1, digits, [], digits, [], [], by simp, by simp,
        by simp, hpad⟩, heven, rfl⟩
    · -- a marker in upper case is not read over
      obtain ⟨values', hwrapped, -⟩ := hexstrToVec_eq_ok.mp hread
      exact absurd rfl (hwrapped.ne_upper 'X' (by simp))
  cases hread.symm.trans hpacked
  refine ⟨by rw [length_packDigits, hforty], ?_⟩
  rw [ofBe_packDigits heven (digits_lt hdigits)]

/-- What a field is read as: the address of forty digits, an error or a panic. -/
inductive AddressCase (text : Text) : Outcome WalletError H160 → Prop where
  | read (a : H160) (hforty : HasDigits text 40) (hlength : ¬ WrongLength text)
      (h : ∀ address, IsAddress text address → address = a) : AddressCase text (.ok a)
  | refused (e : WalletError) (hunread : Unreadable text) : AddressCase text (.err e)
  | wrongLength (hlength : WrongLength text) (hforty : ¬ HasDigits text 40)
      (h : ¬ ∃ address, IsAddress text address) : AddressCase text (.panic .assertFailed)

theorem addressOf_cases (text : Text) : AddressCase text (addressOf text) := by
  unfold addressOf
  cases hhex : hexstrToVec text with
  | panic q => exact absurd hhex (hexstrToVec_avoids text q)
  | err e =>
    refine AddressCase.refused _ (unreadable_iff.mpr fun bytes hread => ?_)
    rw [hhex] at hread
    cases hread
  | ok bytes =>
    show AddressCase text (h160FromSlice bytes)
    unfold h160FromSlice
    -- `from_slice` asserts the length
    by_cases hlength : bytes.length = 20
    · rw [if_pos hlength]
      refine AddressCase.read _ ((hasDigits_iff hhex).mpr (by omega)) ?_
        fun address haddress => (haddress.of_read hhex).2
      rintro ⟨n, hn, hdigits⟩
      have htwice := (hasDigits_iff hhex).mp hdigits
      omega
    · rw [if_neg hlength]
      refine AddressCase.wrongLength
        ⟨2 * bytes.length, by omega, (hasDigits_iff hhex).mpr rfl⟩ ?_ ?_
      · rw [hasDigits_iff hhex]
        omega
      · rintro ⟨address, haddress⟩
        exact hlength (haddress.of_read hhex).1

/-- A text without digits of bytes has none of another length. -/
theorem Unreadable.not_wrongLength {text : Text} (h : Unreadable text) : ¬ WrongLength text :=
  fun ⟨n, _, hdigits⟩ => h n hdigits

/-! ## Every payload -/

section Payload

variable {abi : Erc20Abi} {p : EthTransferPayload} {amount : U256}

theorem meaning_of_err (e : WalletError) : Meaning p amount (.err e) where
  token _ tx h := by cases h
  plain _ tx h := by cases h
  noCreation tx h := by cases h
  refused _ := Outcome.isErr_err e

/-- A panic is no way to refuse an address. -/
theorem not_meaning_of_panic {q : Panic} (h : (¬ ∃ recipient, IsAddress p.toAddress recipient) ∨
    (p.contractAddress ≠ [] ∧ ¬ ∃ contract, IsAddress p.contractAddress contract)) :
    ¬ Meaning p amount (.panic q) :=
  fun hmeaning => Outcome.not_isErr_panic q (hmeaning.refused h)

/-- With well-formed numbers the result is decided by the addresses. -/
theorem decode_eq (hnumeric : NumericOk p amount) (htrim : p.trim = p)
    (hsome : ¬ (p.contractAddress = [] ∧ p.toAddress = [])) :
    ∃ gasPrice gas nonce, p.decode abi =
      (p.destination abi amount p.extData.asBytes >>= fun (toAddress, data) =>
        .ok
          { nonce, toAddress, gasPrice, gas, data
            value := if p.contractAddress = [] then amount else 0 }) := by
  obtain ⟨gasPrice, hgasPrice⟩ := hnumeric.gasPrice
  obtain ⟨gas, hgas⟩ := hnumeric.gasLimit
  obtain ⟨nonce, hnonce⟩ := hnumeric.nonce
  refine ⟨gasPrice, gas, nonce, ?_⟩
  have hcontract : p.contractAddress.trim = p.contractAddress :=
    congrArg EthTransferPayload.contractAddress htrim
  have hvalue : EthTransferPayload.convertField "value" p.value p.decimal.toNat = .ok amount := by
    unfold EthTransferPayload.convertField
    rw [hnumeric.value]
    rfl
  have hprice : EthTransferPayload.convertField "gas_price" p.gasPrice 9 = .ok gasPrice := by
    unfold EthTransferPayload.convertField
    rw [hgasPrice]
    rfl
  unfold EthTransferPayload.decode
  simp only [List.isEmpty_iff, hcontract, if_neg hsome, hvalue, hprice, hgas, hnonce,
    Outcome.ok_bind]

theorem destination_token (habi : abi.EncodesTransfer) (htrim : p.trim = p)
    (hcontract : p.contractAddress ≠ []) (hto : p.toAddress ≠ []) (data : Bytes) :
    p.destination abi amount data =
      (addressOf p.contractAddress >>= fun contract =>
        addressOf p.toAddress >>= fun recipient =>
          .ok (some contract, erc20Transfer recipient amount ++ data)) := by
  have htrim₁ : p.contractAddress.trim = p.contractAddress :=
    congrArg EthTransferPayload.contractAddress htrim
  have htrim₂ : p.toAddress.trim = p.toAddress := congrArg EthTransferPayload.toAddress htrim
  have hdata : ∀ recipient, getErc20TransferData abi recipient amount =
      .ok (erc20Transfer recipient amount) := by
    intro recipient
    unfold getErc20TransferData
    rw [habi recipient amount]
    rfl
  unfold EthTransferPayload.destination
  simp only [List.isEmpty_iff, htrim₁, htrim₂, if_neg hto, if_pos hcontract, hdata,
    Outcome.ok_bind]

theorem destination_plain (htrim : p.trim = p) (hcontract : p.contractAddress = [])
    (hto : p.toAddress ≠ []) (data : Bytes) :
    p.destination abi amount data =
      (addressOf p.toAddress >>= fun recipient => .ok (some recipient, data)) := by
  have htrim₁ : p.contractAddress.trim = [] :=
    (congrArg EthTransferPayload.contractAddress htrim).trans hcontract
  have htrim₂ : p.toAddress.trim = p.toAddress := congrArg EthTransferPayload.toAddress htrim
  unfold EthTransferPayload.destination
  simp only [List.isEmpty_iff, htrim₁, htrim₂, if_neg hto, not_true_eq_false, if_false]

theorem destination_none (htrim : p.trim = p) (hto : p.toAddress = []) (data : Bytes) :
    p.destination abi amount data = .ok (none, data) := by
  have htrim₂ : p.toAddress.trim = p.toAddress := congrArg EthTransferPayload.toAddress htrim
  unfold EthTransferPayload.destination
  simp only [List.isEmpty_iff, htrim₂, if_pos hto]

/-- **What a payload means.** A trimmed payload with well-formed numbers is decoded to
what it means exactly under the condition. -/
theorem meaning_iff_accepted (abi : Erc20Abi) (habi : abi.EncodesTransfer)
    (p : EthTransferPayload) (amount : U256) (htrim : p.trim = p)
    (hnumeric : NumericOk p amount) : Meaning p amount (p.decode abi) ↔ Accepted p := by
  by_cases hempty : p.contractAddress = [] ∧ p.toAddress = []
  · -- no destination at all
    have hdecode : p.decode abi = .err (.custom "raw tx dest address in empty") := by
      unfold EthTransferPayload.decode
      simp only [List.isEmpty_iff]
      exact if_pos hempty
    rw [hdecode]
    apply iff_of_true (meaning_of_err _)
    unfold Accepted
    rw [if_pos hempty.1]
    exact Or.inl hempty.2
  obtain ⟨gasPrice, gas, nonce, hdecode⟩ := decode_eq hnumeric htrim hempty
  rw [hdecode]
  unfold Accepted
  by_cases hcontract : p.contractAddress = []
  · -- a plain transfer: only the recipient is read
    have hto : p.toAddress ≠ [] := fun hto => hempty ⟨hcontract, hto⟩
    rw [if_pos hcontract]
    simp only [if_pos hcontract, destination_plain htrim hcontract hto]
    have hcase := addressOf_cases p.toAddress
    generalize addressOf p.toAddress = r at hcase ⊢
    cases hcase with
    | read a hforty _ hread =>
      by_cases haddress : ∃ recipient, IsAddress p.toAddress recipient
      · obtain ⟨recipient, hrecipient⟩ := haddress
        obtain rfl := hread recipient hrecipient
        refine iff_of_true ⟨?_, ?_, ?_, ?_⟩ (Or.inr (Or.inr ⟨recipient, hrecipient⟩))
        · exact fun hne => absurd hcontract hne
        · intro _ tx htx
          cases htx
          exact ⟨recipient, hrecipient, rfl, rfl, rfl⟩
        · intro tx htx
          cases htx
          exact Option.some_ne_none recipient
        · rintro (hbad | ⟨hne, _⟩)
          · exact absurd ⟨recipient, hrecipient⟩ hbad
          · exact absurd hcontract hne
      · refine iff_of_false (fun hmeaning => hmeaning.refused (Or.inl haddress)) ?_
        rintro (hnil | hunread | hsome)
        · exact hto hnil
        · exact hunread 40 hforty
        · exact haddress hsome
    | refused e hunread => exact iff_of_true (meaning_of_err e) (Or.inr (Or.inl hunread))
    | wrongLength hlength _ hbad =>
      apply iff_of_false (not_meaning_of_panic (Or.inl hbad))
      rintro (hnil | hunread | hsome)
      · exact hto hnil
      · exact hunread.not_wrongLength hlength
      · exact hbad hsome
  rw [if_neg hcontract]
  simp only [if_neg hcontract]
  by_cases hto : p.toAddress = []
  · -- the contract is named, the recipient is not: a contract is created
    rw [destination_none htrim hto]
    apply iff_of_false
    · intro hmeaning
      exact hmeaning.noCreation _ rfl rfl
    · rintro ⟨hne, _⟩
      exact hne hto
  -- a token transfer: the contract is read first, and then the recipient
  rw [destination_token habi htrim hcontract hto]
  have hcase := addressOf_cases p.contractAddress
  generalize addressOf p.contractAddress = r at hcase ⊢
  cases hcase with
  | refused e hunread => exact iff_of_true (meaning_of_err e) ⟨hto, Or.inl hunread⟩
  | wrongLength hlength hforty hbad =>
    apply iff_of_false (not_meaning_of_panic (Or.inr ⟨hcontract, hbad⟩))
    rintro ⟨_, hunread | ⟨hdigits, _⟩ | ⟨hsome, _⟩⟩
    · exact hunread.not_wrongLength hlength
    · exact hforty hdigits
    · exact hbad hsome
  | read contract hcforty _ hcread =>
    rw [Outcome.ok_bind]
    have hcase' := addressOf_cases p.toAddress
    generalize addressOf p.toAddress = r' at hcase' ⊢
    cases hcase' with
    | refused e hunread =>
      exact iff_of_true (meaning_of_err e) ⟨hto, Or.inr (Or.inl ⟨hcforty, hunread⟩)⟩
    | wrongLength hlength _ hbad =>
      apply iff_of_false (not_meaning_of_panic (Or.inl hbad))
      rintro ⟨_, hunread | ⟨_, hunread⟩ | ⟨_, hsome⟩⟩
      · exact hunread 40 hcforty
      · exact hunread.not_wrongLength hlength
      · exact hbad hsome
    | read a hforty _ hread =>
      by_cases hboth : (∃ contract, IsAddress p.contractAddress contract) ∧
          ∃ recipient, IsAddress p.toAddress recipient
      · have haccepted := hboth
        obtain ⟨⟨contract', hc⟩, recipient, hrecipient⟩ := hboth
        obtain rfl := hcread contract' hc
        obtain rfl := hread recipient hrecipient
        refine iff_of_true ⟨?_, ?_, ?_, ?_⟩ ⟨hto, Or.inr (Or.inr haccepted)⟩
        · intro _ tx htx
          cases htx
          exact ⟨contract', recipient, hc, hrecipient, rfl, rfl, rfl⟩
        · exact fun heq => absurd heq hcontract
        · intro tx htx
          cases htx
          exact Option.some_ne_none contract'
        · rintro (hbad | ⟨_, hbad⟩)
          · exact absurd haccepted.2 hbad
          · exact absurd haccepted.1 hbad
      · refine iff_of_false (fun hmeaning => ?_) ?_
        · -- one of the two is no address, and nothing is refused
          rcases not_and_or.mp hboth with hbad | hbad
          · exact hmeaning.refused (Or.inr ⟨hcontract, hbad⟩)
          · exact hmeaning.refused (Or.inl hbad)
        · rintro ⟨_, hunread | ⟨_, hunread⟩ | hsome⟩
          · exact hunread 40 hcforty
          · exact hunread 40 hforty
          · exact hboth hsome

end Payload

/-! ## A payload on each side -/

/-- An interface library for concrete runs. -/
def unitAbi : Erc20Abi where
  encodeInput name tokens :=
    match name, tokens with
    | "transfer", [.address address, .uint value] => .ok (erc20Transfer address value)
    | _, _ => .error "Invalid name"

/-- A text of 20 bytes in hexadecimal digits. -/
def unitAddress : Text := ['0', 'x'] ++ List.replicate 40 'a'

/-- A transfer of one token with 18 decimals. -/
def unitPayload (toAddress contractAddress : Text) : EthTransferPayload where
  fromAddress := unitAddress
  toAddress := toAddress
  contractAddress := contractAddress
  value := ['1']
  nonce := ['0', 'x', '1', 'f']
  gasPrice := ['2', '0']
  gasLimit := ['6', '0', '0', '0', '0']
  decimal := 18
  extData := []

theorem numericOk_unitPayload (toAddress contractAddress : Text) :
    NumericOk (unitPayload toAddress contractAddress) 1000000000000000000 where
  value := by
    show convertToken ['1'] 18 = _
    rfl
  gasPrice := ⟨20000000000, by
    show convertToken ['2', '0'] 9 = _
    rfl⟩
  gasLimit := ⟨60000, by
    show EthTransferPayload.gasLimitOf (unitPayload [] []) = _
    rfl⟩
  nonce := ⟨31, by
    show EthTransferPayload.nonceOf (unitPayload [] []) = _
    rfl⟩

theorem isAddress_unitAddress :
    IsAddress unitAddress (BitVec.ofNat 160 (numberOf (List.replicate 40 10))) := by
  have hdigits : ∀ n, Digits (List.replicate n 'a') (List.replicate n 10) := by
    intro n
    induction n with
    | zero => exact .nil
    | succ n ih => exact .cons rfl ih
  exact ⟨['0', 'x'], List.replicate 40 'a', List.replicate 40 10, Or.inr (Or.inl rfl), rfl,
    hdigits 40, rfl, rfl⟩

/-- A token transfer between addresses is accepted, and is decoded to what it means. -/
theorem meaning_iff_accepted_token :
    Accepted (unitPayload unitAddress unitAddress) ∧
      Meaning (unitPayload unitAddress unitAddress) 1000000000000000000
        ((unitPayload unitAddress unitAddress).decode unitAbi) := by
  have haccepted : Accepted (unitPayload unitAddress unitAddress) := by
    unfold Accepted
    rw [if_neg (by decide)]
    exact ⟨by decide, Or.inr (Or.inr ⟨⟨_, isAddress_unitAddress⟩, ⟨_, isAddress_unitAddress⟩⟩)⟩
  exact ⟨haccepted, (meaning_iff_accepted unitAbi (fun _ _ => rfl) _ _ (by decide +kernel)
    (numericOk_unitPayload unitAddress unitAddress)).mpr haccepted⟩

/-- A contract and no recipient: a contract is created. -/
theorem not_meaning_of_no_recipient :
    ¬ Meaning (unitPayload [] unitAddress) 1000000000000000000
      ((unitPayload [] unitAddress).decode unitAbi) := by
  intro h
  have hdecode : (unitPayload [] unitAddress).decode unitAbi = .ok
      { nonce := 31, toAddress := none, value := 0, gasPrice := 20000000000, gas := 60000,
        data := [] } := by
    decide +kernel
  exact h.noCreation _ hdecode rfl

end Cashbox.Eth
