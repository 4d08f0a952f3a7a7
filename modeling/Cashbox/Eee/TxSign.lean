import Cashbox.Eee.Extrinsic
import Cashbox.Eee.Metadata

/-!
# Signing for the EEE chain

There are two ways to a signed extrinsic. A transfer composes its call, signs the tuple of
the call, the extra fields and what is signed with them, and writes an
`UncheckedExtrinsicV4`. `tx_sign` is given the bytes of a call behind a prefix, puts the
signed bytes together by hand, and writes an `UncheckedExtrinsicFromOuter`.

The signer, the hash function, the codec of eras and the account library are parameters.
-/

namespace Cashbox.Eee

open Cashbox.Lib Cashbox.Scale

/-! ## Parameters -/

/-- A key pair; signing is a function of the bytes. -/
structure Pair where
  publicKey : FixedBytes 32
  sign : Bytes → FixedBytes 64

/-- What the signing functions take from outside. -/
structure Runtime (Era : Type) where
  era : Codec Era
  immortal : Era
  blake2_256 : Bytes → FixedBytes 32
  pairFromPhrase : Text → Except Error Pair
  fromSs58check : Text → Except Error AccountId
  /-- The sizes of the two Rust types that are written. -/
  sizeOfV4 : Nat
  sizeOfFromOuter : Nat

/-- The fields of `ChainHelper` that the decoders and signers use. -/
structure ChainHelper where
  metadata : Metadata
  runtimeVersion : UInt32
  txVersion : UInt32
  genesisHash : Hash

variable {Era : Type} (rt : Runtime Era)

/-! ## The transfer path -/

/-- additionalSigned fields of the respective SignedExtra fields. -/
abbrev AdditionalSigned := UInt32 × UInt32 × Hash × Hash × Unit × Unit × Unit

def additionalSigned : Codec AdditionalSigned :=
  u32.prod (u32.prod ((fixedBytes 32).prod ((fixedBytes 32).prod
    (Codec.unit.prod (Codec.unit.prod Codec.unit)))))

structure SignedPayload (Era Call : Type) where
  call : Call
  extra : GenericExtra Era
  additional : AdditionalSigned

section Compose

variable {ε Call α : Type} (encodeCall : Call → Bytes)

/-- Get an encoded version of this payload. Payloads longer than 256 bytes are going to be
`blake2_256`-hashed. -/
def SignedPayload.usingEncoded (p : SignedPayload Era Call) (f : Bytes → α) : α :=
  let payload := encodeCall p.call ++
    ((genericExtra rt.era).encode p.extra ++ additionalSigned.encode p.additional)
  if payload.length > 256 then f (rt.blake2_256 payload) else f payload

/-- What `compose_extrinsic_offline` signs. -/
def signedPayload (call : Call) (nonce : UInt32) (era : Era) (genesisHash currentHash : Hash)
    (runtimeSpecVersion transactionVersion : UInt32) : SignedPayload Era Call :=
  { call
    extra := GenericExtra.new era nonce
    additional := (runtimeSpecVersion, transactionVersion, genesisHash, currentHash, (), (), ()) }

def composeExtrinsicOffline (signer : Pair) (call : Call) (nonce : UInt32) (era : Era)
    (genesisHash currentHash : Hash) (runtimeSpecVersion transactionVersion : UInt32) :
    UncheckedExtrinsicV4 Era Call :=
  let rawPayload := signedPayload call nonce era genesisHash currentHash runtimeSpecVersion
    transactionVersion
  let signature := rawPayload.usingEncoded rt encodeCall fun payload => signer.sign payload
  { signature := some (signer.publicKey, .sr25519 signature, GenericExtra.new era nonce)
    function := call }

def hexPrefixed (bytes : Bytes) : Text := '0' :: 'x' :: Crypto.hexEncode bytes

def UncheckedExtrinsicV4.hexEncode (xt : UncheckedExtrinsicV4 Era Call) : Outcome ε Text := do
  let bytes ← xt.encode rt.era rt.sizeOfV4 encodeCall
  .ok (hexPrefixed bytes)

/-- The extrinsic that the branches of `transfer` compose and write. -/
def ChainHelper.composed (helper : ChainHelper) (signer : Pair) (call : Call) (index : UInt32) :
    Outcome ε Text :=
  let xt := composeExtrinsicOffline rt encodeCall signer call index rt.immortal helper.genesisHash
    helper.genesisHash helper.runtimeVersion helper.txVersion
  xt.hexEncode rt encodeCall

end Compose

/-! ## Transfers -/

/-- `compose_call`: the index of the module, that of the call, and the arguments. -/
def composeCall {ε : Type} (metadata : Metadata) (module callName : String) (args : Bytes) :
    Outcome ε Bytes := do
  let module ← (metadata.moduleWithCalls module).unwrap
  let callIndex ← Outcome.ofSome (module.calls.lookup callName)
  .ok ([module.index, callIndex] ++ args)

/-- The digits that follow the number `n`. -/
def u128Digits : Text → Nat → Option Nat
  | [], n => some n
  | c :: rest, n =>
    if '0' ≤ c ∧ c ≤ '9' then
      let n := n * 10 + (c.toNat - 48)
      if n < 2 ^ 128 then u128Digits rest n else none
    else none

/-- `str::parse::<u128>` -/
def parseU128 (s : Text) : Option (BitVec 128) :=
  match s with
  | [] => none
  | ['+'] => none
  | '+' :: digits => (u128Digits digits 0).map (BitVec.ofNat 128)
  | digits => (u128Digits digits 0).map (BitVec.ofNat 128)

namespace ChainHelper

def isModuleCallExist (helper : ChainHelper) (moduleName callName : String) : Bool :=
  match helper.metadata.moduleWithCalls moduleName with
  | .ok calls => (calls.calls.lookup callName).isSome
  | _ => false

/-- The arguments of a transfer call; balances have no external data. -/
def transferArgs (to' : AccountId) (amount : BitVec 128) (extData : Option Bytes) :
    Outcome Error Bytes :=
  match extData with
  | some extData => do
    let data ← encodeVecU8 extData
    .ok ((fixedBytes 32).encode to' ++ compactU128.encode amount ++ data)
  | none => .ok ((fixedBytes 32).encode to' ++ compactU128.encode amount)

def transfer (helper : ChainHelper) (moduleName callName : String) (mnemonic to' amount : Text)
    (index : UInt32) (extData : Option Bytes) : Outcome Error Text := do
  let to' ← Outcome.ofExcept (rt.fromSs58check to')
  if !helper.isModuleCallExist moduleName callName then
    .err (.custom "module call is not exist")
  else do
    let signer ← Outcome.ofExcept (rt.pairFromPhrase mnemonic)
    match parseU128 amount with
    | none => .err (.custom "amount format is not invalid")
    | some amount => do
      let args ← transferArgs to' amount extData
      let call ← composeCall helper.metadata moduleName callName args
      helper.composed rt (fun call : Bytes => call) signer call index

end ChainHelper

/-! ## Signing given bytes -/

/-- prefix = array length + version code -/
def getFuncPrefixLen (funcData : Bytes) : Nat :=
  let len :=
    if 1 ≤ funcData.length ∧ funcData.length ≤ 0x40 then 1
    else if 0x42 ≤ funcData.length ∧ funcData.length ≤ 0x4001 then 2
    else 4
  len + 1

namespace ChainHelper

/-- when decode RawTx instance, the function data length info will be drop, this func is aim to
restore the original structure -/
def restoreFuncData (funcData : Bytes) : Bytes :=
  let reserve :=
    if funcData.length ≤ 0x3f then 1 else if funcData.length ≤ 0x3fff then 2 else 4
  List.replicate reserve 0 ++ funcData

/-- The bytes that `tx_sign` hands to the signer. -/
def signData (helper : ChainHelper) (index : UInt32) (funcData : Bytes) : Bytes :=
  let playload := funcData ++ (genericExtra rt.era).encode (.new rt.immortal index) ++
    u32.encode helper.runtimeVersion ++ u32.encode helper.txVersion ++
    helper.genesisHash.1 ++ helper.genesisHash.1
  if playload.length > 256 then rt.blake2_256 playload else playload

def txSign (helper : ChainHelper) (mnemonic : Text) (index : UInt32) (funcData : Bytes)
    (isSubmittable : Bool) : Outcome Error Text := do
  let signer ← Outcome.ofExcept (rt.pairFromPhrase mnemonic)
  let prefixLen := getFuncPrefixLen funcData
  if funcData.length < prefixLen then .panic .indexOutOfBounds
  else do
    let funcData := funcData.drop prefixLen
    let signature := signer.sign (helper.signData rt index funcData)
    if !isSubmittable then .ok ('0' :: 'x' :: '0' :: '1' :: Crypto.hexEncode signature.1)
    else do
      let xt : UncheckedExtrinsicFromOuter Era :=
        { signature := some (signer.publicKey, .sr25519 signature, .new rt.immortal index)
          function := funcData }
      let bytes ← xt.encode rt.era rt.sizeOfFromOuter
      .ok (hexPrefixed bytes)

end ChainHelper

/-! ## Prefixes -/

/-- A call behind its length and its version: as `restore_func_data` rebuilds it, or as a
`Vec<u8>` is written. -/
def Prefixed (version : UInt8) (c funcData : Bytes) : Prop :=
  funcData = ChainHelper.restoreFuncData (version :: c) ∨
    (version :: c).length < 2 ^ 30 ∧
      funcData = encodeCompact (version :: c).length ++ version :: c

/-- The prefix has the width that is cut off. -/
theorem Prefixed.drop_eq {version : UInt8} {c funcData : Bytes} (h : Prefixed version c funcData) :
    getFuncPrefixLen funcData ≤ funcData.length ∧
      funcData.drop (getFuncPrefixLen funcData) = c := by
  -- the length in front takes one, two or four bytes
  obtain ⟨length, rfl, hwidth⟩ : ∃ length : Bytes, funcData = length ++ version :: c ∧
      length.length =
        if c.length + 1 < 2 ^ 6 then 1 else if c.length + 1 < 2 ^ 14 then 2 else 4 := by
    rcases h with rfl | ⟨hlen, rfl⟩
    · refine ⟨_, rfl, ?_⟩
      rw [List.length_replicate, List.length_cons]
      split_ifs <;> omega
    · exact ⟨_, rfl, length_encodeCompact hlen⟩
  have hcut : getFuncPrefixLen (length ++ version :: c) = length.length + 1 := by
    unfold getFuncPrefixLen
    dsimp only
    rw [List.length_append, List.length_cons]
    split_ifs at hwidth ⊢ <;> omega
  rw [hcut]
  constructor
  · simp
  · rw [← List.drop_drop, List.drop_left]
    rfl

/-! ## Agreement -/

section Agreement

variable {Call : Type} (encodeCall : Call → Bytes) (helper : ChainHelper)

/-- Both paths hand the same bytes to the signer. -/
theorem ChainHelper.signData_eq (index : UInt32) (call : Call) :
    helper.signData rt index (encodeCall call) =
      (signedPayload call index rt.immortal helper.genesisHash helper.genesisHash
        helper.runtimeVersion helper.txVersion).usingEncoded rt encodeCall
          fun payload => payload := by
  unfold signData SignedPayload.usingEncoded signedPayload
  simp [additionalSigned, Codec.encode_prod, Codec.unit, fixedBytes]

/-- What is done with the signed bytes does not change them. -/
theorem SignedPayload.usingEncoded_eq {α : Type} (p : SignedPayload Era Call) (f : Bytes → α) :
    p.usingEncoded rt encodeCall f = f (p.usingEncoded rt encodeCall fun payload => payload) := by
  unfold usingEncoded
  dsimp only
  split <;> rfl

/-- The two signed extrinsics are the same bytes. -/
theorem ChainHelper.txSign_eq_composed {version : UInt8} {funcData : Bytes} {mnemonic : Text}
    {signer : Pair} (hsigner : rt.pairFromPhrase mnemonic = .ok signer) (call : Call)
    (hfunc : Prefixed version (encodeCall call) funcData) (index : UInt32) :
    helper.txSign rt mnemonic index funcData true =
      helper.composed rt encodeCall signer call index := by
  obtain ⟨hlong, hdrop⟩ := hfunc.drop_eq
  unfold txSign composed composeExtrinsicOffline UncheckedExtrinsicV4.hexEncode
  dsimp only
  rw [hsigner, SignedPayload.usingEncoded_eq, ← signData_eq, UncheckedExtrinsicV4.encode_eq]
  show (if funcData.length < getFuncPrefixLen funcData then _ else _) = _
  rw [if_neg (Nat.not_lt.mpr hlong), hdrop]
  show (UncheckedExtrinsicFromOuter.encode _ _ _ >>= _) = _
  rw [UncheckedExtrinsicFromOuter.encode_eq]

/-- A transfer that passes its checks composes its call without a panic, and returns what
`tx_sign` returns for that call. -/
theorem ChainHelper.transfer_eq_txSign {moduleName callName : String}
    {mnemonic to' amount : Text} {account : AccountId} {signer : Pair} {n : BitVec 128}
    {extData : Option Bytes} {args : Bytes} (haccount : rt.fromSs58check to' = .ok account)
    (hexist : helper.isModuleCallExist moduleName callName = true)
    (hsigner : rt.pairFromPhrase mnemonic = .ok signer) (hamount : parseU128 amount = some n)
    (hargs : transferArgs account n extData = .ok args) (index : UInt32) (version : UInt8) :
    ∃ call, composeCall helper.metadata moduleName callName args = (.ok call : Outcome Error _) ∧
      helper.transfer rt moduleName callName mnemonic to' amount index extData =
        helper.txSign rt mnemonic index (restoreFuncData (version :: call)) true := by
  -- the check has found the module and the call, so composing does not panic
  obtain ⟨module, callIndex, hmodule, hindex⟩ : ∃ module callIndex,
      helper.metadata.moduleWithCalls moduleName = .ok module ∧
        module.calls.lookup callName = some callIndex := by
    unfold isModuleCallExist at hexist
    split at hexist
    · rename_i module hmodule
      obtain ⟨callIndex, hindex⟩ := Option.isSome_iff_exists.mp hexist
      exact ⟨module, callIndex, hmodule, hindex⟩
    · cases hexist
  have hcall : composeCall helper.metadata moduleName callName args =
      (.ok ([module.index, callIndex] ++ args) : Outcome Error _) := by
    rw [composeCall, hmodule]
    simp [Outcome.unwrap, hindex, Outcome.ofSome]
  refine ⟨_, hcall, ?_⟩
  rw [helper.txSign_eq_composed rt (fun call : Bytes => call) hsigner _ (Or.inl rfl) index]
  unfold transfer
  simp [haccount, hexist, hsigner, hamount, hargs, hcall, Outcome.ofExcept]

/-- Given the same call, `tx_sign` and the transfer path hand the same bytes to the signer and
return the same text, whatever the call's length is. -/
theorem txSign_agrees (index : UInt32) (call : Call) {version : UInt8} {funcData : Bytes}
    (hfunc : Prefixed version (encodeCall call) funcData) {mnemonic : Text} {signer : Pair}
    (hsigner : rt.pairFromPhrase mnemonic = .ok signer) :
    helper.signData rt index (funcData.drop (getFuncPrefixLen funcData)) =
        (signedPayload call index rt.immortal helper.genesisHash helper.genesisHash
          helper.runtimeVersion helper.txVersion).usingEncoded rt encodeCall
          (fun payload => payload) ∧
      helper.txSign rt mnemonic index funcData true =
        helper.composed rt encodeCall signer call index := by
  constructor
  · rw [hfunc.drop_eq.2]
    exact helper.signData_eq rt encodeCall index call
  · exact helper.txSign_eq_composed rt encodeCall hsigner call hfunc index

end Agreement

/-! ### An instance -/

/-- A runtime whose eras are one byte. -/
def unitRuntime : Runtime UInt8 where
  era := u8
  immortal := 0
  blake2_256 _ := FixedBytes.zero 32
  pairFromPhrase _ := .ok { publicKey := FixedBytes.zero 32, sign := fun _ => FixedBytes.zero 64 }
  fromSs58check _ := .ok (FixedBytes.zero 32)
  sizeOfV4 := 168
  sizeOfFromOuter := 168

def unitHelper : ChainHelper where
  metadata := { modules := [], modulesWithCalls := [], modulesWithEvents := [] }
  runtimeVersion := 6
  txVersion := 1
  genesisHash := FixedBytes.zero 32

/-- A transfer call of 42 bytes behind the prefix of its `Vec<u8>`. -/
theorem txSign_agrees_call :
    unitHelper.txSign unitRuntime [] 1
        ([172, 4, 5, 3] ++ List.replicate 32 7 ++ [15, 0, 0, 141, 73, 253, 26, 7]) true =
      unitHelper.composed unitRuntime (fun call : Bytes => call)
        { publicKey := FixedBytes.zero 32, sign := fun _ => FixedBytes.zero 64 }
        ([5, 3] ++ List.replicate 32 7 ++ [15, 0, 0, 141, 73, 253, 26, 7]) 1 := by
  have hfunc : Prefixed 4 ([5, 3] ++ List.replicate 32 7 ++ [15, 0, 0, 141, 73, 253, 26, 7])
      ([172, 4, 5, 3] ++ List.replicate 32 7 ++ [15, 0, 0, 141, 73, 253, 26, 7]) :=
    Or.inr ⟨by decide, by decide⟩
  exact (txSign_agrees unitRuntime (fun call : Bytes => call) unitHelper 1 _ hfunc rfl).2

end Cashbox.Eee
