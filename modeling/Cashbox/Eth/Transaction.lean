import Cashbox.Lib.RlpView

/-!
# Typed transactions

The transactions of the Ethereum side and how they are written: legacy
transactions, transactions with an access list and transactions with a priority
fee. A legacy transaction is an RLP list; the other two are a type byte followed
by an RLP list. The list of a legacy transaction carries the chain id in its `v`
field, the others have a field of their own for it.
-/

namespace Cashbox.Eth

open Cashbox.Lib Cashbox.Lib.Rlp

abbrev U256 := BitVec 256

abbrev H256 := BitVec 256

abbrev H160 := BitVec 160

abbrev Address := H160

/-! ## Data model -/

/-- Transaction action type. -/
inductive Action where
  /-- Creates new contract. -/
  | create
  /-- Calls contract at given address. -/
  | call (address : Address)
  deriving DecidableEq, Repr

structure Transaction where
  nonce : U256
  /-- Gas price, or the maximal fee per gas where a priority fee is given. -/
  gasPrice : U256
  gas : U256
  action : Action
  value : U256
  data : Bytes
  deriving DecidableEq, Repr

abbrev AccessListItem := H160 × List H256

abbrev AccessList := List AccessListItem

structure AccessListTx where
  transaction : Transaction
  accessList : AccessList
  deriving DecidableEq, Repr

structure EIP1559TransactionTx where
  transaction : AccessListTx
  maxPriorityFeePerGas : U256
  deriving DecidableEq, Repr

inductive TypedTransaction where
  | legacy (tx : Transaction)
  | accessList (tx : AccessListTx)
  | eip1559Transaction (tx : EIP1559TransactionTx)
  deriving DecidableEq, Repr

/-- Components that constitute transaction signature. -/
structure SignatureComponents where
  standardV : UInt8
  r : U256
  s : U256
  deriving DecidableEq, Repr

/-- Signed transaction information without verified signature. -/
structure UnverifiedTransaction where
  unsigned : TypedTransaction
  signature : SignatureComponents
  chainId : Option UInt64
  hash : H256
  deriving DecidableEq, Repr

inductive TypedTxId where
  | eip1559Transaction
  | accessList
  | legacy
  deriving DecidableEq, Repr

namespace TypedTxId

def asU8 : TypedTxId → UInt8
  | .eip1559Transaction => 0x02
  | .accessList => 0x01
  | .legacy => 0x00

def tryFromWireByte (n : UInt8) : Option TypedTxId :=
  if n = TypedTxId.eip1559Transaction.asU8 then some .eip1559Transaction
  else if n = TypedTxId.accessList.asU8 then some .accessList
  else if n &&& 0x80 ≠ 0x00 then some .legacy
  else none

end TypedTxId

/-! ## Replay protection -/

namespace Signature

variable {ε : Type}

/-- What is added to v: 35 and twice the chain id, or 27 without one. -/
def replayOffset : Option UInt64 → Outcome ε Nat
  | some n => do
    let doubled ← checkedMul 64 n.toNat 2
    checkedAdd 64 35 doubled
  | none => .ok 27

/-- Adds chain id into v. -/
def addChainReplayProtection (v : UInt8) (chainId : Option UInt64) : Outcome ε UInt64 := do
  let offset ← replayOffset chainId
  let sum ← checkedAdd 64 v.toNat offset
  .ok (UInt64.ofNat sum)

/-- 0 for 27, 1 for 28, the parity from 35 on, and 4 if invalid. -/
def extractStandardV (v : UInt64) : UInt8 :=
  if v = 27 then 0
  else if v = 28 then 1
  else if 35 ≤ v then ((v - 1) % 2).toUInt8
  else 4

def extractChainIdFromLegacyV (v : UInt64) : Option UInt64 :=
  if 35 ≤ v then some ((v - 35) / 2) else none

end Signature

/-! ## Fields as items -/

def u8 : Codec UInt8 := .unsigned .u8

def u64 : Codec UInt64 := .unsigned .u64

def u256 : Codec U256 := .unsigned (.bits 32)

def h160 : Codec H160 := .fixed (.bits 20)

def h256 : Codec H256 := .fixed (.bits 32)

namespace Action

def item : Action → Item
  | .create => .data []
  | .call address => h160.encode address

def decode (rlp : View) : Outcome DecoderError Action :=
  if rlp.isEmpty then
    if rlp.isData then .ok .create else .err .rlpExpectedToBeData
  else do
    let address ← h160.decode rlp
    .ok (.call address)

theorem kind_item (action : Action) : action.item.kind = .data := by
  cases action <;> rfl

/-- An address is not the empty string. -/
theorem payload_item {action : Action} : action.item.payload = [] ↔ action = .create := by
  cases action with
  | create => exact iff_of_true rfl rfl
  | call address =>
    refine iff_of_false ?_ (fun h => nomatch h)
    show beBytes 20 address.toNat ≠ []
    apply List.ne_nil_of_length_pos
    rw [beBytes_length]
    decide

theorem decode_eq_ok {v : View} {x : Item} {action : Action} (h : v.Reads x) :
    decode v = .ok action ↔ x = action.item := by
  unfold decode
  split_ifs with hempty hdata
  · -- the empty string
    have hpayload := h.isEmpty.mp hempty
    have hkind := h.isData.mp hdata
    constructor
    · intro hcreate
      cases hcreate
      cases x with
      | data bytes => exact congrArg Item.data hpayload
      | list xs => cases hkind
    · rintro rfl
      rw [payload_item.mp hpayload]
  · refine iff_of_false (fun herr => nomatch herr) ?_
    rintro rfl
    exact hdata (h.isData.mpr action.kind_item)
  · rw [Outcome.bind_eq_ok]
    constructor
    · rintro ⟨address, haddress, hcall⟩
      cases hcall
      exact (h160.decode_eq_ok h).mp haddress
    · intro hx
      cases action with
      | create => exact absurd (h.isEmpty.mpr (hx ▸ rfl)) hempty
      | call address => exact ⟨address, (h160.decode_eq_ok h).mpr hx, rfl⟩

def codec : Codec Action where
  encode := item
  decode := decode
  decode_eq_ok := decode_eq_ok

end Action

/-! ## Writing -/

variable {ε : Type}

namespace Transaction

def rlpAppendDataOpen (tx : Transaction) : RlpWriter ε Unit := do
  append (u256.encode tx.nonce)
  append (u256.encode tx.gasPrice)
  append (u256.encode tx.gas)
  append tx.action.item
  append (u256.encode tx.value)
  append (.data tx.data)

end Transaction

namespace SignatureComponents

def rlpAppend (signature : SignatureComponents) : RlpWriter ε Unit := do
  append (u8.encode signature.standardV)
  append (u256.encode signature.r)
  append (u256.encode signature.s)

def rlpAppendWithChainId (signature : SignatureComponents) (chainId : Option UInt64) :
    RlpWriter ε Unit := do
  let v ← compute (Signature.addChainReplayProtection signature.standardV chainId)
  append (u64.encode v)
  append (u256.encode signature.r)
  append (u256.encode signature.s)

/-- The signature of a typed transaction, where one is given. -/
def rlpAppendGiven : Option SignatureComponents → RlpWriter ε Unit
  | some signature => signature.rlpAppend
  | none => pure ()

end SignatureComponents

namespace Transaction

/-- The last three fields of the list: the signature, or the chain id in its place. -/
def rlpAppendSignature (chainId : Option UInt64) : Option SignatureComponents → RlpWriter ε Unit
  | some signature => signature.rlpAppendWithChainId chainId
  | none =>
    match chainId with
    | some n => do
      append (u64.encode n)
      append (u8.encode 0)
      append (u8.encode 0)
    | none => pure ()

def encodeRlp (tx : Transaction) (chainId : Option UInt64)
    (signature : Option SignatureComponents) : RlpWriter ε Unit := do
  beginList (if chainId.isSome || signature.isSome then 9 else 6)
  tx.rlpAppendDataOpen
  rlpAppendSignature chainId signature

/-- Encode raw transaction. -/
def encode (tx : Transaction) (chainId : Option UInt64)
    (signature : Option SignatureComponents) : Outcome ε Bytes := do
  let stream ← written (tx.encodeRlp chainId signature)
  stream.out

def rlpAppend (tx : Transaction) (chainId : Option UInt64) (signature : SignatureComponents) :
    RlpWriter ε Unit := tx.encodeRlp chainId (some signature)

end Transaction

/-- One entry of an access list: the address and its storage keys. -/
def rlpAppendAccess (access : AccessListItem) : RlpWriter ε Unit := do
  beginList 2
  append (h160.encode access.1)
  beginList access.2.length
  access.2.forM fun storageKey => append (h256.encode storageKey)

def rlpAppendAccessList (accessList : AccessList) : RlpWriter ε Unit := do
  beginList accessList.length
  accessList.forM rlpAppendAccess

namespace AccessListTx

def encodePayload (tx : AccessListTx) (chainId : Option UInt64)
    (signature : Option SignatureComponents) : RlpWriter ε Unit := do
  beginList (if signature.isSome then 11 else 8)
  append (u64.encode (chainId.getD 0))
  tx.transaction.rlpAppendDataOpen
  rlpAppendAccessList tx.accessList
  SignatureComponents.rlpAppendGiven signature

def encode (tx : AccessListTx) (chainId : Option UInt64)
    (signature : Option SignatureComponents) : Outcome ε Bytes := do
  let stream ← written (tx.encodePayload chainId signature)
  .ok (TypedTxId.accessList.asU8 :: stream.asRaw)

def rlpAppend (tx : AccessListTx) (chainId : Option UInt64) (signature : SignatureComponents) :
    RlpWriter ε Unit := do
  let bytes ← compute (tx.encode chainId (some signature))
  append (.data bytes)

end AccessListTx

namespace EIP1559TransactionTx

def encodePayload (tx : EIP1559TransactionTx) (chainId : Option UInt64)
    (signature : Option SignatureComponents) : RlpWriter ε Unit := do
  beginList (if signature.isSome then 12 else 9)
  append (u64.encode (chainId.getD 0))
  append (u256.encode tx.transaction.transaction.nonce)
  append (u256.encode tx.maxPriorityFeePerGas)
  append (u256.encode tx.transaction.transaction.gasPrice)
  append (u256.encode tx.transaction.transaction.gas)
  append tx.transaction.transaction.action.item
  append (u256.encode tx.transaction.transaction.value)
  append (.data tx.transaction.transaction.data)
  rlpAppendAccessList tx.transaction.accessList
  SignatureComponents.rlpAppendGiven signature

def encode (tx : EIP1559TransactionTx) (chainId : Option UInt64)
    (signature : Option SignatureComponents) : Outcome ε Bytes := do
  let stream ← written (tx.encodePayload chainId signature)
  .ok (TypedTxId.eip1559Transaction.asU8 :: stream.asRaw)

def rlpAppend (tx : EIP1559TransactionTx) (chainId : Option UInt64)
    (signature : SignatureComponents) : RlpWriter ε Unit := do
  let bytes ← compute (tx.encode chainId (some signature))
  append (.data bytes)

end EIP1559TransactionTx

namespace TypedTransaction

def rlpAppend (tx : TypedTransaction) (chainId : Option UInt64) (signature : SignatureComponents) :
    RlpWriter ε Unit :=
  match tx with
  | .legacy tx => tx.rlpAppend chainId signature
  | .accessList tx => tx.rlpAppend chainId signature
  | .eip1559Transaction tx => tx.rlpAppend chainId signature

def encode (tx : TypedTransaction) (chainId : Option UInt64) (signature : SignatureComponents) :
    Outcome ε Bytes :=
  match tx with
  | .legacy tx => tx.encode chainId (some signature)
  | .accessList tx => tx.encode chainId (some signature)
  | .eip1559Transaction tx => tx.encode chainId (some signature)

def rlpAppendList (txList : List UnverifiedTransaction) : RlpWriter ε Unit := do
  beginList txList.length
  txList.forM fun tx => tx.unsigned.rlpAppend tx.chainId tx.signature

end TypedTransaction

namespace UnverifiedTransaction

def encode (tx : UnverifiedTransaction) : Outcome ε Bytes :=
  tx.unsigned.encode tx.chainId tx.signature

/-- Used to compute hash of created transactions. -/
def computeHash (keccak : Bytes → H256) (tx : UnverifiedTransaction) :
    Outcome ε UnverifiedTransaction := do
  let bytes ← tx.encode
  .ok { tx with hash := keccak bytes }

end UnverifiedTransaction

/-! ## What is written -/

namespace Transaction

/-- The six fields that all transactions share. -/
def items (tx : Transaction) : List Item :=
  [u256.encode tx.nonce, u256.encode tx.gasPrice, u256.encode tx.gas, tx.action.item,
    u256.encode tx.value, .data tx.data]

theorem writes_dataOpen (tx : Transaction) :
    Writes (tx.rlpAppendDataOpen : RlpWriter ε Unit) tx.items := by
  unfold rlpAppendDataOpen items
  apply Writes.cons
  apply Writes.cons
  apply Writes.cons
  apply Writes.cons
  apply Writes.cons
  exact Writes.append _

end Transaction

namespace SignatureComponents

/-- The signature with a `v` field. -/
def items (signature : SignatureComponents) (v : Item) : List Item :=
  [v, u256.encode signature.r, u256.encode signature.s]

theorem writes_rlpAppend (signature : SignatureComponents) :
    Writes (signature.rlpAppend : RlpWriter ε Unit)
      (signature.items (u8.encode signature.standardV)) := by
  unfold rlpAppend items
  apply Writes.cons
  apply Writes.cons
  exact Writes.append _

theorem writes_rlpAppendWithChainId (signature : SignatureComponents) (chainId : Option UInt64)
    {v : UInt64} (hv : (Signature.addChainReplayProtection signature.standardV chainId :
      Outcome ε UInt64) = .ok v) :
    Writes (signature.rlpAppendWithChainId chainId : RlpWriter ε Unit)
      (signature.items (u64.encode v)) := by
  unfold rlpAppendWithChainId items
  apply Writes.compute hv
  apply Writes.cons
  apply Writes.cons
  exact Writes.append _

end SignatureComponents

namespace Transaction

/-- The list of a legacy transaction. -/
def signedItem (tx : Transaction) (v : UInt64) (signature : SignatureComponents) : Item :=
  .list (tx.items ++ signature.items (u64.encode v))

theorem writes_encodeRlp (tx : Transaction) (chainId : Option UInt64)
    (signature : SignatureComponents) {v : UInt64}
    (hv : (Signature.addChainReplayProtection signature.standardV chainId :
      Outcome ε UInt64) = .ok v) :
    Writes (tx.encodeRlp chainId (some signature) : RlpWriter ε Unit)
      [tx.signedItem v signature] := by
  unfold encodeRlp signedItem
  apply Writes.list
  · exact tx.writes_dataOpen.seq (signature.writes_rlpAppendWithChainId chainId hv)
  · -- nine fields, and a signature is given
    rw [Option.isSome_some, Bool.or_true, if_pos rfl]
    rfl

theorem encode_eq (tx : Transaction) (chainId : Option UInt64) (signature : SignatureComponents)
    {v : UInt64} (hv : (Signature.addChainReplayProtection signature.standardV chainId :
      Outcome ε UInt64) = .ok v) :
    (tx.encode chainId (some signature) : Outcome ε Bytes) =
      .ok (tx.signedItem v signature).encode := by
  unfold encode
  rw [(tx.writes_encodeRlp chainId signature hv).written]
  rfl

end Transaction

/-- An access list: each entry is the list of its address and the list of its keys. -/
def accessItem (access : AccessListItem) : Item :=
  .list [h160.encode access.1, .list (access.2.map h256.encode)]

def accessListItem (accessList : AccessList) : Item := .list (accessList.map accessItem)

theorem writes_rlpAppendAccess (access : AccessListItem) :
    Writes (rlpAppendAccess access : RlpWriter ε Unit) [accessItem access] := by
  unfold rlpAppendAccess accessItem
  apply Writes.list
  · apply Writes.cons
    apply Writes.list
    · exact Writes.forM access.2 fun storageKey _ => Writes.append _
    · exact List.length_map _
  · rfl

theorem writes_rlpAppendAccessList (accessList : AccessList) :
    Writes (rlpAppendAccessList accessList : RlpWriter ε Unit) [accessListItem accessList] := by
  unfold rlpAppendAccessList accessListItem
  apply Writes.list
  · exact Writes.forM accessList fun access _ => writes_rlpAppendAccess access
  · exact List.length_map _

namespace AccessListTx

/-- The list of a transaction with an access list. -/
def signedItem (tx : AccessListTx) (chainId : UInt64) (signature : SignatureComponents) : Item :=
  .list (u64.encode chainId :: (tx.transaction.items ++ accessListItem tx.accessList ::
    signature.items (u8.encode signature.standardV)))

theorem encode_eq (tx : AccessListTx) (chainId : UInt64) (signature : SignatureComponents) :
    (tx.encode (some chainId) (some signature) : Outcome ε Bytes) =
      .ok (0x01 :: (tx.signedItem chainId signature).encode) := by
  have hwrites : Writes (tx.encodePayload (some chainId) (some signature) : RlpWriter ε Unit)
      [tx.signedItem chainId signature] := by
    unfold encodePayload signedItem
    apply Writes.list
    · apply Writes.cons
      apply tx.transaction.writes_dataOpen.seq
      exact (writes_rlpAppendAccessList tx.accessList).seq signature.writes_rlpAppend
    · rfl
  unfold encode
  rw [hwrites.written, Outcome.ok_bind]
  simp [RlpStream.asRaw, TypedTxId.asU8]

end AccessListTx

namespace EIP1559TransactionTx

/-- The list of a transaction with a priority fee. -/
def signedItem (tx : EIP1559TransactionTx) (chainId : UInt64) (signature : SignatureComponents) :
    Item :=
  .list ([u64.encode chainId, u256.encode tx.transaction.transaction.nonce,
    u256.encode tx.maxPriorityFeePerGas, u256.encode tx.transaction.transaction.gasPrice,
    u256.encode tx.transaction.transaction.gas, tx.transaction.transaction.action.item,
    u256.encode tx.transaction.transaction.value, .data tx.transaction.transaction.data,
    accessListItem tx.transaction.accessList] ++
    signature.items (u8.encode signature.standardV))

theorem encode_eq (tx : EIP1559TransactionTx) (chainId : UInt64)
    (signature : SignatureComponents) :
    (tx.encode (some chainId) (some signature) : Outcome ε Bytes) =
      .ok (0x02 :: (tx.signedItem chainId signature).encode) := by
  have hwrites : Writes (tx.encodePayload (some chainId) (some signature) : RlpWriter ε Unit)
      [tx.signedItem chainId signature] := by
    unfold encodePayload signedItem
    apply Writes.list
    · apply Writes.cons
      apply Writes.cons
      apply Writes.cons
      apply Writes.cons
      apply Writes.cons
      apply Writes.cons
      apply Writes.cons
      apply Writes.cons
      exact (writes_rlpAppendAccessList tx.transaction.accessList).seq signature.writes_rlpAppend
    · rfl
  unfold encode
  rw [hwrites.written, Outcome.ok_bind]
  simp [RlpStream.asRaw, TypedTxId.asU8]

end EIP1559TransactionTx

end Cashbox.Eth
