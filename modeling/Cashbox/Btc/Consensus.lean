import Cashbox.Lib.Reader
import Cashbox.Lib.Text
import Cashbox.Btc.Transaction

/-!
# Consensus decoding

The decoders of the types that messages are made of, over any source of bytes. A vector
is read element by element after its length, and the length is checked against the memory
that the elements would take, not against the bytes that there are.
-/

namespace Cashbox.Btc

open Cashbox.Lib

/-! ## Errors -/

/-- `io::ErrorKind` -/
inductive ErrorKind where
  | unexpectedEof
  | invalidData
  | other
  deriving DecidableEq, Repr

/-- Encoding error. -/
inductive EncodeError where
  | io (kind : ErrorKind)
  | oversizedVectorAllocation (requested max : Nat)
  | invalidChecksum (expected actual : Bytes)
  | parseFailed (msg : String)
  | unsupportedSegwitFlag (flag : UInt8)
  | unrecognizedNetworkCommand (cmd : Text)
  deriving DecidableEq, Repr

/-- The error of a `read_exact` that finds too few bytes. -/
def EncodeError.eof : EncodeError := .io .unexpectedEof

abbrev Decode (α : Type) := Reader EncodeError α

def Decode.fail {α : Type} (e : EncodeError) : Decode α := Reader.lift (.err e)

/-! ## Numbers -/

/-- An unsigned little-endian number of `k` bytes. -/
def readUint (k : Nat) : Decode Nat := do
  let bytes ← Reader.take k
  return ofBe bytes.reverse

def readU8 : Decode UInt8 := do return UInt8.ofNat (← readUint 1)

def readU16 : Decode UInt16 := do return UInt16.ofNat (← readUint 2)

def readU32 : Decode UInt32 := do return UInt32.ofNat (← readUint 4)

def readU64 : Decode UInt64 := do return UInt64.ofNat (← readUint 8)

def readI32 : Decode Int32 := do return (← readU32).toInt32

def readI64 : Decode Int64 := do return (← readU64).toInt64

def readBool : Decode Bool := do return (← readU8) != 0

/-- A variable-length unsigned integer. -/
def decodeVarInt : Decode Nat := do
  let n ← readUint 1
  if n = 0xFF then
    let x ← readUint 8
    if x < 0x100000000 then .fail (.parseFailed "non-minimal varint") else return x
  else if n = 0xFE then
    let x ← readUint 4
    if x < 0x10000 then .fail (.parseFailed "non-minimal varint") else return x
  else if n = 0xFD then
    let x ← readUint 2
    if x < 0xFD then .fail (.parseFailed "non-minimal varint") else return x
  else return n

/-! ## Vectors -/

/-- Maximum size, in bytes, of a vector we are allowed to decode. -/
def maxVecSize : Nat := 32 * 1024 * 1024

/-- The check of a length before the elements are read, with a `usize` of 64 bits. -/
def checkVecSize (len size : Nat) : Outcome EncodeError Unit :=
  if 2 ^ 64 ≤ len * size then .err (.parseFailed "Invalid length")
  else if maxVecSize < len * size then .err (.oversizedVectorAllocation (len * size) maxVecSize)
  else .ok ()

/-- `Vec<T>::consensus_decode` where `T` takes `size` bytes in memory. -/
def decodeVec {α : Type} (size : Nat) (decode : Decode α) : Decode (List α) := do
  let len ← decodeVarInt
  Reader.lift (checkVecSize len size)
  decode.times len

/-- `Vec<u8>::consensus_decode` -/
def decodeBytes : Decode Bytes := do
  let len ← decodeVarInt
  if maxVecSize < len then .fail (.oversizedVectorAllocation len maxVecSize)
  else Reader.take len

def encodeString (s : Text) : Bytes := encodeBytes s.asBytes

def decodeString : Decode Text := do
  let bytes ← decodeBytes
  match Text.fromUtf8 bytes with
  | some s => return s
  | none => .fail (.parseFailed "String was not valid UTF8")

def encodeHash (hash : Sha256dHash) : Bytes := leBytes 32 hash.toNat

def decodeHash : Decode Sha256dHash := do return BitVec.ofNat 256 (← readUint 32)

/-! ## Sizes in memory

`mem::size_of` of the element types, on a target of 64 bits. -/

def sizeOfHash : Nat := 32
def sizeOfInventory : Nat := 33
def sizeOfTimedAddress : Nat := 40
def sizeOfBytes : Nat := 24
def sizeOfTxIn : Nat := 80
def sizeOfTxOut : Nat := 24
def sizeOfTransaction : Nat := 56
def sizeOfBlockHeader : Nat := 80

/-! ## Transactions and blocks -/

def OutPoint.consensusDecode : Decode OutPoint := do
  let txid ← decodeHash
  let vout ← readU32
  return { txid, vout }

def TxIn.consensusDecode : Decode TxIn := do
  let previousOutput ← OutPoint.consensusDecode
  let scriptSig ← decodeBytes
  let sequence ← readU32
  return { previousOutput, scriptSig, sequence, witness := [] }

def TxOut.consensusDecode : Decode TxOut := do
  let value ← readU64
  let scriptPubkey ← decodeBytes
  return { value, scriptPubkey }

/-- The loop that reads the witness of each input. -/
def decodeWitnesses : List TxIn → Decode (List TxIn)
  | [] => return []
  | txin :: input => do
    let witness ← decodeVec sizeOfBytes decodeBytes
    let input ← decodeWitnesses input
    return { txin with witness } :: input

def Transaction.consensusDecode : Decode Transaction := do
  let version ← readU32
  let input ← decodeVec sizeOfTxIn TxIn.consensusDecode
  -- segwit
  if input.isEmpty then
    let segwitFlag ← readU8
    if segwitFlag = 1 then
      let input ← decodeVec sizeOfTxIn TxIn.consensusDecode
      let output ← decodeVec sizeOfTxOut TxOut.consensusDecode
      let input ← decodeWitnesses input
      if !input.isEmpty && input.all (fun txin => txin.witness.isEmpty) then
        .fail (.parseFailed "witness flag set but no witnesses present")
      else
        let lockTime ← readU32
        return { version, input, output, lockTime }
    else .fail (.unsupportedSegwitFlag segwitFlag)
  else
    let output ← decodeVec sizeOfTxOut TxOut.consensusDecode
    let lockTime ← readU32
    return { version, input, output, lockTime }

def BlockHeader.consensusEncode (h : BlockHeader) : Bytes :=
  leBytes 4 h.version.toNat ++ encodeHash h.prevBlockhash ++ encodeHash h.merkleRoot ++
    leBytes 4 h.time.toNat ++ leBytes 4 h.bits.toNat ++ leBytes 4 h.nonce.toNat

def BlockHeader.consensusDecode : Decode BlockHeader := do
  let version ← readU32
  let prevBlockhash ← decodeHash
  let merkleRoot ← decodeHash
  let time ← readU32
  let bits ← readU32
  let nonce ← readU32
  return { version, prevBlockhash, merkleRoot, time, bits, nonce }

/-- A Bitcoin block. -/
structure Block where
  header : BlockHeader
  txdata : List Transaction
  deriving DecidableEq, Repr

def Block.consensusEncode (b : Block) : Bytes :=
  b.header.consensusEncode ++ encodeVec Transaction.consensusEncode b.txdata

def Block.consensusDecode : Decode Block := do
  let header ← BlockHeader.consensusDecode
  let txdata ← decodeVec sizeOfTransaction Transaction.consensusDecode
  return { header, txdata }

/-! ## Inventories -/

inductive InvType where
  | error
  | transaction
  | block
  | witnessBlock
  | witnessTransaction
  | filteredBlock
  deriving DecidableEq, Repr

/-- An inventory object: a reference to a Bitcoin object. -/
structure Inventory where
  invType : InvType
  hash : Sha256dHash
  deriving DecidableEq, Repr

def InvType.code : InvType → Nat
  | .error => 0
  | .transaction => 1
  | .block => 2
  | .witnessBlock => 0x40000002
  | .witnessTransaction => 0x40000001
  | .filteredBlock => 3

def Inventory.consensusEncode (i : Inventory) : Bytes :=
  leBytes 4 i.invType.code ++ encodeHash i.hash

/-- An unknown type is a call of `panic!`, also the two witness types that the encoder
writes. -/
def InvType.ofCode : Nat → Outcome EncodeError InvType
  | 0 => .ok .error
  | 1 => .ok .transaction
  | 2 => .ok .block
  | 3 => .ok .filteredBlock
  | _ => .panic .explicit

def Inventory.consensusDecode : Decode Inventory := do
  let intType ← readUint 4
  -- the type is matched before the hash is read
  let invType ← Reader.lift (InvType.ofCode intType)
  let hash ← decodeHash
  return { invType, hash }

end Cashbox.Btc
