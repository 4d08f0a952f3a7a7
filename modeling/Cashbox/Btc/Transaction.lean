import Cashbox.Lib.Bytes
import Cashbox.Btc.BlockHeader

/-!
# Transactions

Bitcoin transactions, their consensus encoding and their two hashes. `txid` is
the hash other transactions refer to; `bitcoinHash` hashes the whole encoding,
with the witnesses where there are any. The two agree for a transaction that has
inputs and no witness.
-/

namespace Cashbox.Btc

open Cashbox.Lib

/-! ## Scripts -/

abbrev Script := Bytes

namespace Script

/-- Checks whether a script pubkey is a p2pkh output. -/
def isP2pkh (s : Script) : Bool :=
  s.length == 25 &&
    s[0]? == some 0x76 && -- OP_DUP
    s[1]? == some 0xa9 && -- OP_HASH160
    s[2]? == some 0x14 && -- OP_PUSHBYTES_20
    s[23]? == some 0x88 && -- OP_EQUALVERIFY
    s[24]? == some 0xac -- OP_CHECKSIG

/-- The bytes that the fourth word of the `asm` of a p2pkh script writes in hex. -/
def keyHash (s : Script) : Bytes := (s.drop 3).take 20

/-- The p2pkh script of a key hash. -/
def p2pkh (hash : Bytes) : Script := [0x76, 0xa9, 0x14] ++ hash ++ [0x88, 0xac]

end Script

/-! ## Transactions -/

structure OutPoint where
  txid : Sha256dHash
  vout : UInt32
  deriving DecidableEq, Repr

structure TxIn where
  previousOutput : OutPoint
  scriptSig : Script
  sequence : UInt32
  witness : List Bytes
  deriving DecidableEq, Repr

structure TxOut where
  value : UInt64
  scriptPubkey : Script
  deriving DecidableEq, Repr

structure Transaction where
  version : UInt32
  lockTime : UInt32
  input : List TxIn
  output : List TxOut
  deriving DecidableEq, Repr

/-! ## Consensus encoding -/

def encodeVarInt (n : Nat) : Bytes :=
  if n < 0xFD then leBytes 1 n
  else if n ≤ 0xFFFF then 0xFD :: leBytes 2 n
  else if n ≤ 0xFFFFFFFF then 0xFE :: leBytes 4 n
  else 0xFF :: leBytes 8 n

def encodeBytes (b : Bytes) : Bytes := encodeVarInt b.length ++ b

/-- `Vec<T>::consensus_encode`. -/
def encodeVec {α : Type} (encode : α → Bytes) (xs : List α) : Bytes :=
  encodeVarInt xs.length ++ xs.flatMap encode

def OutPoint.encode (o : OutPoint) : Bytes := leBytes 32 o.txid.toNat ++ leBytes 4 o.vout.toNat

def TxIn.encode (i : TxIn) : Bytes :=
  i.previousOutput.encode ++ encodeBytes i.scriptSig ++ leBytes 4 i.sequence.toNat

def TxOut.encode (o : TxOut) : Bytes := leBytes 8 o.value.toNat ++ encodeBytes o.scriptPubkey

namespace Transaction

/-- Whether the encoding carries witnesses. -/
def haveWitness (tx : Transaction) : Bool :=
  tx.input.isEmpty || tx.input.any fun i => !i.witness.isEmpty

/-- The encoding `txid` hashes. -/
def encodeStripped (tx : Transaction) : Bytes :=
  leBytes 4 tx.version.toNat ++ encodeVec TxIn.encode tx.input ++
    encodeVec TxOut.encode tx.output ++ leBytes 4 tx.lockTime.toNat

def consensusEncode (tx : Transaction) : Bytes :=
  if tx.haveWitness then
    leBytes 4 tx.version.toNat ++ [0, 1] ++ encodeVec TxIn.encode tx.input ++
      encodeVec TxOut.encode tx.output ++
      tx.input.flatMap (fun i => encodeVec encodeBytes i.witness) ++ leBytes 4 tx.lockTime.toNat
  else tx.encodeStripped

section Hashes

variable (sha256d : Bytes → Sha256dHash)

def txid (tx : Transaction) : Sha256dHash := sha256d tx.encodeStripped

def bitcoinHash (tx : Transaction) : Sha256dHash := sha256d tx.consensusEncode

/-- Without witnesses the two hashes are one. -/
theorem bitcoinHash_eq_txid {tx : Transaction} (h : tx.haveWitness = false) :
    tx.bitcoinHash sha256d = tx.txid sha256d := by
  simp [bitcoinHash, txid, consensusEncode, h]

end Hashes

end Transaction

end Cashbox.Btc
