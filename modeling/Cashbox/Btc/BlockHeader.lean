import Mathlib.Data.BitVec
import Cashbox.Lib.Outcome

/-!
# Block headers, targets and proof of work

The header of a Bitcoin block, the 256-bit target its `bits` field encodes and
the SPV check of its proof of work. Hashes and targets are 256-bit words; a hash
is read as the little-endian number its bytes denote, as `spv_validate` reads it.
The double SHA-256 of a header is a parameter of the model.
-/

namespace Cashbox.Btc

open Cashbox.Lib

/-! ## Words and headers -/

/-- `Uint256`: four 64-bit words, little-endian. -/
abbrev Uint256 := BitVec 256

/-- `sha256d::Hash`, as the number its bytes denote. -/
abbrev Sha256dHash := BitVec 256

inductive Network where
  | bitcoin
  | testnet
  | regtest
  deriving DecidableEq, Repr

/-- The errors of the BTC light client that its modelled functions return. -/
inductive Error where
  | spvBadTarget
  | spvBadProofOfWork
  | unconnectedHeader
  | noTip
  | hammersbald
  | rbatis
  | btcTx (msg : String)
  deriving DecidableEq, Repr

structure BlockHeader where
  version : UInt32
  prevBlockhash : Sha256dHash
  merkleRoot : Sha256dHash
  time : UInt32
  bits : UInt32
  nonce : UInt32
  deriving DecidableEq, Repr

/-- `genesis_block(network).header`; the merkle root is the id of the one
transaction of the block. -/
def genesisHeader (genesisTxid : Sha256dHash) : Network → BlockHeader
  | .bitcoin =>
    { version := 1, prevBlockhash := 0, merkleRoot := genesisTxid, time := 1231006505,
      bits := 0x1d00ffff, nonce := 2083236893 }
  | .testnet =>
    { version := 1, prevBlockhash := 0, merkleRoot := genesisTxid, time := 1296688602,
      bits := 0x1d00ffff, nonce := 414098458 }
  | .regtest =>
    { version := 1, prevBlockhash := 0, merkleRoot := genesisTxid, time := 1296688602,
      bits := 0x207fffff, nonce := 2 }

@[simp] theorem genesisHeader_prevBlockhash (genesisTxid : Sha256dHash) (network : Network) :
    (genesisHeader genesisTxid network).prevBlockhash = 0 := by
  cases network <;> rfl

/-! ## Targets -/

/-- The target that the compact form `bits` encodes. -/
def BlockHeader.target (header : BlockHeader) : Uint256 :=
  let unshiftedExpt := header.bits >>> 24
  let (mant, expt) :=
    if unshiftedExpt ≤ 3 then
      ((header.bits &&& 0xFFFFFF) >>> (8 * (3 - unshiftedExpt)), 0)
    else
      (header.bits &&& 0xFFFFFF, 8 * (unshiftedExpt - 3))
  -- the mantissa is signed but may not be negative
  if mant > 0x7FFFFF then 0 else BitVec.ofNat 256 mant.toNat <<< expt.toNat

/-- Difficulty one. -/
def maxTarget : Uint256 := 0xFFFF#256 <<< 208

/-- `Uint256::bits`: the least number of bits needed to represent the number. -/
def bits (n : Uint256) : Nat := if n = 0 then 0 else Nat.log2 n.toNat + 1

/-- Drops the precision that the compact form cannot express. -/
def satoshiThePrecision (n : Uint256) : Outcome Error Uint256 := do
  let bytes ← checkedSub ((bits n + 7) / 8) 3
  let shift := 8 * bytes
  let ret := n >>> shift
  let ret := if ret.getLsbD 23 then (ret >>> 8) <<< 8 else ret
  return ret <<< shift

/-- `Uint256::increment`; a checked build does not let the sum in the low word overflow. -/
def increment (n : Uint256) : Option Uint256 :=
  if n.toNat % 2 ^ 64 + 1 < 2 ^ 64 then some (n + 1) else none

/-- `CachedHeader::work`, by `2^256 / (target + 1) = ~target / (target + 1) + 1`. There is no
result for the target zero, whose quotient has every bit set. -/
def BlockHeader.work (header : BlockHeader) : Option Uint256 := do
  let ret1 ← increment header.target
  increment (~~~header.target / ret1)

/-- `CachedHeader::spv_validate`, for a header with this id. -/
def spvValidate (id : Sha256dHash) (header : BlockHeader) (requiredTarget : Uint256) :
    Outcome Error Unit :=
  if header.target ≠ requiredTarget then .err .spvBadTarget
  else if id ≤ header.target then .ok ()
  else .err .spvBadProofOfWork

/-- A header passes the check exactly when it carries the required target and
its hash lands below it. -/
theorem spvValidate_eq_ok {id : Sha256dHash} {header : BlockHeader} {required : Uint256} :
    spvValidate id header required = .ok () ↔ header.target = required ∧ id ≤ required := by
  unfold spvValidate
  split_ifs with ht hid
  · simp [ht]
  · have htar : header.target = required := not_not.mp ht
    simp [htar, htar ▸ hid]
  · have htar : header.target = required := not_not.mp ht
    simp [htar, htar ▸ hid]

end Cashbox.Btc
