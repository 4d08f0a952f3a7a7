import Mathlib.Analysis.Complex.ExponentialBounds
import Cashbox.Crypto.Hex
import Cashbox.Btc.GetData

/-!
# The Bloom filter of the wallet

The wallet sends its peers a filter made from its public key; a peer sends a
transaction only if the filter contains one of the data elements that its scripts
push. `calculate_filter` reverses the bytes of the key before it hashes them, so the
one element that every such filter contains is the reversed key. A payment to the
wallet pushes the hash of the key instead, and a spend the key itself.

The hash function is a parameter.
-/

namespace Cashbox.Btc

open Cashbox.Lib

/-! ## Data pushes of a script -/

namespace Script

/-- `read_uint`: the little-endian value of the first bytes. -/
def readUint (bytes : Bytes) (size : Nat) : Nat := ofBe (bytes.take size).reverse

/-- A push of `n` bytes, unless the script ends before. -/
def pushBytes (n : Nat) (data : Bytes) : Option (Option Bytes × Bytes) :=
  if data.length < n then none else some (some (data.take n), data.drop n)

/-- A push whose length is in the `size` bytes before it. -/
def pushData (size : Nat) (data : Bytes) : Option (Option Bytes × Bytes) :=
  if data.length < size then none else pushBytes (readUint data size) (data.drop size)

/-- The first instruction: what it pushes, if it does, and the script after it. An
error ends the script. -/
def instruction : Bytes → Option (Option Bytes × Bytes)
  | [] => none
  | opcode :: data =>
    if opcode ≤ 0x4b then pushBytes opcode.toNat data
    else if opcode = 0x4c then pushData 1 data -- OP_PUSHDATA1
    else if opcode = 0x4d then pushData 2 data -- OP_PUSHDATA2
    else if opcode = 0x4e then pushData 4 data -- OP_PUSHDATA4
    else some (none, data)

/-- The elements pushed by the next `n` instructions. -/
def pushesOf : Nat → Bytes → List Bytes
  | 0, _ => []
  | n + 1, data =>
    match instruction data with
    | none => []
    | some (push, rest) => push.toList ++ pushesOf n rest

/-- The data elements of a script; it has no more instructions than bytes. -/
def dataPushes (s : Script) : List Bytes := pushesOf s.length s

end Script

/-- The data elements of the output and input scripts. -/
def Transaction.dataPushes (tx : Transaction) : List Bytes :=
  (tx.output.flatMap fun vout => vout.scriptPubkey.dataPushes) ++
    tx.input.flatMap fun txin => txin.scriptSig.dataPushes

/-! ## Bits and bytes -/

/-- The number that bits stand for, the least significant first. -/
def bitsValue : List Bool → Nat
  | [] => 0
  | b :: bits => b.toNat + 2 * bitsValue bits

/-- `BitVec::into_vec` in the order `Lsb0`, as `n` bytes. -/
def intoVec (n : Nat) (bits : List Bool) : Bytes :=
  (List.range n).map fun k => UInt8.ofNat (bitsValue ((bits.drop (8 * k)).take 8))

/-- The bit of a filter at an index, as a peer reads it. -/
def bitAt (filter : Bytes) (index : Nat) : Bool :=
  (filter[index / 8]?.getD 0).toNat.testBit (index % 8)

theorem bitsValue_lt (bits : List Bool) : bitsValue bits < 2 ^ bits.length := by
  induction bits with
  | nil => simp [bitsValue]
  | cons b bits ih =>
    rw [bitsValue, List.length_cons, Nat.pow_succ]
    have hb := Bool.toNat_lt b
    omega

theorem testBit_bitsValue (bits : List Bool) (i : Nat) :
    (bitsValue bits).testBit i = bits[i]?.getD false := by
  induction bits generalizing i with
  | nil => simp [bitsValue]
  | cons b bits ih =>
    cases i with
    | zero => cases b <;> simp [bitsValue]
    | succ i =>
      have hhalf : (b.toNat + 2 * bitsValue bits) / 2 = bitsValue bits := by
        have hb := Bool.toNat_lt b
        omega
      rw [bitsValue, Nat.testBit_succ, hhalf, ih, List.getElem?_cons_succ]

/-- A peer reads back the bits that were packed. -/
theorem bitAt_intoVec {n : Nat} (bits : List Bool) {index : Nat} (h : index < n * 8) :
    bitAt (intoVec n bits) index = bits[index]?.getD false := by
  have hbyte : (intoVec n bits)[index / 8]? =
      some (UInt8.ofNat (bitsValue ((bits.drop (8 * (index / 8))).take 8))) := by
    rw [intoVec, List.getElem?_map, List.getElem?_range (by omega)]
    rfl
  have hfits : bitsValue ((bits.drop (8 * (index / 8))).take 8) < 2 ^ 8 :=
    (bitsValue_lt _).trans_le (Nat.pow_le_pow_right (by omega) (List.length_take_le _ _))
  have hindex : 8 * (index / 8) + index % 8 = index := Nat.div_add_mod _ _
  rw [bitAt, hbyte, Option.getD_some, UInt8.toNat_ofNat', Nat.mod_eq_of_lt hfits,
    testBit_bitsValue, List.getElem?_take_of_lt (Nat.mod_lt _ (by omega)),
    List.getElem?_drop, hindex]

/-! ## The filter -/

/-- The message filterload. -/
structure FilterLoadMessage where
  /-- The filter itself is simply a bit field of arbitrary byte-aligned size. -/
  filter : Bytes
  /-- The number of hash functions to use in this filter. -/
  nHashFunctions : UInt32
  /-- A random value to add to the seed value in the hash function. -/
  nTweak : UInt32
  nFlags : UInt8
  deriving DecidableEq, Repr

namespace FilterLoadMessage

/-- Constant optimized to create large differences in the seed. -/
def magic : UInt32 := 0xFBA4C795

def fff : UInt32 := 0xffffffff

/-- The size of a filter for one element and a false positive rate of 0.00001. -/
def nFilterBytes : UInt32 := 2

/-- The number of hash functions for a filter of this size. -/
def nFilterFunctions : UInt32 := 11

/-- `calculate_filter` computes the size in floating point; this is the number it
truncates, over the reals. -/
theorem nFilterBytes_eq :
    ⌊(-1 / (Real.log 2 * Real.log 2) * 1 * Real.log 0.00001) / 8⌋₊ = nFilterBytes.toNat := by
  have hlow := Real.log_two_gt_d9
  have hpos : 0 < Real.log 2 * Real.log 2 := by positivity
  have hlog : Real.log 0.00001 = -(5 * Real.log 10) := by
    rw [show (0.00001 : ℝ) = ((10 : ℝ) ^ 5)⁻¹ by norm_num, Real.log_inv, Real.log_pow]
    norm_num
  -- the logarithm of ten between two rational multiples of that of two
  have hten : Real.log 8 ≤ Real.log 10 := Real.log_le_log (by norm_num) (by norm_num)
  have height : Real.log 8 = 3 * Real.log 2 := by
    rw [show (8 : ℝ) = 2 ^ 3 by norm_num, Real.log_pow]
    norm_num
  have hpow : 31 * Real.log 10 ≤ 103 * Real.log 2 := by
    have hle : Real.log (10 ^ 31) ≤ Real.log (2 ^ 103) :=
      Real.log_le_log (by norm_num) (by norm_num)
    rw [Real.log_pow, Real.log_pow] at hle
    exact_mod_cast hle
  have hquot : (-1 / (Real.log 2 * Real.log 2) * 1 * Real.log 0.00001) / 8 =
      5 * Real.log 10 / (8 * (Real.log 2 * Real.log 2)) := by
    rw [hlog]
    field_simp
  have hhigh := Real.log_two_lt_d9
  -- the quotient lies between two and three
  rw [hquot]
  refine (Nat.floor_eq_iff (by positivity)).mpr ⟨?_, ?_⟩
  · rw [le_div_iff₀ (by positivity)]
    show ((2 : Nat) : ℝ) * _ ≤ _
    push_cast
    nlinarith
  · rw [div_lt_iff₀ (by positivity)]
    show _ < (((2 : Nat) : ℝ) + 1) * _
    push_cast
    nlinarith

/-- The number of functions is truncated from `16 * ln 2`. -/
theorem nFilterFunctions_eq :
    ⌊((nFilterBytes.toNat : ℝ) * 8) / 1 * Real.log 2⌋₊ = nFilterFunctions.toNat := by
  have hlow := Real.log_two_gt_d9
  have hhigh := Real.log_two_lt_d9
  refine (Nat.floor_eq_iff (by positivity)).mpr ⟨?_, ?_⟩
  · show ((11 : Nat) : ℝ) ≤ ((2 : Nat) : ℝ) * 8 / 1 * Real.log 2
    push_cast
    linarith
  · show ((2 : Nat) : ℝ) * 8 / 1 * Real.log 2 < ((11 : Nat) : ℝ) + 1
    push_cast
    linarith

section Filter

variable (murmur3 : Bytes → UInt32 → UInt32)

/-- The index of the bit for a hash function. -/
def bloomHash (nHashNum : UInt32) (data : Bytes) (nFilterBytes : UInt32) : UInt32 :=
  let seed := (nHashNum * magic + 0) &&& fff
  murmur3 data seed % (nFilterBytes * 8)

/-- The loop that sets the bits of an element. -/
def setBits (data : Bytes) : List Bool :=
  (List.range nFilterFunctions.toNat).foldl
    (fun v i => v.set (bloomHash murmur3 (UInt32.ofNat i) data nFilterBytes).toNat true)
    (List.replicate (nFilterBytes * 8).toNat false)

/-- The message for an element, with its bytes in the order they are hashed. -/
def ofData (data : Bytes) : FilterLoadMessage :=
  { filter := intoVec nFilterBytes.toNat (setBits murmur3 data)
    nHashFunctions := nFilterFunctions
    nTweak := 0
    nFlags := 1 }

/-- Calculate filter, from the hexadecimal text of the one element. -/
def calculateFilter {ε : Type} (elements : Text) : Outcome ε FilterLoadMessage := do
  let dataToHash ← (Eth.hexDecode elements.asBytes).unwrap
  -- for big and little endian order, flip it
  let dataToHash := dataToHash.reverse
  .ok (ofData murmur3 dataToHash)

/-- A peer's test: every hash of the element hits a bit that is set. -/
def contains (m : FilterLoadMessage) (element : Bytes) : Bool :=
  (List.range m.nHashFunctions.toNat).all fun i =>
    let seed := UInt32.ofNat i * magic + m.nTweak
    bitAt m.filter (murmur3 element seed % UInt32.ofNat (m.filter.length * 8)).toNat

/-- The filter matches a transaction: it contains one of the pushed elements. -/
def isRelevant (m : FilterLoadMessage) (tx : Transaction) : Bool :=
  tx.dataPushes.any fun push => m.contains murmur3 push

/-! ### What the filter contains -/

/-- Some hash of the element hits the index. -/
def Hits (data : Bytes) (index : Nat) : Prop :=
  ∃ i < nFilterFunctions.toNat, (bloomHash murmur3 (UInt32.ofNat i) data nFilterBytes).toNat = index

theorem getElem?_setAll (hits : List Nat) (v : List Bool) (index : Nat) (h : index < v.length) :
    (hits.foldl (fun v i => v.set i true) v)[index]?.getD false = true ↔
      index ∈ hits ∨ v[index]?.getD false = true := by
  induction hits generalizing v with
  | nil => simp
  | cons i hits ih =>
    rw [List.foldl_cons, ih _ (by simpa using h), List.getElem?_set]
    by_cases hi : i = index
    · simp [hi, h]
    · simp [hi, Ne.symm hi]

theorem bloomHash_lt (i : UInt32) (data : Bytes) :
    (bloomHash murmur3 i data nFilterBytes).toNat < nFilterBytes.toNat * 8 := by
  rw [bloomHash, UInt32.toNat_mod]
  exact Nat.mod_lt _ (by decide)

/-- The bits of the filter are those that the element hits. -/
theorem setBits_iff (data : Bytes) {index : Nat} (h : index < nFilterBytes.toNat * 8) :
    (setBits murmur3 data)[index]?.getD false = true ↔ Hits murmur3 data index := by
  have hmap : setBits murmur3 data =
      ((List.range nFilterFunctions.toNat).map fun i =>
        (bloomHash murmur3 (UInt32.ofNat i) data nFilterBytes).toNat).foldl
        (fun v i => v.set i true) (List.replicate (nFilterBytes * 8).toNat false) := by
    rw [List.foldl_map]
    rfl
  have hfalse : (List.replicate (nFilterBytes * 8).toNat false)[index]?.getD false = false := by
    rw [List.getElem?_replicate]
    split <;> rfl
  rw [hmap, getElem?_setAll _ _ _ (by rw [List.length_replicate]; exact h), hfalse]
  simp [Hits]

theorem calculateFilter_hexEncode {ε : Type} (key : Bytes) :
    (calculateFilter murmur3 (Crypto.hexEncode key) : Outcome ε FilterLoadMessage) =
      .ok (ofData murmur3 key.reverse) := by
  rw [calculateFilter, Crypto.hexDecode_hexEncode]
  rfl

/-- A filter contains what hits no other bits than the data it is made of. -/
theorem contains_ofData (data element : Bytes) :
    (ofData murmur3 data).contains murmur3 element = true ↔
      ∀ i < nFilterFunctions.toNat,
        Hits murmur3 data (bloomHash murmur3 (UInt32.ofNat i) element nFilterBytes).toNat := by
  have hlength : (intoVec nFilterBytes.toNat (setBits murmur3 data)).length = 2 := by
    simp [intoVec, nFilterBytes]
  -- the peer's seed is the wallet's: the tweak is zero and the mask keeps every bit
  have hindex : ∀ i : UInt32,
      murmur3 element (i * magic + 0) % UInt32.ofNat (2 * 8) =
        bloomHash murmur3 i element nFilterBytes := by
    intro i
    show _ = murmur3 element ((i * magic + 0) &&& -1) % _
    rw [UInt32.and_neg_one]
    rfl
  rw [contains, List.all_eq_true]
  simp only [ofData, List.mem_range, hlength, hindex]
  refine forall₂_congr fun i _ => ?_
  rw [bitAt_intoVec _ (bloomHash_lt murmur3 _ _), setBits_iff _ _ (bloomHash_lt murmur3 _ _)]

/-- The filter contains the element in the order it was hashed. -/
theorem contains_ofData_self (data : Bytes) : (ofData murmur3 data).contains murmur3 data = true :=
  (contains_ofData murmur3 data data).mpr fun i hi => ⟨i, hi, rfl⟩

end Filter

end FilterLoadMessage

/-! ## What the wallet verifies -/

/-- `Verify`; the hexadecimal text of the key hash stands for its bytes. -/
structure Verify where
  address : Text
  publicKey : Text
  verify : Bytes
  filter : FilterLoadMessage

/-- `Verify::from_address`, of the address and public key of an `MAddress`. -/
def Verify.fromAddress {ε : Type} (hash160 : Bytes → Bytes) (murmur3 : Bytes → UInt32 → UInt32)
    (address publicKey : Text) : Outcome ε Verify := do
  -- trim 0x
  let publicKey ← Outcome.ofSome (publicKey.dropBytes 2)
  let key ← (Eth.hexDecode publicKey.asBytes).unwrap
  let filter ← FilterLoadMessage.calculateFilter murmur3 publicKey
  .ok { address, publicKey, verify := hash160 key, filter }

theorem Verify.fromAddress_hexEncode {ε : Type} (hash160 : Bytes → Bytes)
    (murmur3 : Bytes → UInt32 → UInt32) (address : Text) (key : Bytes) :
    (fromAddress hash160 murmur3 address ('0' :: 'x' :: Crypto.hexEncode key) :
      Outcome ε Verify) =
      .ok
        { address, publicKey := Crypto.hexEncode key, verify := hash160 key
          filter := FilterLoadMessage.ofData murmur3 key.reverse } := by
  have htrim : Text.dropBytes 2 ('0' :: 'x' :: Crypto.hexEncode key) =
      some (Crypto.hexEncode key) := by
    have hzero : Char.utf8Size '0' = 1 := rfl
    have hx : Char.utf8Size 'x' = 1 := rfl
    simp [Text.dropBytes, hzero, hx]
  rw [fromAddress, htrim, Outcome.ofSome, Outcome.ok_bind, Crypto.hexDecode_hexEncode,
    FilterLoadMessage.calculateFilter_hexEncode]
  rfl

/-- The wallet records the transaction as an income, or the transaction pushes the
wallet's public key. -/
def Concerns (verify key : Bytes) (tx : Transaction) : Prop :=
  (∃ vout ∈ tx.output, paysWallet verify vout) ∨ key ∈ tx.dataPushes

/-- The filter of a wallet matches a transaction that concerns it, whatever the hash
function is, exactly when the transaction pushes the reversed public key. -/
theorem isRelevant_iff_reversed (hash160 : Bytes → Bytes) (address : Text) (key : Bytes)
    (tx : Transaction) :
    (∀ murmur3 : Bytes → UInt32 → UInt32, ∃ v : Verify,
        Verify.fromAddress hash160 murmur3 address ('0' :: 'x' :: Crypto.hexEncode key) =
          (.ok v : Outcome Error Verify) ∧
        (Concerns v.verify key tx → v.filter.isRelevant murmur3 tx = true)) ↔
      (Concerns (hash160 key) key tx → key.reverse ∈ tx.dataPushes) := by
  constructor
  · intro h hconcerns
    -- a hash function that tells the reversed key apart
    let murmur3 : Bytes → UInt32 → UInt32 := fun data _ => if data = key.reverse then 0 else 1
    obtain ⟨v, hv, hrelevant⟩ := h murmur3
    rw [Verify.fromAddress_hexEncode] at hv
    obtain rfl := Outcome.ok.inj hv
    obtain ⟨push, hpush, hcontains⟩ := List.any_eq_true.mp (hrelevant hconcerns)
    obtain ⟨i, _, hhit⟩ :=
      (FilterLoadMessage.contains_ofData murmur3 _ push).mp hcontains 0 (by decide)
    by_cases hrev : push = key.reverse
    · exact hrev ▸ hpush
    · have hone : FilterLoadMessage.bloomHash murmur3 (UInt32.ofNat 0) push
          FilterLoadMessage.nFilterBytes = 1 := by
        simp only [FilterLoadMessage.bloomHash, murmur3, if_neg hrev]
        rfl
      have hzero : FilterLoadMessage.bloomHash murmur3 (UInt32.ofNat i) key.reverse
          FilterLoadMessage.nFilterBytes = 0 := by
        simp only [FilterLoadMessage.bloomHash, murmur3, if_pos]
        rfl
      rw [hone, hzero] at hhit
      exact absurd hhit (by decide)
  · intro h murmur3
    refine ⟨_, Verify.fromAddress_hexEncode hash160 murmur3 address key, fun hconcerns => ?_⟩
    exact List.any_eq_true.mpr ⟨_, h hconcerns, FilterLoadMessage.contains_ofData_self murmur3 _⟩

/-- An income of the compressed generator point, whose hash is known. Where the bits of an
element are the parity of its first byte, the filter does not match it. -/
theorem not_isRelevant_of_income :
    let key : Bytes :=
      [0x02, 0x79, 0xbe, 0x66, 0x7e, 0xf9, 0xdc, 0xbb, 0xac, 0x55, 0xa0, 0x62, 0x95,
       0xce, 0x87, 0x0b, 0x07, 0x02, 0x9b, 0xfc, 0xdb, 0x2d, 0xce, 0x28, 0xd9, 0x59,
       0xf2, 0x81, 0x5b, 0x16, 0xf8, 0x17, 0x98]
    let hash160 : Bytes → Bytes := fun _ =>
      [0x75, 0x1e, 0x76, 0xe8, 0x19, 0x91, 0x96, 0xd4, 0x54, 0x94, 0x1c, 0x45, 0xd1,
       0xb3, 0xa3, 0x23, 0xf1, 0x43, 0x3b, 0xd6]
    let murmur3 : Bytes → UInt32 → UInt32 := fun data _ => UInt32.ofNat (data.headI.toNat % 2)
    let vout : TxOut := { value := 1000, scriptPubkey := Script.p2pkh (hash160 key) }
    let tx : Transaction := { version := 1, lockTime := 0, input := [], output := [vout] }
    ∃ v : Verify,
      Verify.fromAddress hash160 murmur3 [] ('0' :: 'x' :: Crypto.hexEncode key) =
        (.ok v : Outcome Error Verify) ∧
      Concerns v.verify key tx ∧ v.filter.isRelevant murmur3 tx = false := by
  intro key hash160 murmur3 vout tx
  refine ⟨_, Verify.fromAddress_hexEncode hash160 murmur3 [] key, Or.inl ⟨vout, ?_, ?_⟩, ?_⟩
  · exact List.mem_singleton_self vout
  · decide +kernel
  · decide +kernel

end Cashbox.Btc
