import Cashbox.Eth.Decode

/-!
# Round trip of typed transactions

What is written is read back: a transaction from its encoding, and a list of
transactions from the list of their items. In such a list a legacy transaction is
an item of its own and the others are strings that hold their encoding.

The bytes are assumed to be fewer than `2 ^ 64`, which is the longest payload that
the format can announce.
-/

namespace Cashbox.Eth

open Cashbox.Lib Cashbox.Lib.Rlp

variable {ε : Type}

/-! ## The v field -/

namespace Signature

/-- What is added to the standard v. -/
def offset : Option UInt64 → Nat
  | some n => 35 + n.toNat * 2
  | none => 27

/-- The v field of a legacy transaction. -/
def protectedV (v : UInt8) (chainId : Option UInt64) : UInt64 :=
  UInt64.ofNat (v.toNat + offset chainId)

/-- The v field fits its word. -/
def Fits (v : UInt8) (chainId : Option UInt64) : Prop := v.toNat + offset chainId < 2 ^ 64

theorem addChainReplayProtection_of_fits {v : UInt8} {chainId : Option UInt64}
    (h : Fits v chainId) :
    (addChainReplayProtection v chainId : Outcome ε UInt64) = .ok (protectedV v chainId) := by
  unfold Fits at h
  have hoffset : (replayOffset chainId : Outcome ε Nat) = .ok (offset chainId) := by
    cases chainId with
    | none => rfl
    | some n =>
      simp only [offset] at h ⊢
      show (checkedMul 64 n.toNat 2 >>= fun doubled => checkedAdd 64 35 doubled) = _
      rw [checkedMul_of_lt (by omega), Outcome.ok_bind, checkedAdd_of_lt (by omega)]
  unfold addChainReplayProtection
  rw [hoffset, Outcome.ok_bind, checkedAdd_of_lt h]
  rfl

theorem toNat_protectedV {v : UInt8} {chainId : Option UInt64} (h : Fits v chainId) :
    (protectedV v chainId).toNat = v.toNat + offset chainId := UInt64.toNat_ofNat_of_lt h

/-- A standard v is recovered. -/
theorem extractStandardV_protectedV {v : UInt8} {chainId : Option UInt64} (hv : v ≤ 1)
    (h : Fits v chainId) : extractStandardV (protectedV v chainId) = v := by
  have hle : v.toNat ≤ 1 := UInt8.le_iff_toNat_le.mp hv
  have hnat := toNat_protectedV h
  unfold extractStandardV
  cases chainId with
  | none =>
    -- the two values of v without a chain id
    rcases (by omega : v.toNat = 0 ∨ v.toNat = 1) with hzero | hone
    · have hv0 : v = 0 := UInt8.toNat_inj.mp hzero
      subst hv0
      rfl
    · have hv1 : v = 1 := UInt8.toNat_inj.mp hone
      subst hv1
      rfl
  | some n =>
    simp only [offset] at hnat
    have h27 : protectedV v (some n) ≠ 27 := by
      intro heq
      rw [heq, show (27 : UInt64).toNat = 27 from rfl] at hnat
      omega
    have h28 : protectedV v (some n) ≠ 28 := by
      intro heq
      rw [heq, show (28 : UInt64).toNat = 28 from rfl] at hnat
      omega
    have h35 : 35 ≤ protectedV v (some n) := by
      rw [UInt64.le_iff_toNat_le, hnat]
      show 35 ≤ _
      omega
    rw [if_neg h27, if_neg h28, if_pos h35]
    apply UInt8.toNat_inj.mp
    have hone : (1 : UInt64) ≤ protectedV v (some n) := by
      rw [UInt64.le_iff_toNat_le, hnat]
      show 1 ≤ _
      omega
    rw [UInt64.toNat_toUInt8, UInt64.toNat_mod, UInt64.toNat_sub_of_le _ _ hone, hnat]
    show (v.toNat + (35 + n.toNat * 2) - 1) % 2 % 256 = v.toNat
    omega

/-- The chain id is recovered. -/
theorem extractChainId_protectedV {v : UInt8} {chainId : Option UInt64} (hv : v ≤ 1)
    (h : Fits v chainId) :
    extractChainIdFromLegacyV (protectedV v chainId) = chainId := by
  have hle : v.toNat ≤ 1 := UInt8.le_iff_toNat_le.mp hv
  have hnat := toNat_protectedV h
  unfold extractChainIdFromLegacyV
  cases chainId with
  | none =>
    simp only [offset] at hnat
    -- without protection v is 27 or 28
    have h35 : ¬ 35 ≤ protectedV v none := by
      rw [UInt64.le_iff_toNat_le, hnat]
      show ¬ 35 ≤ _
      omega
    rw [if_neg h35]
  | some n =>
    simp only [offset] at hnat
    -- with it v is past 35, twice the chain id and the parity
    have h35 : 35 ≤ protectedV v (some n) := by
      rw [UInt64.le_iff_toNat_le, hnat]
      show 35 ≤ _
      omega
    rw [if_pos h35]
    apply congrArg
    apply UInt64.toNat_inj.mp
    rw [UInt64.toNat_div, UInt64.toNat_sub_of_le _ _ h35, hnat]
    show (v.toNat + (35 + n.toNat * 2) - 35) / 2 = n.toNat
    omega

end Signature

/-! ## Transactions as items -/

namespace UnverifiedTransaction

/-- What a round trip needs: a legacy transaction has a standard v of 0 or 1 and a
chain id that its v field can hold, the others have a chain id. -/
def WellFormed (u : UnverifiedTransaction) : Prop :=
  match u.unsigned with
  | .legacy _ =>
    u.signature.standardV ≤ 1 ∧ ∀ n, u.chainId = some n → 36 + 2 * n.toNat < 2 ^ 64
  | .accessList _ => ∃ n, u.chainId = some n
  | .eip1559Transaction _ => ∃ n, u.chainId = some n

/-- The RLP list of a transaction. -/
def signedItem (u : UnverifiedTransaction) : Item :=
  match u.unsigned with
  | .legacy tx =>
    tx.signedItem (Signature.protectedV u.signature.standardV u.chainId) u.signature
  | .accessList tx => tx.signedItem (u.chainId.getD 0) u.signature
  | .eip1559Transaction tx => tx.signedItem (u.chainId.getD 0) u.signature

/-- The encoding of a transaction: its list, after the type byte if it has one. -/
def bytes (u : UnverifiedTransaction) : Bytes :=
  match u.unsigned with
  | .legacy _ => u.signedItem.encode
  | .accessList _ => 0x01 :: u.signedItem.encode
  | .eip1559Transaction _ => 0x02 :: u.signedItem.encode

/-- A transaction as an item of a list. -/
def listItem (u : UnverifiedTransaction) : Item :=
  match u.unsigned with
  | .legacy _ => u.signedItem
  | .accessList _ => .data u.bytes
  | .eip1559Transaction _ => .data u.bytes

theorem fits_of_legacy {v : UInt8} {chainId : Option UInt64} (hv : v ≤ 1)
    (h : ∀ n, chainId = some n → 36 + 2 * n.toNat < 2 ^ 64) : Signature.Fits v chainId := by
  have hle : v.toNat ≤ 1 := UInt8.le_iff_toNat_le.mp hv
  unfold Signature.Fits
  cases chainId with
  | none =>
    show v.toNat + 27 < _
    omega
  | some n =>
    have hn := h n rfl
    show v.toNat + (35 + n.toNat * 2) < _
    omega

theorem WellFormed.encode_eq {u : UnverifiedTransaction} (h : u.WellFormed) :
    (u.encode : Outcome ε Bytes) = .ok u.bytes := by
  obtain ⟨unsigned, signature, chainId, hash⟩ := u
  cases unsigned with
  | legacy tx =>
    have hfits := fits_of_legacy h.1 h.2
    exact tx.encode_eq chainId signature (Signature.addChainReplayProtection_of_fits hfits)
  | accessList tx =>
    obtain ⟨n, rfl⟩ := h
    exact tx.encode_eq n signature
  | eip1559Transaction tx =>
    obtain ⟨n, rfl⟩ := h
    exact tx.encode_eq n signature

theorem WellFormed.writes {u : UnverifiedTransaction} (h : u.WellFormed) :
    Writes (u.unsigned.rlpAppend u.chainId u.signature : RlpWriter ε Unit) [u.listItem] := by
  obtain ⟨unsigned, signature, chainId, hash⟩ := u
  cases unsigned with
  | legacy tx =>
    have hfits := fits_of_legacy h.1 h.2
    exact tx.writes_encodeRlp chainId signature (Signature.addChainReplayProtection_of_fits hfits)
  | accessList tx =>
    obtain ⟨n, rfl⟩ := h
    apply Writes.compute (tx.encode_eq n signature)
    exact Writes.append _
  | eip1559Transaction tx =>
    obtain ⟨n, rfl⟩ := h
    apply Writes.compute (tx.encode_eq n signature)
    exact Writes.append _

/-- The hash field is the one that `compute_hash` sets. -/
theorem WellFormed.hash_eq {keccak : Bytes → H256} {u : UnverifiedTransaction} (h : u.WellFormed)
    (hhash : (u.computeHash keccak : Outcome ε _) = .ok u) : u.hash = keccak u.bytes := by
  unfold computeHash at hhash
  rw [h.encode_eq, Outcome.ok_bind, Outcome.ok.injEq] at hhash
  exact (congrArg UnverifiedTransaction.hash hhash).symm

end UnverifiedTransaction

/-! ## Reading back -/

/-- The first byte of a list has its first bit set. -/
theorem header_bit {len : Nat} (h : len < 2 ^ 64) :
    UInt8.ofNat (0xc0 + lengthByte len) &&& 0x80 ≠ 0x00 := by
  have hall : ∀ k < 64, UInt8.ofNat (0xc0 + k) &&& 0x80 ≠ 0x00 := by decide
  exact hall _ (Nat.lt_succ_of_le (lengthByte_le h))

variable {keccak : Bytes → H256}

/-- The bytes of a list are taken for a legacy transaction. -/
theorem TypedTransaction.decode_list (keccak : Bytes → H256) {xs : List Item} (rest : Bytes)
    (hsize : (Item.list xs).encode.length < 2 ^ 64) :
    TypedTransaction.decode keccak ((Item.list xs).encode ++ rest) =
      Transaction.decode keccak (.new ((Item.list xs).encode ++ rest)) := by
  rw [encode_list] at hsize ⊢
  have hlt := length_lt_frame_list (encodeAll xs)
  have hbit := header_bit (by omega : (encodeAll xs).length < 2 ^ 64)
  rw [frame_list, header, List.cons_append, List.cons_append]
  exact if_pos hbit

/-- Bytes whose first bit is not set are taken for a type byte and a payload. -/
theorem TypedTransaction.decode_typed {id : UInt8} (h : ¬ id &&& 0x80 ≠ 0x00) (payload : Bytes) :
    TypedTransaction.decode keccak (id :: payload) =
      TypedTransaction.decodeNew keccak (id :: payload) := if_neg h

theorem TypedTransaction.decodeRlp_list {d : View} {xs : List Item} (h : d.Reads (.list xs)) :
    TypedTransaction.decodeRlp keccak d = Transaction.decode keccak d :=
  if_pos (h.isList.mpr rfl)

theorem TypedTransaction.decodeRlp_data {d : View} {b : Bytes} (h : d.Reads (.data b)) :
    TypedTransaction.decodeRlp keccak d = TypedTransaction.decodeNew keccak b := by
  have hlist : ¬ d.isList = true := by simp [h.isList, Item.kind]
  unfold TypedTransaction.decodeRlp
  rw [if_neg hlist, h.data]
  rfl

namespace UnverifiedTransaction

variable {u : UnverifiedTransaction}

theorem WellFormed.decode_legacy {tx : Transaction} {signature : SignatureComponents}
    {chainId : Option UInt64} {hash : H256} {d : View}
    (h : WellFormed ⟨.legacy tx, signature, chainId, hash⟩)
    (hd : d.Reads (signedItem ⟨.legacy tx, signature, chainId, hash⟩))
    (hhash : hash = keccak d.raw) :
    Transaction.decode keccak d = .ok ⟨.legacy tx, signature, chainId, hash⟩ := by
  have hfits := fits_of_legacy h.1 h.2
  apply (Transaction.decode_eq_ok hd).mpr
  refine ⟨tx, Signature.protectedV signature.standardV chainId, signature.r, signature.s, rfl, ?_⟩
  rw [Signature.extractStandardV_protectedV h.1 hfits,
    Signature.extractChainId_protectedV h.1 hfits, hhash]

/-- After the type byte, the list is read by the decoder of the type. -/
theorem WellFormed.decodeNew (h : u.WellFormed) (htyped : ∀ tx, u.unsigned ≠ .legacy tx)
    (hhash : u.hash = keccak u.bytes) (hsize : u.bytes.length < 2 ^ 64) :
    TypedTransaction.decodeNew keccak u.bytes = .ok u := by
  -- behind the type byte there is one item
  have hread : ∀ {b : UInt8} {x : Item}, (b :: x.encode).length < 2 ^ 64 →
      (View.new x.encode).Reads x := by
    intro b x hlength
    rw [List.length_cons] at hlength
    exact View.reads_encode (by omega)
  obtain ⟨unsigned, signature, chainId, hash⟩ := u
  cases unsigned with
  | legacy tx => exact absurd rfl (htyped tx)
  | accessList tx =>
    obtain ⟨n, rfl⟩ := h
    apply (AccessListTx.decode_eq_ok (hread hsize)).mpr
    refine ⟨tx, n, signature, _, readsAccessList_accessListItem tx.accessList, rfl, ?_⟩
    change hash = _ at hhash
    rw [hhash]
    rfl
  | eip1559Transaction tx =>
    obtain ⟨n, rfl⟩ := h
    apply (EIP1559TransactionTx.decode_eq_ok (hread hsize)).mpr
    refine ⟨tx, n, signature, _,
      readsAccessList_accessListItem tx.transaction.accessList, rfl, ?_⟩
    change hash = _ at hhash
    rw [hhash]
    rfl

/-- A transaction is decoded from its encoding. -/
theorem WellFormed.decode (h : u.WellFormed) (hhash : u.hash = keccak u.bytes)
    (hsize : u.bytes.length < 2 ^ 64) : TypedTransaction.decode keccak u.bytes = .ok u := by
  cases hunsigned : u.unsigned with
  | legacy tx =>
    obtain ⟨unsigned, signature, chainId, hash⟩ := u
    cases hunsigned
    -- a legacy transaction is a list, without a type byte
    have hdecode := TypedTransaction.decode_list keccak [] hsize
    rw [List.append_nil] at hdecode
    apply hdecode.trans
    exact h.decode_legacy (View.reads_encode hsize) hhash
  | accessList tx =>
    have hnew := h.decodeNew (fun tx' htx => by rw [hunsigned] at htx; cases htx) hhash hsize
    unfold bytes at hnew ⊢
    rw [hunsigned] at hnew ⊢
    exact (TypedTransaction.decode_typed (by decide) _).trans hnew
  | eip1559Transaction tx =>
    have hnew := h.decodeNew (fun tx' htx => by rw [hunsigned] at htx; cases htx) hhash hsize
    unfold bytes at hnew ⊢
    rw [hunsigned] at hnew ⊢
    exact (TypedTransaction.decode_typed (by decide) _).trans hnew

/-- A transaction is decoded from its item in a list. -/
theorem WellFormed.decodeRlp (h : u.WellFormed) (hhash : u.hash = keccak u.bytes)
    (hsize : u.listItem.encode.length < 2 ^ 64) :
    TypedTransaction.decodeRlp keccak (.ofItem u.listItem) = .ok u := by
  have hbytes : ∀ {b : Bytes}, (Item.data b).encode.length < 2 ^ 64 → b.length < 2 ^ 64 := by
    intro b hb
    rw [encode_data] at hb
    exact Nat.lt_of_le_of_lt (length_le_frame .data b) hb
  obtain ⟨unsigned, signature, chainId, hash⟩ := u
  cases unsigned with
  | legacy tx =>
    apply (TypedTransaction.decodeRlp_list (View.reads_ofItem hsize)).trans
    exact h.decode_legacy (View.reads_ofItem hsize) hhash
  | accessList tx =>
    apply (TypedTransaction.decodeRlp_data (View.reads_ofItem hsize)).trans
    exact h.decodeNew (fun tx' htx => nomatch htx) hhash (hbytes hsize)
  | eip1559Transaction tx =>
    apply (TypedTransaction.decodeRlp_data (View.reads_ofItem hsize)).trans
    exact h.decodeNew (fun tx' htx => nomatch htx) hhash (hbytes hsize)

end UnverifiedTransaction

/-! ## The round trip -/

/-- The bytes of a list of transactions. -/
def encodeList (txList : List UnverifiedTransaction) : Outcome ε Bytes := do
  let stream ← written (TypedTransaction.rlpAppendList txList)
  stream.out

theorem encodeList_eq {us : List UnverifiedTransaction} (h : ∀ u ∈ us, u.WellFormed) :
    (encodeList us : Outcome ε Bytes) =
      .ok (Item.list (us.map UnverifiedTransaction.listItem)).encode := by
  have hwrites : Writes (TypedTransaction.rlpAppendList us : RlpWriter ε Unit)
      [.list (us.map UnverifiedTransaction.listItem)] := by
    unfold TypedTransaction.rlpAppendList
    apply Writes.list
    · exact Writes.forM us fun u hu => (h u hu).writes
    · exact List.length_map _
  unfold encodeList
  rw [hwrites.written]
  rfl

/-- The items of a list are decoded one by one. -/
theorem decodeRlpList_eq {us : List UnverifiedTransaction} {d : View}
    (hd : d.Reads (.list (us.map UnverifiedTransaction.listItem)))
    (h : ∀ u ∈ us, TypedTransaction.decodeRlp keccak (.ofItem u.listItem) = .ok u) :
    TypedTransaction.decodeRlpList keccak d = .ok us := by
  unfold TypedTransaction.decodeRlpList
  rw [if_neg (not_not.mpr (hd.isList.mpr rfl)), hd.itemCount, Outcome.ok_bind, hd.iter,
    mapM_eq_ok, List.forall₂_map_left_iff, List.forall₂_map_left_iff]
  exact List.forall₂_same.mpr h

/-- **Round trip.** For every list of transactions whose hash is the one that
`compute_hash` sets, each is decoded from its encoding and the list is decoded from
the list of its items. -/
theorem decode_encode (keccak : Bytes → H256) (us : List UnverifiedTransaction)
    (h : ∀ u ∈ us, u.WellFormed)
    (hhash : ∀ u ∈ us, u.computeHash keccak = (.ok u : Outcome DecoderError _)) :
    (∀ u ∈ us, ∃ bytes, u.encode = (.ok bytes : Outcome DecoderError _) ∧
      (bytes.length < 2 ^ 64 → TypedTransaction.decode keccak bytes = .ok u)) ∧
    ∃ bytes, encodeList us = (.ok bytes : Outcome DecoderError _) ∧
      (bytes.length < 2 ^ 64 → TypedTransaction.decodeRlpList keccak (.new bytes) = .ok us) := by
  constructor
  · intro u hu
    exact ⟨u.bytes, (h u hu).encode_eq, (h u hu).decode ((h u hu).hash_eq (hhash u hu))⟩
  · refine ⟨_, encodeList_eq h, ?_⟩
    intro hsize
    apply decodeRlpList_eq (View.reads_ofItem hsize)
    intro u hu
    apply (h u hu).decodeRlp ((h u hu).hash_eq (hhash u hu))
    exact fits_of_mem (List.mem_map_of_mem (f := UnverifiedTransaction.listItem) hu) hsize

/-! ## A list of the three kinds -/

/-- A hash function for concrete runs: the length of the bytes. -/
def lengthHash (bytes : Bytes) : H256 := BitVec.ofNat 256 bytes.length

/-- A transaction that carries the hash of its encoding. -/
def unitHashed (unsigned : TypedTransaction) (v : UInt8) (chainId : Option UInt64) :
    UnverifiedTransaction :=
  let u : UnverifiedTransaction := ⟨unsigned, ⟨v, 5, 7⟩, chainId, 0⟩
  { u with hash := lengthHash u.bytes }

/-- A payment of 1000 wei. -/
def unitPayment : Transaction where
  nonce := 1
  gasPrice := 20
  gas := 21000
  action := .call 0x35
  value := 1000
  data := []

/-- A legacy payment on chain 1, the same payment with an access list, and the
creation of a contract with a priority fee. -/
def unitTransactions : List UnverifiedTransaction :=
  [unitHashed (.legacy unitPayment) 1 (some 1),
    unitHashed (.accessList ⟨unitPayment, [(0x11, [1, 2])]⟩) 0 (some 1),
    unitHashed (.eip1559Transaction
      ⟨⟨{ unitPayment with action := .create, data := [0x60, 0x01] }, []⟩, 2⟩) 1 (some 1)]

theorem hash_unitHashed (unsigned : TypedTransaction) (v : UInt8) (chainId : Option UInt64) :
    (unitHashed unsigned v chainId).hash = lengthHash (unitHashed unsigned v chainId).bytes := by
  cases unsigned with
  | legacy tx =>
    simp only [unitHashed, UnverifiedTransaction.bytes, UnverifiedTransaction.signedItem]
  | accessList tx =>
    simp only [unitHashed, UnverifiedTransaction.bytes, UnverifiedTransaction.signedItem]
  | eip1559Transaction tx =>
    simp only [unitHashed, UnverifiedTransaction.bytes, UnverifiedTransaction.signedItem]

theorem mem_unitTransactions {u : UnverifiedTransaction} (h : u ∈ unitTransactions) :
    u.WellFormed ∧ u.hash = lengthHash u.bytes := by
  simp only [unitTransactions, List.mem_cons, List.not_mem_nil, or_false] at h
  rcases h with rfl | rfl | rfl
  · refine ⟨⟨by decide, ?_⟩, hash_unitHashed _ _ _⟩
    intro n hn
    cases hn
    decide
  · exact ⟨⟨1, rfl⟩, hash_unitHashed _ _ _⟩
  · exact ⟨⟨1, rfl⟩, hash_unitHashed _ _ _⟩

theorem decode_encode_three :
    (∀ u ∈ unitTransactions, ∃ bytes, u.encode = (.ok bytes : Outcome DecoderError _) ∧
      TypedTransaction.decode lengthHash bytes = .ok u) ∧
    ∃ bytes, encodeList unitTransactions = (.ok bytes : Outcome DecoderError _) ∧
      TypedTransaction.decodeRlpList lengthHash (.new bytes) = .ok unitTransactions := by
  have hwell : ∀ u ∈ unitTransactions, u.WellFormed := fun u hu => (mem_unitTransactions hu).1
  have hhash : ∀ u ∈ unitTransactions,
      u.computeHash lengthHash = (.ok u : Outcome DecoderError _) := by
    intro u hu
    unfold UnverifiedTransaction.computeHash
    rw [(hwell u hu).encode_eq, Outcome.ok_bind, ← (mem_unitTransactions hu).2]
  have hsize : ∀ u ∈ unitTransactions, u.bytes.length < 2 ^ 64 := by decide +kernel
  obtain ⟨hone, bytes, hbytes, hlist⟩ := decode_encode lengthHash unitTransactions hwell hhash
  constructor
  · intro u hu
    obtain ⟨bytes, hbytes, hdecode⟩ := hone u hu
    refine ⟨bytes, hbytes, hdecode ?_⟩
    rw [(hwell u hu).encode_eq, Outcome.ok.injEq] at hbytes
    rw [← hbytes]
    exact hsize u hu
  · refine ⟨bytes, hbytes, hlist ?_⟩
    rw [encodeList_eq hwell, Outcome.ok.injEq] at hbytes
    rw [← hbytes]
    decide +kernel

end Cashbox.Eth
