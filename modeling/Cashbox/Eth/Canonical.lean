import Cashbox.Eth.RoundTrip

/-!
# Decoding is canonical on exact bytes

A transaction that is decoded is encoded to the bytes it came from when these hold a
well-formed list and nothing after it and, for a legacy transaction, the v field is one
that the encoder writes: 27 or 28, everything from 35 on, and 31, which the invalid
marker 4 is written as. Its hash is the hash of these bytes.

All other values of v are squeezed into that marker. The reader passes over what follows
the list and over items that are cut short at its end, and takes a string for an empty
list of storage keys.
-/

namespace Cashbox.Eth

open Cashbox.Lib Cashbox.Lib.Rlp

/-! ## The v field -/

namespace Signature

/-- The values of v that the encoder writes. -/
def Written (v : UInt64) : Prop := v = 27 ∨ v = 28 ∨ v = 31 ∨ 35 ≤ v

instance (v : UInt64) : Decidable (Written v) := by
  unfold Written
  infer_instance

/-- A value that the encoder writes is put together again from its parts. -/
theorem protectedV_extract {v : UInt64} (h : Written v) :
    Fits (extractStandardV v) (extractChainIdFromLegacyV v) ∧
      protectedV (extractStandardV v) (extractChainIdFromLegacyV v) = v := by
  rcases h with rfl | rfl | rfl | h35
  · exact ⟨by unfold Fits; decide, by decide⟩
  · exact ⟨by unfold Fits; decide, by decide⟩
  · exact ⟨by unfold Fits; decide, by decide⟩
  · have hge : 35 ≤ v.toNat := UInt64.le_iff_toNat_le.mp h35
    have hlt := v.toNat_lt
    have h27 : v ≠ 27 := by
      rintro rfl
      exact absurd hge (by decide)
    have h28 : v ≠ 28 := by
      rintro rfl
      exact absurd hge (by decide)
    have hone : (1 : UInt64) ≤ v := by
      rw [UInt64.le_iff_toNat_le]
      exact Nat.le_trans (by decide) hge
    -- the parity of v - 1 and half of v - 35 make up v
    have hstandard : (extractStandardV v).toNat = (v.toNat - 1) % 2 := by
      unfold extractStandardV
      rw [if_neg h27, if_neg h28, if_pos h35, UInt64.toNat_toUInt8, UInt64.toNat_mod,
        UInt64.toNat_sub_of_le _ _ hone]
      show (v.toNat - 1) % 2 % 256 = (v.toNat - 1) % 2
      omega
    have hchain : extractChainIdFromLegacyV v = some ((v - 35) / 2) := if_pos h35
    have hoffset : offset (extractChainIdFromLegacyV v) = 35 + (v.toNat - 35) / 2 * 2 := by
      rw [hchain, offset, UInt64.toNat_div, UInt64.toNat_sub_of_le _ _ h35]
      rfl
    have hsum : (extractStandardV v).toNat + offset (extractChainIdFromLegacyV v) = v.toNat := by
      rw [hstandard, hoffset]
      omega
    constructor
    · unfold Fits
      rw [hsum]
      exact hlt
    · unfold protectedV
      rw [hsum, UInt64.ofNat_toNat]

end Signature

theorem TypedTxId.eq_of_tryFromWireByte {n : UInt8} {id : TypedTxId}
    (h : tryFromWireByte n = some id) (hid : id ≠ .legacy) : n = id.asU8 := by
  unfold tryFromWireByte at h
  split_ifs at h with h2 h1 hbit
  · cases h
    exact h2
  · cases h
    exact h1
  · cases h
    exact absurd rfl hid

/-! ## Exact bytes -/

/-- The bytes begin with an RLP list and not with a type byte: a legacy transaction. -/
def Untyped : Bytes → Prop
  | [] => False
  | header :: _ => header &&& 0x80 ≠ 0x00

/-- The part of the bytes that holds the RLP list: all of them, or those after the
type byte. -/
def rlpPart : Bytes → Bytes
  | [] => []
  | header :: payload => if header &&& 0x80 ≠ 0x00 then header :: payload else payload

/-- In no row of entries a string stands where an entry has its list of keys. -/
def KeysListed (x : Item) : Prop :=
  ∀ fields entries, x = .list fields → .list entries ∈ fields →
    ∀ address bytes, .list [address, .data bytes] ∉ entries

/-- The list is well formed and nothing follows it. -/
def Exact (bytes : Bytes) : Prop :=
  ∃ x : Item, rlpPart bytes = x.encode ∧ x.encode.length < 2 ^ 64 ∧ KeysListed x

/-- The v field, if the bytes are a legacy transaction, is one that the encoder
writes. -/
def WrittenV (bytes : Bytes) : Prop :=
  Untyped bytes → ∀ v, (View.new bytes).valAt u64 6 = .ok v → Signature.Written v

/-- Entries that hold lists of keys are read from their own item only. -/
theorem ReadsAccessList.eq_accessListItem {accl : Item} {accessList : AccessList}
    (h : ReadsAccessList accl accessList) {fields : List Item} (hmem : accl ∈ fields)
    (hkeys : KeysListed (.list fields)) : accl = accessListItem accessList := by
  obtain ⟨entries, rfl, hall⟩ := h
  have hentries : ∀ entry ∈ entries, ∀ access, ReadsAccess entry access →
      entry = accessItem access := by
    intro entry hentry access hread
    cases hread with
    | listed => rfl
    | string address bytes => exact absurd hentry (hkeys _ entries rfl hmem _ _)
  have hboth := (List.forall₂_and_left ..).mpr ⟨fun entry hentry => hentry, hall⟩
  have heq := hboth.imp fun entry access ⟨hentry, hread⟩ => hentries entry hentry access hread
  rw [← List.forall₂_map_right_iff, List.forall₂_eq_eq_eq] at heq
  rw [heq]
  rfl

/-! ## Canonicity -/

section Canonical

variable {keccak : Bytes → H256} {bytes : Bytes} {u : UnverifiedTransaction}

/-- What the hash and the encoding of a decoded transaction are. -/
structure Canonical (keccak : Bytes → H256) (bytes : Bytes) (u : UnverifiedTransaction) :
    Prop where
  /-- The hash of a legacy transaction is that of its bytes, whatever follows the list. -/
  hash : Untyped bytes → u.hash = keccak bytes
  /-- The hash of a typed transaction is that of the bytes it is encoded to. -/
  rebroadcast : ¬ Untyped bytes →
    ∃ out, u.encode = (.ok out : Outcome DecoderError _) ∧ u.hash = keccak out
  encode : Exact bytes → WrittenV bytes → u.encode = (.ok bytes : Outcome DecoderError _)

theorem canonical_of_legacy {header : UInt8} {payload : Bytes}
    (hlegacy : header &&& 0x80 ≠ 0x00)
    (h : Transaction.decode keccak (.new (header :: payload)) = .ok u) :
    Canonical keccak (header :: payload) u := by
  refine ⟨fun _ => Transaction.hash_of_decode h, fun htyped => absurd hlegacy htyped, ?_⟩
  rintro ⟨x, hpart, hsize, _⟩ hwritten
  have hbytes : header :: payload = x.encode := (if_pos hlegacy).symm.trans hpart
  rw [hbytes] at h hwritten ⊢
  obtain ⟨tx, v, r, s, rfl, rfl⟩ :=
    (Transaction.decode_eq_ok (View.reads_encode hsize)).mp h
  have huntyped : Untyped (Item.list (tx.items ++ [u64.encode v, u256.encode r,
      u256.encode s])).encode := by
    rw [← hbytes]
    exact hlegacy
  -- the v field is read a second time, by the condition on it
  have hv : (View.new (Item.list (tx.items ++ [u64.encode v, u256.encode r,
      u256.encode s])).encode).valAt u64 6 = .ok v := (View.reads_encode hsize).valAt.mpr rfl
  obtain ⟨hfits, hprotected⟩ := Signature.protectedV_extract (hwritten huntyped v hv)
  have hv' : (Signature.addChainReplayProtection (Signature.extractStandardV v)
      (Signature.extractChainIdFromLegacyV v) : Outcome DecoderError UInt64) = .ok v := by
    rw [Signature.addChainReplayProtection_of_fits hfits, hprotected]
  exact tx.encode_eq _ ⟨_, r, s⟩ hv'

/-- A typed transaction is hashed as what it is encoded to, which is its type byte and
its list. -/
theorem canonical_of_typed {header : UInt8} {payload : Bytes}
    (htyped : ¬ header &&& 0x80 ≠ 0x00)
    (h : TypedTransaction.decodeNew keccak (header :: payload) = .ok u) :
    Canonical keccak (header :: payload) u := by
  have hexact : Exact (header :: payload) →
      ∃ x : Item, payload = x.encode ∧ x.encode.length < 2 ^ 64 ∧ KeysListed x := by
    rintro ⟨x, hpart, hx⟩
    exact ⟨x, (if_neg htyped).symm.trans hpart, hx⟩
  unfold TypedTransaction.decodeNew at h
  dsimp only at h
  cases hid : TypedTxId.tryFromWireByte header with
  | none =>
    rw [hid] at h
    cases h
  | some id =>
    rw [hid] at h
    cases id with
    -- the type byte of a legacy transaction is not read
    | legacy => cases h
    | accessList =>
      have hheader := TypedTxId.eq_of_tryFromWireByte hid (fun hlegacy => nomatch hlegacy)
      subst hheader
      refine ⟨fun hlegacy => absurd hlegacy htyped, fun _ => ?_, fun hbytes _ => ?_⟩
      · obtain ⟨tx, chainId, signature, rfl⟩ := AccessListTx.of_decode h
        exact ⟨_, tx.encode_eq chainId signature, rfl⟩
      · obtain ⟨x, rfl, hsize, hkeys⟩ := hexact hbytes
        obtain ⟨tx, chainId, signature, accl, hreads, rfl, rfl⟩ :=
          (AccessListTx.decode_eq_ok (View.reads_encode hsize)).mp h
        rw [hreads.eq_accessListItem (by simp) hkeys]
        exact tx.encode_eq chainId signature
    | eip1559Transaction =>
      have hheader := TypedTxId.eq_of_tryFromWireByte hid (fun hlegacy => nomatch hlegacy)
      subst hheader
      refine ⟨fun hlegacy => absurd hlegacy htyped, fun _ => ?_, fun hbytes _ => ?_⟩
      · obtain ⟨tx, chainId, signature, rfl⟩ := EIP1559TransactionTx.of_decode h
        exact ⟨_, tx.encode_eq chainId signature, rfl⟩
      · obtain ⟨x, rfl, hsize, hkeys⟩ := hexact hbytes
        obtain ⟨tx, chainId, signature, accl, hreads, rfl, rfl⟩ :=
          (EIP1559TransactionTx.decode_eq_ok (View.reads_encode hsize)).mp h
        rw [hreads.eq_accessListItem (by simp) hkeys]
        exact tx.encode_eq chainId signature

theorem canonical_of_decode (h : TypedTransaction.decode keccak bytes = .ok u) :
    Canonical keccak bytes u := by
  cases bytes with
  | nil => cases h
  | cons header payload =>
    by_cases hlegacy : header &&& 0x80 ≠ 0x00
    · have hdecode : TypedTransaction.decode keccak (header :: payload) =
          Transaction.decode keccak (.new (header :: payload)) := if_pos hlegacy
      rw [hdecode] at h
      exact canonical_of_legacy hlegacy h
    · rw [TypedTransaction.decode_typed hlegacy] at h
      exact canonical_of_typed hlegacy h

end Canonical

/-- **Canonicity.** The hash of a decoded transaction is the hash of its bytes if they are
exact, and of a legacy one always. Exact bytes with a v field that the encoder writes are
what it is encoded to, and no other such bytes are decoded to it; the hash is then that of
the bytes which are sent on, and for a typed transaction always. -/
theorem encode_of_decode (keccak : Bytes → H256) {bytes : Bytes} {u : UnverifiedTransaction}
    (h : TypedTransaction.decode keccak bytes = .ok u) :
    (Untyped bytes ∨ Exact bytes → u.hash = keccak bytes) ∧
      (Exact bytes → WrittenV bytes → u.encode = (.ok bytes : Outcome DecoderError _)) ∧
      (¬ Untyped bytes ∨ (Exact bytes ∧ WrittenV bytes) →
        ∃ out, u.encode = (.ok out : Outcome DecoderError _) ∧ u.hash = keccak out) ∧
      ∀ bytes', TypedTransaction.decode keccak bytes' = .ok u → Exact bytes →
        Exact bytes' → WrittenV bytes → WrittenV bytes' → bytes' = bytes := by
  have hcanonical := canonical_of_decode h
  have hhash : Untyped bytes ∨ Exact bytes → u.hash = keccak bytes := by
    intro hcase
    by_cases huntyped : Untyped bytes
    · exact hcanonical.hash huntyped
    · have hexact : Exact bytes := hcase.resolve_left huntyped
      -- a typed transaction in exact bytes is sent on as these
      obtain ⟨out, hout, hhash⟩ := hcanonical.rebroadcast huntyped
      have hencode := hcanonical.encode hexact fun hlegacy => absurd hlegacy huntyped
      rw [hencode] at hout
      rw [hhash, Outcome.ok.inj hout]
  refine ⟨hhash, hcanonical.encode, ?_, ?_⟩
  · rintro (htyped | ⟨hexact, hwritten⟩)
    · exact hcanonical.rebroadcast htyped
    · exact ⟨bytes, hcanonical.encode hexact hwritten, hhash (.inr hexact)⟩
  · intro bytes' h' hexact hexact' hwritten hwritten'
    have hencode := hcanonical.encode hexact hwritten
    -- both byte strings are the encoding
    have hencode' := (canonical_of_decode h').encode hexact' hwritten'
    rw [hencode'] at hencode
    exact Outcome.ok.inj hencode

/-! ## A v field on each side -/

/-- The bytes of a payment with a given v field. -/
def unitBytes (v : UInt64) : Bytes := (unitPayment.signedItem v ⟨0, 5, 7⟩).encode

/-- The transaction that these bytes are decoded to. -/
def unitDecoded (v : UInt64) : UnverifiedTransaction where
  unsigned := .legacy unitPayment
  signature := ⟨Signature.extractStandardV v, 5, 7⟩
  chainId := Signature.extractChainIdFromLegacyV v
  hash := lengthHash (unitBytes v)

theorem reads_unitBytes {v : UInt64} (hsize : (unitBytes v).length < 2 ^ 64) :
    (View.new (unitBytes v)).Reads (unitPayment.signedItem v ⟨0, 5, 7⟩) :=
  View.reads_encode hsize

theorem decode_unitBytes (v : UInt64) (hsize : (unitBytes v).length < 2 ^ 64) :
    TypedTransaction.decode lengthHash (unitBytes v) = .ok (unitDecoded v) := by
  have hdecode := TypedTransaction.decode_list lengthHash [] hsize
  rw [List.append_nil] at hdecode
  apply hdecode.trans
  exact (Transaction.decode_eq_ok (reads_unitBytes hsize)).mpr ⟨unitPayment, v, 5, 7, rfl, rfl⟩

theorem exact_unitBytes (v : UInt64) (hsize : (unitBytes v).length < 2 ^ 64) :
    Exact (unitBytes v) := by
  refine ⟨unitPayment.signedItem v ⟨0, 5, 7⟩, ?_, hsize, ?_⟩
  · unfold unitBytes Transaction.signedItem at hsize ⊢
    rw [encode_list] at hsize ⊢
    have hlt := length_lt_frame_list (encodeAll (unitPayment.items ++
      SignatureComponents.items ⟨0, 5, 7⟩ (u64.encode v)))
    rw [frame_list, header, List.cons_append]
    exact if_pos (header_bit (by omega))
  · -- all nine fields are strings
    intro fields entries hfields hentries
    cases hfields
    simp only [Transaction.items, SignatureComponents.items, List.mem_append, List.mem_cons,
      List.not_mem_nil, or_false, Action.item, unitPayment] at hentries
    rcases hentries with (h | h | h | h | h | h) | h | h | h <;> cases h

theorem writtenV_unitBytes {v : UInt64} (hv : Signature.Written v)
    (hsize : (unitBytes v).length < 2 ^ 64) : WrittenV (unitBytes v) := by
  intro _ w hw
  have hfield : (View.new (unitBytes v)).valAt u64 6 = .ok v :=
    (reads_unitBytes hsize).valAt.mpr rfl
  rw [hfield, Outcome.ok.injEq] at hw
  rwa [← hw]

/-- A v field of 37: chain 1, parity 0. -/
theorem encode_of_decode_chain :
    (unitDecoded 37).hash = lengthHash (unitBytes 37) ∧
      (unitDecoded 37).encode = (.ok (unitBytes 37) : Outcome DecoderError _) ∧
      ∀ bytes', TypedTransaction.decode lengthHash bytes' = .ok (unitDecoded 37) →
        Exact bytes' → WrittenV bytes' → bytes' = unitBytes 37 := by
  have hsize : (unitBytes 37).length < 2 ^ 64 := by decide +kernel
  have hexact : Exact (unitBytes 37) := exact_unitBytes 37 hsize
  have hwritten : WrittenV (unitBytes 37) := writtenV_unitBytes (by decide) hsize
  obtain ⟨hhash, hencode, _, honly⟩ := encode_of_decode lengthHash (decode_unitBytes 37 hsize)
  refine ⟨hhash (.inr hexact), hencode hexact hwritten, ?_⟩
  intro bytes' hdecode hexact' hwritten'
  exact honly bytes' hdecode hexact hexact' hwritten hwritten'

/-- A v field of 30 is decoded to the invalid marker and written as 31. -/
theorem not_canonical_of_invalid_v :
    ¬ ∀ (keccak : Bytes → H256) (bytes : Bytes) (u : UnverifiedTransaction),
      TypedTransaction.decode keccak bytes = .ok u →
        u.encode = (.ok bytes : Outcome DecoderError _) ∧ u.hash = keccak bytes := by
  intro hall
  have hsize : (unitBytes 30).length < 2 ^ 64 := by decide +kernel
  have hencode := (hall lengthHash _ _ (decode_unitBytes 30 hsize)).1
  have hother : (unitDecoded 30).encode = (.ok (unitBytes 31) : Outcome DecoderError _) := by
    decide +kernel
  rw [hother] at hencode
  have hdiffer : unitBytes 31 ≠ unitBytes 30 := by decide +kernel
  exact hdiffer (Outcome.ok.inj hencode)

end Cashbox.Eth
