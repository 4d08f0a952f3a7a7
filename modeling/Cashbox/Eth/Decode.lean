import Cashbox.Eth.Transaction

/-!
# Decoding typed transactions

The decoders of the three transaction formats. Each reads the fields of one RLP
list by position; what it accepts is described by the items of that list.

The hash function is a parameter. The hash of a legacy transaction is taken of
the bytes that were given, the hash of the others of their encoding.
-/

namespace Cashbox.Eth

open Cashbox.Lib Cashbox.Lib.Rlp

/-! ## Decoders -/

namespace Transaction

def decodeData (d : View) (offset : Nat) : Outcome DecoderError Transaction := do
  let nonce ← d.valAt u256 offset
  let gasPrice ← d.valAt u256 (offset + 1)
  let gas ← d.valAt u256 (offset + 2)
  let action ← d.valAt Action.codec (offset + 3)
  let value ← d.valAt u256 (offset + 4)
  let data ← d.valAt Codec.bytes (offset + 5)
  .ok { nonce, gasPrice, gas, action, value, data }

def decode (keccak : Bytes → H256) (d : View) : Outcome DecoderError UnverifiedTransaction := do
  let count ← d.itemCount
  if count ≠ 9 then .err .rlpIncorrectListLen
  else do
    let transaction ← decodeData d 0
    -- take V from the signature and decompose it into chain id and standard V
    let legacyV ← d.valAt u64 6
    let r ← d.valAt u256 7
    let s ← d.valAt u256 8
    .ok
      { unsigned := .legacy transaction
        chainId := Signature.extractChainIdFromLegacyV legacyV
        signature := { standardV := Signature.extractStandardV legacyV, r, s }
        hash := keccak d.raw }

end Transaction

/-- One entry of an access list, a list of two items. -/
def decodeAccess (accounts : View) : Outcome DecoderError AccessListItem := do
  let count ← accounts.itemCount
  if count ≠ 2 then .err (.custom "Unknown access list length")
  else do
    let address ← accounts.valAt h160 0
    let storageKeys ← accounts.listAt h256 1
    .ok (address, storageKeys)

/-- The access list pattern: [[{20 bytes}, [{32 bytes}...]]...]. -/
def decodeAccessList (acclRlp : View) : Outcome DecoderError AccessList := do
  let count ← acclRlp.itemCount
  (List.range count).mapM fun i => do
    let accounts ← acclRlp.itemAt i
    decodeAccess accounts

namespace AccessListTx

def decode (keccak : Bytes → H256) (tx : Bytes) : Outcome DecoderError UnverifiedTransaction := do
  let txRlp := View.new tx
  let count ← txRlp.itemCount
  if count ≠ 11 then .err .rlpIncorrectListLen
  else do
    let chainId ← txRlp.valAt u64 0
    -- the first part of the list is the same as in a legacy transaction
    let transaction ← Transaction.decodeData txRlp 1
    let acclRlp ← txRlp.itemAt 7
    let accessList ← decodeAccessList acclRlp
    let standardV ← txRlp.valAt u8 8
    let r ← txRlp.valAt u256 9
    let s ← txRlp.valAt u256 10
    UnverifiedTransaction.computeHash keccak
      { unsigned := .accessList { transaction, accessList }
        chainId := some chainId
        signature := { standardV, r, s }
        hash := 0 }

end AccessListTx

namespace EIP1559TransactionTx

def decode (keccak : Bytes → H256) (tx : Bytes) : Outcome DecoderError UnverifiedTransaction := do
  let txRlp := View.new tx
  let count ← txRlp.itemCount
  if count ≠ 12 then .err .rlpIncorrectListLen
  else do
    let chainId ← txRlp.valAt u64 0
    let maxPriorityFeePerGas ← txRlp.valAt u256 2
    let nonce ← txRlp.valAt u256 1
    -- taken from max_fee_per_gas
    let gasPrice ← txRlp.valAt u256 3
    let gas ← txRlp.valAt u256 4
    let action ← txRlp.valAt Action.codec 5
    let value ← txRlp.valAt u256 6
    let data ← txRlp.valAt Codec.bytes 7
    let acclRlp ← txRlp.itemAt 8
    let accessList ← decodeAccessList acclRlp
    let standardV ← txRlp.valAt u8 9
    let r ← txRlp.valAt u256 10
    let s ← txRlp.valAt u256 11
    UnverifiedTransaction.computeHash keccak
      { unsigned := .eip1559Transaction
          { transaction :=
              { transaction := { nonce, gasPrice, gas, action, value, data }, accessList }
            maxPriorityFeePerGas }
        chainId := some chainId
        signature := { standardV, r, s }
        hash := 0 }

end EIP1559TransactionTx

namespace TypedTransaction

variable (keccak : Bytes → H256)

def decodeNew (tx : Bytes) : Outcome DecoderError UnverifiedTransaction :=
  match tx with
  -- at least one byte needs to be present
  | [] => .err .rlpIncorrectListLen
  | id :: payload =>
    match TypedTxId.tryFromWireByte id with
    | none => .err (.custom "Unknown transaction")
    | some .eip1559Transaction => EIP1559TransactionTx.decode keccak payload
    | some .accessList => AccessListTx.decode keccak payload
    | some .legacy => .err (.custom "Unknown transaction legacy")

def decode (tx : Bytes) : Outcome DecoderError UnverifiedTransaction :=
  match tx with
  | [] => .err .rlpIncorrectListLen
  | header :: _ =>
    -- with the first bit set this is an RLP list, otherwise a custom transaction
    if header &&& 0x80 ≠ 0x00 then Transaction.decode keccak (.new tx) else decodeNew keccak tx

def decodeRlp (tx : View) : Outcome DecoderError UnverifiedTransaction :=
  if tx.isList then Transaction.decode keccak tx
  else do
    let bytes ← tx.data
    decodeNew keccak bytes

def decodeRlpList (rlp : View) : Outcome DecoderError (List UnverifiedTransaction) :=
  if ¬ rlp.isList then .err .rlpIncorrectListLen
  else do
    let _ ← rlp.itemCount
    rlp.iter.mapM (decodeRlp keccak)

end TypedTransaction

/-! ## What is accepted -/

theorem codec_bytes_encode (b : Bytes) : Codec.bytes.encode b = .data b := rfl

theorem codec_action_encode (action : Action) : Action.codec.encode action = action.item := rfl

namespace Transaction

/-- The six fields stand at their positions. -/
theorem decodeData_eq_ok {d : View} {xs : List Item} (h : d.Reads (.list xs)) {offset : Nat}
    {tx : Transaction} :
    decodeData d offset = .ok tx ↔
      xs[offset]? = some (u256.encode tx.nonce) ∧
      xs[offset + 1]? = some (u256.encode tx.gasPrice) ∧
      xs[offset + 2]? = some (u256.encode tx.gas) ∧
      xs[offset + 3]? = some tx.action.item ∧
      xs[offset + 4]? = some (u256.encode tx.value) ∧
      xs[offset + 5]? = some (.data tx.data) := by
  unfold decodeData
  simp only [Outcome.bind_eq_ok, h.valAt, Outcome.ok.injEq, codec_bytes_encode,
    codec_action_encode]
  constructor
  · rintro ⟨nonce, h0, gasPrice, h1, gas, h2, action, h3, value, h4, data, h5, rfl⟩
    exact ⟨h0, h1, h2, h3, h4, h5⟩
  · rintro ⟨h0, h1, h2, h3, h4, h5⟩
    exact ⟨_, h0, _, h1, _, h2, _, h3, _, h4, _, h5, rfl⟩

/-- The hash of a legacy transaction is that of all bytes. -/
theorem hash_of_decode {keccak : Bytes → H256} {d : View} {u : UnverifiedTransaction}
    (h : decode keccak d = .ok u) : u.hash = keccak d.raw := by
  unfold decode at h
  obtain ⟨count, _, h⟩ := Outcome.bind_eq_ok.mp h
  split_ifs at h
  simp only [Outcome.bind_eq_ok, Outcome.ok.injEq] at h
  obtain ⟨tx, _, v, _, r, _, s, _, rfl⟩ := h
  rfl

/-- A legacy transaction is read from the list of its nine fields. -/
theorem decode_eq_ok {keccak : Bytes → H256} {d : View} {x : Item} (hd : d.Reads x)
    {u : UnverifiedTransaction} :
    decode keccak d = .ok u ↔
      ∃ tx v r s, x = .list (tx.items ++ [u64.encode v, u256.encode r, u256.encode s]) ∧
        u = { unsigned := .legacy tx
              chainId := Signature.extractChainIdFromLegacyV v
              signature := { standardV := Signature.extractStandardV v, r, s }
              hash := keccak d.raw } := by
  unfold decode
  rw [Outcome.bind_eq_ok]
  constructor
  · rintro ⟨count, hcount, h⟩
    obtain ⟨xs, rfl, rfl⟩ := hd.itemCount_eq_ok.mp hcount
    split_ifs at h with hnine
    rw [not_not] at hnine
    simp only [Outcome.bind_eq_ok, hd.valAt, decodeData_eq_ok hd, Outcome.ok.injEq] at h
    -- every field was read from its place
    obtain ⟨tx, ⟨h0, h1, h2, h3, h4, h5⟩, v, h6, r, h7, s, h8, rfl⟩ := h
    refine ⟨tx, v, r, s, ?_, rfl⟩
    -- a list of nine items is these nine
    match xs, hnine with
    | [x0, x1, x2, x3, x4, x5, x6, x7, x8], _ =>
      simp only [List.getElem?_cons_zero, List.getElem?_cons_succ, Nat.zero_add,
        Option.some.injEq] at h0 h1 h2 h3 h4 h5 h6 h7 h8
      rw [h0, h1, h2, h3, h4, h5, h6, h7, h8]
      rfl
  · rintro ⟨tx, v, r, s, rfl, rfl⟩
    refine ⟨9, hd.itemCount, ?_⟩
    rw [if_neg (by decide)]
    simp only [Outcome.bind_eq_ok, hd.valAt, decodeData_eq_ok hd]
    exact ⟨tx, ⟨rfl, rfl, rfl, rfl, rfl, rfl⟩, v, rfl, r, rfl, s, rfl, rfl⟩

end Transaction

/-- What an entry is read from: the list of its address and the list of its keys, or a string in
place of an empty list of keys. -/
inductive ReadsAccess : Item → AccessListItem → Prop where
  | listed (access : AccessListItem) : ReadsAccess (accessItem access) access
  | string (address : Address) (bytes : Bytes) :
      ReadsAccess (.list [h160.encode address, .data bytes]) (address, [])

/-- What an access list is read from. -/
def ReadsAccessList (x : Item) (accessList : AccessList) : Prop :=
  ∃ entries, x = .list entries ∧ List.Forall₂ ReadsAccess entries accessList

theorem readsAccessList_accessListItem (accessList : AccessList) :
    ReadsAccessList (accessListItem accessList) accessList :=
  ⟨_, rfl, List.forall₂_map_left_iff.mpr (List.forall₂_same.mpr fun access _ => .listed access)⟩

theorem decodeAccess_eq_ok {w : View} {x : Item} {access : AccessListItem} (hw : w.Reads x) :
    decodeAccess w = .ok access ↔ ReadsAccess x access := by
  unfold decodeAccess
  rw [Outcome.bind_eq_ok]
  constructor
  · rintro ⟨count, hcount, h⟩
    obtain ⟨xs, rfl, rfl⟩ := hw.itemCount_eq_ok.mp hcount
    split_ifs at h with htwo
    rw [not_not] at htwo
    simp only [Outcome.bind_eq_ok, hw.valAt, hw.listAt, Outcome.ok.injEq] at h
    obtain ⟨address, h0, storageKeys, h1, rfl⟩ := h
    -- a list of two items is these two
    match xs, htwo with
    | [x0, x1], _ =>
      simp only [List.getElem?_cons_zero, List.getElem?_cons_succ, Option.some.injEq] at h0 h1
      rcases h1 with h1 | ⟨rfl, bytes, h1⟩
      · rw [h0, h1]
        exact .listed (address, storageKeys)
      · rw [h0, h1]
        exact .string address bytes
  · intro h
    cases h with
    | listed =>
      refine ⟨2, hw.itemCount, ?_⟩
      rw [if_neg (by decide)]
      simp only [Outcome.bind_eq_ok, hw.valAt, hw.listAt]
      exact ⟨access.1, rfl, access.2, Or.inl rfl, rfl⟩
    | string address bytes =>
      refine ⟨2, hw.itemCount, ?_⟩
      rw [if_neg (by decide)]
      simp only [Outcome.bind_eq_ok, hw.valAt, hw.listAt]
      exact ⟨address, rfl, [], Or.inr ⟨rfl, bytes, rfl⟩, rfl⟩

/-- The loop over the positions of a list visits its items in order. -/
theorem mapM_range_itemAt {v : View} {xs : List Item} (h : v.Reads (.list xs)) {β : Type}
    (f : View → Outcome DecoderError β) :
    ((List.range xs.length).mapM fun i => do
      let w ← v.itemAt i
      f w) = v.iter.mapM f := by
  have hget : ∀ i ∈ List.range xs.length,
      (v.itemAt i >>= f) = f (.ofItem (xs[i]?.getD (.data []))) := by
    intro i hi
    have hlt := List.mem_range.mp hi
    rw [h.itemAt, List.getElem?_eq_getElem hlt]
    rfl
  have hmap : xs = (List.range xs.length).map fun i => xs[i]?.getD (.data []) := by
    apply List.ext_getElem
    · rw [List.length_map, List.length_range]
    · intro i hi _
      rw [List.getElem_map, List.getElem_range, List.getElem?_eq_getElem hi, Option.getD_some]
  apply (mapM_congr hget).trans
  rw [h.iter]
  conv_rhs => rw [hmap, List.map_map, List.mapM_map]
  rfl

theorem decodeAccessList_eq_ok {w : View} {x : Item} {accessList : AccessList} (hw : w.Reads x) :
    decodeAccessList w = .ok accessList ↔ ReadsAccessList x accessList := by
  unfold decodeAccessList ReadsAccessList
  rw [Outcome.bind_eq_ok]
  constructor
  · rintro ⟨count, hcount, h⟩
    obtain ⟨xs, rfl, rfl⟩ := hw.itemCount_eq_ok.mp hcount
    rw [mapM_range_itemAt hw, hw.mapM_iter decodeAccess_eq_ok] at h
    exact ⟨xs, rfl, h⟩
  · rintro ⟨xs, rfl, h⟩
    refine ⟨_, hw.itemCount, ?_⟩
    rw [mapM_range_itemAt hw, hw.mapM_iter decodeAccess_eq_ok]
    exact h

/-- An access list stands at its position. -/
theorem itemAt_decodeAccessList {v : View} {xs : List Item} (h : v.Reads (.list xs)) (index : Nat)
    (accessList : AccessList) :
    (∃ w, v.itemAt index = .ok w ∧ decodeAccessList w = .ok accessList) ↔
      ∃ x, xs[index]? = some x ∧ ReadsAccessList x accessList := by
  constructor
  · rintro ⟨w, hw, haccess⟩
    obtain ⟨x, hx, rfl⟩ := h.itemAt_eq_ok.mp hw
    exact ⟨x, hx, (decodeAccessList_eq_ok (h.ofItem_mem (List.mem_of_getElem? hx))).mp haccess⟩
  · rintro ⟨x, hx, haccess⟩
    refine ⟨_, h.itemAt_eq_ok.mpr ⟨x, hx, rfl⟩, ?_⟩
    exact (decodeAccessList_eq_ok (h.ofItem_mem (List.mem_of_getElem? hx))).mpr haccess

namespace AccessListTx

theorem computeHash_eq (keccak : Bytes → H256) (tx : AccessListTx) (chainId : UInt64)
    (signature : SignatureComponents) (hash : H256) :
    (UnverifiedTransaction.computeHash keccak
        { unsigned := .accessList tx, chainId := some chainId, signature, hash } :
        Outcome DecoderError _) =
      .ok
        { unsigned := .accessList tx
          chainId := some chainId
          signature
          hash := keccak (0x01 :: (tx.signedItem chainId signature).encode) } := by
  show (tx.encode (some chainId) (some signature) >>= fun bytes => _) = _
  rw [tx.encode_eq, Outcome.ok_bind]

/-- What is decoded carries the hash of its own encoding. -/
theorem of_decode {keccak : Bytes → H256} {payload : Bytes} {u : UnverifiedTransaction}
    (h : decode keccak payload = .ok u) :
    ∃ (tx : AccessListTx) (chainId : UInt64) (signature : SignatureComponents),
      u = { unsigned := .accessList tx
            chainId := some chainId
            signature
            hash := keccak (0x01 :: (tx.signedItem chainId signature).encode) } := by
  unfold decode at h
  obtain ⟨count, _, h⟩ := Outcome.bind_eq_ok.mp h
  split_ifs at h
  simp only [Outcome.bind_eq_ok, computeHash_eq, Outcome.ok.injEq] at h
  obtain ⟨chainId, _, transaction, _, _, _, accessList, _, standardV, _, r, _, s, _, rfl⟩ := h
  exact ⟨⟨transaction, accessList⟩, chainId, ⟨standardV, r, s⟩, rfl⟩

/-- A transaction with an access list is read from the list of its eleven fields. -/
theorem decode_eq_ok {keccak : Bytes → H256} {payload : Bytes} {x : Item}
    (hx : (View.new payload).Reads x) {u : UnverifiedTransaction} :
    decode keccak payload = .ok u ↔
      ∃ (tx : AccessListTx) (chainId : UInt64) (signature : SignatureComponents) (accl : Item),
        ReadsAccessList accl tx.accessList ∧
        x = .list (u64.encode chainId :: (tx.transaction.items ++ accl ::
          signature.items (u8.encode signature.standardV))) ∧
        u = { unsigned := .accessList tx
              chainId := some chainId
              signature
              hash := keccak (0x01 :: (tx.signedItem chainId signature).encode) } := by
  unfold decode
  rw [Outcome.bind_eq_ok]
  constructor
  · rintro ⟨count, hcount, h⟩
    obtain ⟨xs, rfl, rfl⟩ := hx.itemCount_eq_ok.mp hcount
    split_ifs at h with heleven
    rw [not_not] at heleven
    simp only [Outcome.bind_eq_ok, hx.valAt, Transaction.decodeData_eq_ok hx] at h
    obtain ⟨chainId, h0, transaction, ⟨h1, h2, h3, h4, h5, h6⟩, w, hw, accessList, haccess,
      standardV, h8, r, h9, s, h10, hu⟩ := h
    -- the access list is read from its item by a loop
    obtain ⟨accl, h7, hreads⟩ := (itemAt_decodeAccessList hx _ _).mp ⟨w, hw, haccess⟩
    rw [computeHash_eq, Outcome.ok.injEq] at hu
    refine ⟨⟨transaction, accessList⟩, chainId, ⟨standardV, r, s⟩, accl, hreads, ?_, hu.symm⟩
    match xs, heleven with
    | [x0, x1, x2, x3, x4, x5, x6, x7, x8, x9, x10], _ =>
      simp only [List.getElem?_cons_zero, List.getElem?_cons_succ, Nat.reduceAdd,
        Option.some.injEq] at h0 h1 h2 h3 h4 h5 h6 h7 h8 h9 h10
      rw [h0, h1, h2, h3, h4, h5, h6, h7, h8, h9, h10]
      rfl
  · rintro ⟨tx, chainId, signature, accl, hreads, rfl, rfl⟩
    refine ⟨11, hx.itemCount, ?_⟩
    rw [if_neg (by decide)]
    obtain ⟨w, hw, haccess⟩ :=
      (itemAt_decodeAccessList hx 7 tx.accessList).mpr ⟨accl, rfl, hreads⟩
    simp only [Outcome.bind_eq_ok, hx.valAt, Transaction.decodeData_eq_ok hx]
    exact ⟨chainId, rfl, tx.transaction, ⟨rfl, rfl, rfl, rfl, rfl, rfl⟩, w, hw, tx.accessList,
      haccess, signature.standardV, rfl, signature.r, rfl, signature.s, rfl,
      computeHash_eq keccak tx chainId signature 0⟩

end AccessListTx

namespace EIP1559TransactionTx

theorem computeHash_eq (keccak : Bytes → H256) (tx : EIP1559TransactionTx) (chainId : UInt64)
    (signature : SignatureComponents) (hash : H256) :
    (UnverifiedTransaction.computeHash keccak
        { unsigned := .eip1559Transaction tx, chainId := some chainId, signature, hash } :
        Outcome DecoderError _) =
      .ok
        { unsigned := .eip1559Transaction tx
          chainId := some chainId
          signature
          hash := keccak (0x02 :: (tx.signedItem chainId signature).encode) } := by
  show (tx.encode (some chainId) (some signature) >>= fun bytes => _) = _
  rw [tx.encode_eq, Outcome.ok_bind]

/-- What is decoded carries the hash of its own encoding. -/
theorem of_decode {keccak : Bytes → H256} {payload : Bytes} {u : UnverifiedTransaction}
    (h : decode keccak payload = .ok u) :
    ∃ (tx : EIP1559TransactionTx) (chainId : UInt64) (signature : SignatureComponents),
      u = { unsigned := .eip1559Transaction tx
            chainId := some chainId
            signature
            hash := keccak (0x02 :: (tx.signedItem chainId signature).encode) } := by
  unfold decode at h
  obtain ⟨count, _, h⟩ := Outcome.bind_eq_ok.mp h
  split_ifs at h
  simp only [Outcome.bind_eq_ok, computeHash_eq, Outcome.ok.injEq] at h
  obtain ⟨chainId, _, fee, _, nonce, _, gasPrice, _, gas, _, action, _, value, _, data, _, _, _,
    accessList, _, standardV, _, r, _, s, _, rfl⟩ := h
  exact ⟨⟨⟨⟨nonce, gasPrice, gas, action, value, data⟩, accessList⟩, fee⟩, chainId,
    ⟨standardV, r, s⟩, rfl⟩

/-- A transaction with a priority fee is read from the list of its twelve fields. -/
theorem decode_eq_ok {keccak : Bytes → H256} {payload : Bytes} {x : Item}
    (hx : (View.new payload).Reads x) {u : UnverifiedTransaction} :
    decode keccak payload = .ok u ↔
      ∃ (tx : EIP1559TransactionTx) (chainId : UInt64) (signature : SignatureComponents)
          (accl : Item),
        ReadsAccessList accl tx.transaction.accessList ∧
        x = .list ([u64.encode chainId, u256.encode tx.transaction.transaction.nonce,
          u256.encode tx.maxPriorityFeePerGas, u256.encode tx.transaction.transaction.gasPrice,
          u256.encode tx.transaction.transaction.gas, tx.transaction.transaction.action.item,
          u256.encode tx.transaction.transaction.value, .data tx.transaction.transaction.data,
          accl] ++ signature.items (u8.encode signature.standardV)) ∧
        u = { unsigned := .eip1559Transaction tx
              chainId := some chainId
              signature
              hash := keccak (0x02 :: (tx.signedItem chainId signature).encode) } := by
  unfold decode
  rw [Outcome.bind_eq_ok]
  constructor
  · -- twelve fields are read, each at its place
    rintro ⟨count, hcount, h⟩
    obtain ⟨xs, rfl, rfl⟩ := hx.itemCount_eq_ok.mp hcount
    split_ifs at h with htwelve
    rw [not_not] at htwelve
    simp only [Outcome.bind_eq_ok, hx.valAt] at h
    obtain ⟨chainId, h0, maxPriorityFeePerGas, h2, nonce, h1, gasPrice, h3, gas, h4, action, h5,
      value, h6, data, h7, w, hw, accessList, haccess, standardV, h9, r, h10, s, h11, hu⟩ := h
    obtain ⟨accl, h8, hreads⟩ := (itemAt_decodeAccessList hx _ _).mp ⟨w, hw, haccess⟩
    rw [computeHash_eq, Outcome.ok.injEq] at hu
    refine ⟨⟨⟨⟨nonce, gasPrice, gas, action, value, data⟩, accessList⟩, maxPriorityFeePerGas⟩,
      chainId, ⟨standardV, r, s⟩, accl, hreads, ?_, hu.symm⟩
    match xs, htwelve with
    | [x0, x1, x2, x3, x4, x5, x6, x7, x8, x9, x10, x11], _ =>
      simp only [List.getElem?_cons_zero, List.getElem?_cons_succ, Option.some.injEq,
        codec_bytes_encode, codec_action_encode] at h0 h1 h2 h3 h4 h5 h6 h7 h8 h9 h10 h11
      rw [h0, h1, h2, h3, h4, h5, h6, h7, h8, h9, h10, h11]
      rfl
  · -- a list of this form has twelve fields, and each is read back
    rintro ⟨tx, chainId, signature, accl, hreads, rfl, rfl⟩
    refine ⟨12, hx.itemCount, ?_⟩
    rw [if_neg (by decide)]
    obtain ⟨w, hw, haccess⟩ :=
      (itemAt_decodeAccessList hx 8 tx.transaction.accessList).mpr ⟨accl, rfl, hreads⟩
    simp only [Outcome.bind_eq_ok, hx.valAt]
    exact ⟨chainId, rfl, tx.maxPriorityFeePerGas, rfl, tx.transaction.transaction.nonce, rfl,
      tx.transaction.transaction.gasPrice, rfl, tx.transaction.transaction.gas, rfl,
      tx.transaction.transaction.action, rfl, tx.transaction.transaction.value, rfl,
      tx.transaction.transaction.data, rfl, w, hw, tx.transaction.accessList, haccess,
      signature.standardV, rfl, signature.r, rfl, signature.s, rfl,
      computeHash_eq keccak tx chainId signature 0⟩

end EIP1559TransactionTx

end Cashbox.Eth
