import Cashbox.Hammersbald.Api
import Cashbox.Btc.ChainDb
import Cashbox.Btc.Consensus

/-!
# The block store of the chain database

The chain database stores headers under their hashes and hashes under keys of its own. The adaptor
encodes them, and the store keeps the bytes. In every run the two kinds of objects are read back as
from two maps.
-/

namespace Cashbox.Hammersbald

open Cashbox.Lib

/-- `serde_cbor` for one type: `to_vec` and `from_slice`. -/
structure Serde (ε T : Type) where
  toVec : T → Outcome ε Bytes
  fromSlice : Bytes → Outcome ε T

/-- An object is read from the bytes that it is written as, and these are not too many. -/
def Serde.Reads {ε T : Type} (serde : Serde ε T) (x : T) : Prop :=
  ∀ data, serde.toVec x = .ok data → serde.fromSlice data = .ok x ∧ data.length < 2 ^ 31

namespace BitcoinAdaptor

/-! ## The adaptor -/

section Calls

variable {ε T : Type} (siphash : UInt64 → UInt64 → Bytes → UInt64)
  (order : List (Nat × List Slot) → List (Nat × List Slot)) (debugAssertions : Bool)
  (boxed : Error → ε) (serde : Serde ε T)

/-- The error of a call of the store goes into a box. -/
def call {α : Type} (m : Method Hammersbald Error α) : Method Hammersbald ε α where
  run db := ((m.run db).1, (m.run db).2.mapErr boxed)

/-- Store some bitcoin object with arbitrary key. -/
def putKeyedEncodable (key : Bytes) (encodable : T) : Method Hammersbald ε Nat := do
  let data ← Method.lift (serde.toVec encodable)
  call boxed (Hammersbald.putKeyed siphash order debugAssertions key data)

/-- Store some bitcoin object that has a bitcoin hash. -/
def putHashKeyed (bitcoinHash : T → Btc.Sha256dHash) (encodable : T) : Method Hammersbald ε Nat :=
  putKeyedEncodable siphash order debugAssertions boxed serde
    (Btc.encodeHash (bitcoinHash encodable)) encodable

/-- Retrieve some bitcoin object with arbitrary key. -/
def getKeyedDecodable (key : Bytes) : Method Hammersbald ε (Option (Nat × T)) := do
  match ← call boxed (Hammersbald.getKeyed siphash key) with
  | some (pref, data) => do
    let object ← Method.lift (serde.fromSlice data)
    return some (pref, object)
  | none => return none

/-- Retrieve a bitcoin object with its hash. -/
def getHashKeyed (id : Btc.Sha256dHash) : Method Hammersbald ε (Option (Nat × T)) :=
  getKeyedDecodable siphash boxed serde (Btc.encodeHash id)

end Calls

/-- The store as the chain database uses it. Reading leaves nothing behind but buckets in memory. -/
def chainStore {W : Type} (siphash : UInt64 → UInt64 → Bytes → UInt64)
    (order : List (Nat × List Slot) → List (Nat × List Slot)) (debugAssertions : Bool)
    (boxed : Error → Btc.Error) (headers : Serde Btc.Error (Btc.StoredHeader W))
    (hashes : Serde Btc.Error Btc.Sha256dHash) (bitcoinHash : Btc.BlockHeader → Btc.Sha256dHash) :
    Btc.BitcoinAdaptor W Hammersbald where
  putHashKeyed stored := do
    let _ ← putHashKeyed siphash order debugAssertions boxed headers
      (fun stored => bitcoinHash stored.header) stored
    return ()
  putKeyedEncodable key hash := do
    let _ ← putKeyedEncodable siphash order debugAssertions boxed hashes key hash
    return ()
  batch := call boxed Hammersbald.batch
  getHashKeyed db id := do
    let found ← ((getHashKeyed siphash boxed headers id).run db).2
    return found.map Prod.snd
  getKeyedDecodable db key := do
    let found ← ((getKeyedDecodable siphash boxed hashes key).run db).2
    return found.map Prod.snd

/-! ## What the calls do -/

section Reading

variable {ε T : Type} {siphash : UInt64 → UInt64 → Bytes → UInt64}
  {order : List (Nat × List Slot) → List (Nat × List Slot)} {debugAssertions : Bool}
  {boxed : Error → ε} {serde : Serde ε T} {db db' : Hammersbald} {key : Bytes} {pref : Nat}

theorem run_call {α : Type} (m : Method Hammersbald Error α) (db : Hammersbald) :
    (call boxed m).run db = ((m.run db).1, (m.run db).2.mapErr boxed) := rfl

theorem run_call_of_ok {α : Type} {m : Method Hammersbald Error α} {a : α}
    (h : (call boxed m).run db = (db', .ok a)) : m.run db = (db', .ok a) := by
  obtain ⟨hdb, hresult⟩ := Prod.mk.inj h
  rcases hrun : m.run db with ⟨db₁, b | e | p⟩
  · rw [hrun] at hdb hresult
    cases hdb
    cases hresult
    rfl
  · rw [hrun] at hresult
    cases hresult
  · rw [hrun] at hresult
    cases hresult

/-- An object that was stored was encoded before. -/
theorem run_putKeyedEncodable {x : T}
    (h : (putKeyedEncodable siphash order debugAssertions boxed serde key x).run db =
      (db', .ok pref)) : ∃ data, serde.toVec x = .ok data ∧
        (Hammersbald.putKeyed siphash order debugAssertions key data).run db = (db', .ok pref) := by
  obtain ⟨db₁, data, hdata, hput⟩ := Method.run_bind_eq_ok.mp h
  obtain rfl : db = db₁ := congrArg Prod.fst hdata
  exact ⟨data, congrArg Prod.snd hdata, run_call_of_ok hput⟩

/-- What the store takes for an encoded object is taken for the object. -/
theorem run_putKeyedEncodable_of_run {x : T} {data : Bytes} (hdata : serde.toVec x = .ok data)
    (h : (Hammersbald.putKeyed siphash order debugAssertions key data).run db = (db', .ok pref)) :
    (putKeyedEncodable siphash order debugAssertions boxed serde key x).run db =
      (db', .ok pref) := by
  unfold putKeyedEncodable
  rw [Method.run_lift_bind_of_ok hdata, run_call, h]
  rfl

/-- What is stored for a key is some object, or nothing is. -/
def Stored (serde : Serde ε T) (entry : Option (Nat × Bytes)) (object : Option T) : Prop :=
  match object with
  | some x => ∃ pref data, entry = some (pref, data) ∧ serde.fromSlice data = .ok x
  | none => entry = none

/-- **An object** is read from the entry of its key. -/
theorem getKeyedDecodable_of_stored {entry : Option (Nat × Bytes)} {object : Option T}
    (hget : (Hammersbald.getKeyed siphash key).run db = (db', .ok entry))
    (hstored : Stored serde entry object) :
    (do
      let found ← ((getKeyedDecodable siphash boxed serde key).run db).2
      return found.map Prod.snd : Outcome ε (Option T)) = .ok object := by
  have hcall : (call boxed (Hammersbald.getKeyed siphash key)).run db = (db', .ok entry) := by
    rw [run_call, hget]
    rfl
  unfold getKeyedDecodable
  rw [Method.run_bind_of_ok hcall]
  cases object with
  | none =>
    obtain rfl : entry = none := hstored
    rfl
  | some x =>
    obtain ⟨pref, data, rfl, hread⟩ := hstored
    simp [Method.run_bind, hread]

end Reading

/-! ## Runs of the chain database -/

section Steps

variable {W : Type} (siphash : UInt64 → UInt64 → Bytes → UInt64)
  (order : List (Nat × List Slot) → List (Nat × List Slot)) (debugAssertions : Bool)
  (boxed : Error → Btc.Error) (headers : Serde Btc.Error (Btc.StoredHeader W))
  (hashes : Serde Btc.Error Btc.Sha256dHash) (bitcoinHash : Btc.BlockHeader → Btc.Sha256dHash)

/-- The store after some calls of the chain database that returned, with the headers and the hashes
that were stored last. The keys of hashes are shorter than hashes are. -/
inductive StoreRun : Nat → (Btc.Sha256dHash → Option (Btc.StoredHeader W)) →
    (Bytes → Option Btc.Sha256dHash) → Hammersbald → Prop
  | new {db : Hammersbald} : Hammersbald.Run siphash debugAssertions [] (fun _ => none) db →
      StoreRun 0 (fun _ => none) (fun _ => none) db
  | putHashKeyed {n : Nat} {stored : Btc.Sha256dHash → Option (Btc.StoredHeader W)}
      {kept : Bytes → Option Btc.Sha256dHash} {db db' : Hammersbald} {header : Btc.StoredHeader W} :
      StoreRun n stored kept db → headers.Reads header →
      ((chainStore siphash order debugAssertions boxed headers hashes bitcoinHash).putHashKeyed
        header).run db = (db', .ok ()) →
      StoreRun (n + 1) (Function.update stored (bitcoinHash header.header) (some header)) kept db'
  | putKeyedEncodable {n : Nat} {stored : Btc.Sha256dHash → Option (Btc.StoredHeader W)}
      {kept : Bytes → Option Btc.Sha256dHash} {db db' : Hammersbald} {key : Bytes}
      {hash : Btc.Sha256dHash} :
      StoreRun n stored kept db → hashes.Reads hash → key.length < 32 →
      ((chainStore siphash order debugAssertions boxed headers hashes bitcoinHash).putKeyedEncodable
        key hash).run db = (db', .ok ()) →
      StoreRun (n + 1) stored (Function.update kept key (some hash)) db'
  | batch {n : Nat} {stored : Btc.Sha256dHash → Option (Btc.StoredHeader W)}
      {kept : Bytes → Option Btc.Sha256dHash} {db db' : Hammersbald} :
      StoreRun n stored kept db →
      (chainStore siphash order debugAssertions boxed headers hashes bitcoinHash).batch.run db =
        (db', .ok ()) →
      StoreRun n stored kept db'
  /-- Reading a key brings its bucket into memory. -/
  | getKeyed {n : Nat} {stored : Btc.Sha256dHash → Option (Btc.StoredHeader W)}
      {kept : Bytes → Option Btc.Sha256dHash} {db db' : Hammersbald} {key : Bytes}
      {found : Option (Nat × Bytes)} : StoreRun n stored kept db →
      (Hammersbald.getKeyed siphash key).run db = (db', .ok found) → StoreRun n stored kept db'
  | backgroundData {n : Nat} {stored : Btc.Sha256dHash → Option (Btc.StoredHeader W)}
      {kept : Bytes → Option Btc.Sha256dHash} {db db' : Hammersbald} : StoreRun n stored kept db →
      (Hammersbald.background MemTable.onData).run db = (db', .ok ()) → StoreRun n stored kept db'
  | backgroundLink {n : Nat} {stored : Btc.Sha256dHash → Option (Btc.StoredHeader W)}
      {kept : Bytes → Option Btc.Sha256dHash} {db db' : Hammersbald} : StoreRun n stored kept db →
      (Hammersbald.background MemTable.onLink).run db = (db', .ok ()) → StoreRun n stored kept db'

end Steps

section Runs

variable {W : Type} {siphash : UInt64 → UInt64 → Bytes → UInt64}
  {order : List (Nat × List Slot) → List (Nat × List Slot)} {debugAssertions : Bool}
  {boxed : Error → Btc.Error} {headers : Serde Btc.Error (Btc.StoredHeader W)}
  {hashes : Serde Btc.Error Btc.Sha256dHash} {bitcoinHash : Btc.BlockHeader → Btc.Sha256dHash}

/-- The entries of the store are those of the two maps. -/
structure Maps (headers : Serde Btc.Error (Btc.StoredHeader W))
    (hashes : Serde Btc.Error Btc.Sha256dHash)
    (stored : Btc.Sha256dHash → Option (Btc.StoredHeader W))
    (kept : Bytes → Option Btc.Sha256dHash) (entries : Bytes → Option (Nat × Bytes)) : Prop where
  headers : ∀ id, Stored headers (entries (Btc.encodeHash id)) (stored id)
  hashes : ∀ key, key.length < 32 → Stored hashes (entries key) (kept key)

variable {n : Nat} {stored : Btc.Sha256dHash → Option (Btc.StoredHeader W)}
  {kept : Bytes → Option Btc.Sha256dHash} {entries : Bytes → Option (Nat × Bytes)}
  {db : Hammersbald}

theorem length_encodeHash (id : Btc.Sha256dHash) : (Btc.encodeHash id).length = 32 :=
  leBytes_length _ _

theorem encodeHash_injective {id id' : Btc.Sha256dHash}
    (h : Btc.encodeHash id = Btc.encodeHash id') : id = id' := by
  have hback (id : Btc.Sha256dHash) : ofBe (Btc.encodeHash id).reverse = id.toNat :=
    ofBe_beBytes 32 id.toNat id.isLt
  apply BitVec.eq_of_toNat_eq
  rw [← hback id, h, hback id']

/-- A header more, under its hash. -/
theorem Maps.putHashKeyed (h : Maps headers hashes stored kept entries) {id : Btc.Sha256dHash}
    {header : Btc.StoredHeader W} {pref : Nat} {data : Bytes}
    (hread : headers.fromSlice data = .ok header) :
    Maps headers hashes (Function.update stored id (some header)) kept
      (Function.update entries (Btc.encodeHash id) (some (pref, data))) := by
  constructor
  · intro id'
    by_cases hid : id' = id
    · subst hid
      rw [Function.update_self, Function.update_self]
      exact ⟨pref, data, rfl, hread⟩
    · have hkey : Btc.encodeHash id' ≠ Btc.encodeHash id := fun heq =>
        hid (encodeHash_injective heq)
      rw [Function.update_of_ne hid, Function.update_of_ne hkey]
      exact h.headers id'
  · intro key hkey
    have hne : key ≠ Btc.encodeHash id := by
      rintro rfl
      rw [length_encodeHash] at hkey
      exact absurd hkey (lt_irrefl _)
    rw [Function.update_of_ne hne]
    exact h.hashes key hkey

/-- A hash more, under a key that no header has. -/
theorem Maps.putKeyedEncodable (h : Maps headers hashes stored kept entries) {key : Bytes}
    (hkey : key.length < 32) {hash : Btc.Sha256dHash} {pref : Nat} {data : Bytes}
    (hread : hashes.fromSlice data = .ok hash) :
    Maps headers hashes stored (Function.update kept key (some hash))
      (Function.update entries key (some (pref, data))) := by
  constructor
  · intro id
    have hne : Btc.encodeHash id ≠ key := by
      rintro rfl
      rw [length_encodeHash] at hkey
      exact absurd hkey (lt_irrefl _)
    rw [Function.update_of_ne hne]
    exact h.headers id
  · intro key' hkey'
    by_cases heq : key' = key
    · subst heq
      rw [Function.update_self, Function.update_self]
      exact ⟨pref, data, rfl, hread⟩
    · rw [Function.update_of_ne heq, Function.update_of_ne heq]
      exact h.hashes key' hkey'

/-- **Every run** of the chain database is one of the store, whose entries are the two maps. -/
theorem StoreRun.maps (horder : ∀ moves, (order moves).Perm moves)
    (h : StoreRun siphash order debugAssertions boxed headers hashes bitcoinHash n stored kept db) :
    ∃ records entries, Hammersbald.Run siphash debugAssertions records entries db ∧
      records.length = n ∧ Maps headers hashes stored kept entries := by
  induction h with
  | new hrun => exact ⟨[], _, hrun, rfl, fun _ => rfl, fun _ _ => rfl⟩
  | @putHashKeyed n stored kept db db' header _ hreads hrun ih =>
    obtain ⟨records, entries, hbefore, hlength, hmaps⟩ := ih
    -- one put appends one record and sets one entry
    obtain ⟨db₁, pref, hput, hpure⟩ := Method.run_bind_eq_ok.mp hrun
    cases hpure
    obtain ⟨data, hdata, hput⟩ := run_putKeyedEncodable hput
    obtain ⟨hread, hshort⟩ := hreads data hdata
    have hkey := length_encodeHash (bitcoinHash header.header)
    refine ⟨_, _, .putKeyed hbefore horder (.inr ⟨?_, hshort⟩) hput, ?_, hmaps.putHashKeyed hread⟩
    · rw [hkey]
      decide
    · rw [List.length_append, hlength]
      rfl
  | @putKeyedEncodable n stored kept db db' key hash _ hreads hkey hrun ih =>
    obtain ⟨records, entries, hbefore, hlength, hmaps⟩ := ih
    obtain ⟨db₁, pref, hput, hpure⟩ := Method.run_bind_eq_ok.mp hrun
    cases hpure
    obtain ⟨data, hdata, hput⟩ := run_putKeyedEncodable hput
    obtain ⟨hread, hshort⟩ := hreads data hdata
    refine ⟨_, _, .putKeyed hbefore horder (.inr ⟨by omega, hshort⟩) hput, ?_,
      hmaps.putKeyedEncodable hkey hread⟩
    rw [List.length_append, hlength]
    rfl
  | batch _ hrun ih =>
    obtain ⟨records, entries, hbefore, hlength, hmaps⟩ := ih
    exact ⟨records, entries, .batch hbefore (run_call_of_ok hrun), hlength, hmaps⟩
  | getKeyed _ hrun ih =>
    obtain ⟨records, entries, hbefore, hlength, hmaps⟩ := ih
    exact ⟨records, entries, .getKeyed hbefore hrun, hlength, hmaps⟩
  | backgroundData _ hrun ih =>
    obtain ⟨records, entries, hbefore, hlength, hmaps⟩ := ih
    exact ⟨records, entries, .backgroundData hbefore hrun, hlength, hmaps⟩
  | backgroundLink _ hrun ih =>
    obtain ⟨records, entries, hbefore, hlength, hmaps⟩ := ih
    exact ⟨records, entries, .backgroundLink hbefore hrun, hlength, hmaps⟩

/-- **The block store** answers the chain database as two maps would: a header is read back by its
hash, and a hash by its key, as they were stored last. -/
theorem StoreRun.readsBlocks (horder : ∀ moves, (order moves).Perm moves)
    (h : StoreRun siphash order debugAssertions boxed headers hashes bitcoinHash n stored kept db)
    (hcount : n < 2 ^ 27) :
    (∀ id, (chainStore siphash order debugAssertions boxed headers hashes bitcoinHash).getHashKeyed
      db id = .ok (stored id)) ∧
    ∀ key, key.length < 32 →
      (chainStore siphash order debugAssertions boxed headers hashes bitcoinHash).getKeyedDecodable
        db key = .ok (kept key) := by
  obtain ⟨records, entries, hrun, rfl, hmaps⟩ := h.maps horder
  obtain ⟨links, data, hstores⟩ := hrun.stores hcount
  have hfound (key : Bytes) :
      ∃ db', (Hammersbald.getKeyed siphash key).run db = (db', .ok (entries key)) := by
    obtain ⟨t', hget, _⟩ := MemTable.get_spec hstores.has key
    exact ⟨⟨t'⟩, Hammersbald.run_onMem hget⟩
  constructor
  · intro id
    obtain ⟨db', hget⟩ := hfound (Btc.encodeHash id)
    exact getKeyedDecodable_of_stored hget (hmaps.headers id)
  · intro key hkey
    obtain ⟨db', hget⟩ := hfound key
    exact getKeyedDecodable_of_stored hget (hmaps.hashes key hkey)

/-- A hash in CBOR: a byte string of 32 bytes. -/
def hashCbor : Serde Btc.Error Btc.Sha256dHash where
  toVec hash := .ok (0x58 :: 0x20 :: Btc.encodeHash hash)
  fromSlice bytes := .ok (BitVec.ofNat 256 (ofBe (bytes.drop 2).reverse))

/-- The number of `k` bytes from a place on. -/
def number (bytes : Bytes) (start k : Nat) : Nat := ofBe ((bytes.drop start).take k).reverse

/-- A stored header as the bytes of its fields. -/
def packed : Serde Btc.Error (Btc.StoredHeader Nat) where
  toVec stored :=
    if stored.height < 2 ^ 32 ∧ stored.log2work < 2 ^ 64 then
      .ok (stored.header.consensusEncode ++ (leBytes 4 stored.height ++ leBytes 8 stored.log2work))
    else .err .hammersbald
  fromSlice bytes :=
    .ok
      { header :=
          { version := UInt32.ofNat (number bytes 0 4)
            prevBlockhash := BitVec.ofNat 256 (number bytes 4 32)
            merkleRoot := BitVec.ofNat 256 (number bytes 36 32)
            time := UInt32.ofNat (number bytes 68 4)
            bits := UInt32.ofNat (number bytes 72 4)
            nonce := UInt32.ofNat (number bytes 76 4) }
        height := number bytes 80 4
        log2work := number bytes 84 8 }

theorem ofBe_reverse_leBytes {k n : Nat} (h : n < 256 ^ k) : ofBe (leBytes k n).reverse = n :=
  ofBe_beBytes k n h

theorem packed_toVec {stored : Btc.StoredHeader Nat} (hheight : stored.height < 2 ^ 32)
    (hwork : stored.log2work < 2 ^ 64) : packed.toVec stored = .ok
      (stored.header.consensusEncode ++ (leBytes 4 stored.height ++ leBytes 8 stored.log2work)) :=
  if_pos ⟨hheight, hwork⟩

theorem packed_reads (stored : Btc.StoredHeader Nat) : packed.Reads stored := by
  intro data hdata
  unfold packed at hdata
  dsimp only at hdata
  split_ifs at hdata with hfits
  cases hdata
  obtain ⟨hheight, hwork⟩ := hfits
  have hversion := ofBe_reverse_leBytes (k := 4) stored.header.version.toNat_lt
  have hprev := ofBe_reverse_leBytes (k := 32) stored.header.prevBlockhash.isLt
  have hmerkle := ofBe_reverse_leBytes (k := 32) stored.header.merkleRoot.isLt
  have htime := ofBe_reverse_leBytes (k := 4) stored.header.time.toNat_lt
  have hbits := ofBe_reverse_leBytes (k := 4) stored.header.bits.toNat_lt
  have hnonce := ofBe_reverse_leBytes (k := 4) stored.header.nonce.toNat_lt
  have hheight' := ofBe_reverse_leBytes (k := 4) hheight
  have hwork' := ofBe_reverse_leBytes (k := 8) hwork
  constructor
  · simp [packed, number, Btc.BlockHeader.consensusEncode, Btc.encodeHash, List.drop_append,
      List.drop_eq_nil_of_le, List.take_of_length_le, hversion, hprev, hmerkle,
      htime, hbits, hnonce, hheight', hwork']
  · simp [Btc.BlockHeader.consensusEncode, Btc.encodeHash]

theorem hashCbor_reads (hash : Btc.Sha256dHash) : hashCbor.Reads hash := by
  intro data hdata
  cases hdata
  have hnumber := ofBe_reverse_leBytes (k := 32) hash.isLt
  constructor
  · simp [hashCbor, Btc.encodeHash, hnumber]
  · simp [Btc.encodeHash]

/-! ### Runs over a new store -/

/-- The block store with these encodings. -/
def packedStore (bitcoinHash : Btc.BlockHeader → Btc.Sha256dHash) :
    Btc.BitcoinAdaptor Nat Hammersbald :=
  chainStore (fun _ _ _ => 0) id true (fun _ => .hammersbald) packed hashCbor bitcoinHash

variable {records : List (Nat × Bytes × Bytes)} {pos pos' : Nat}

/-- A new store has room for a header. -/
theorem putHeader_ok (h : Hammersbald.Begun (fun _ _ _ => 0) records entries db pos)
    (hcount : records.length < 2 ^ 8) (hpos : pos ≤ 2 ^ 24) {header : Btc.StoredHeader Nat}
    (hheight : header.height < 2 ^ 32) (hwork : header.log2work < 2 ^ 64)
    (hend : pos + 132 = pos') : ∃ db' r entries',
      ((packedStore bitcoinHash).putHashKeyed header).run db = (db', .ok ()) ∧
      Hammersbald.Begun (fun _ _ _ => 0) (records ++ [r]) entries' db' pos' := by
  have hkey := length_encodeHash (bitcoinHash header.header)
  have hsize : (header.header.consensusEncode ++
      (leBytes 4 header.height ++ leBytes 8 header.log2work)).length = 92 := by
    simp [Btc.BlockHeader.consensusEncode, Btc.encodeHash]
  obtain ⟨db', hput, hbegun⟩ := @Hammersbald.Begun.putKeyed _ _
    (Btc.encodeHash (bitcoinHash header.header)) (header.header.consensusEncode ++
      (leBytes 4 header.height ++ leBytes 8 header.log2work)) _ _ _ pos' h hcount hpos
    (by rw [hkey]; decide) (by rw [hsize]; decide) (by rw [hkey, hsize]; exact hend)
  have hdata := packed_toVec hheight hwork
  have hencoded :
      (putKeyedEncodable (fun _ _ _ => 0) id true (fun _ => Btc.Error.hammersbald) packed
      (Btc.encodeHash (bitcoinHash header.header)) header).run db = (db', .ok pos) :=
    run_putKeyedEncodable_of_run hdata hput
  exact ⟨db', _, _, Method.run_bind_of_ok hencoded, hbegun⟩

/-- A new store has room for a tip. -/
theorem putTip_ok (h : Hammersbald.Begun (fun _ _ _ => 0) records entries db pos)
    (hcount : records.length < 2 ^ 8) (hpos : pos ≤ 2 ^ 24) (hash : Btc.Sha256dHash)
    (hend : pos + Btc.headerTipKey.length + 42 = pos') : ∃ db' r entries',
      ((packedStore bitcoinHash).putKeyedEncodable Btc.headerTipKey hash).run db = (db', .ok ()) ∧
      Hammersbald.Begun (fun _ _ _ => 0) (records ++ [r]) entries' db' pos' := by
  have hsize : (0x58 :: 0x20 :: Btc.encodeHash hash).length = 34 := by
    rw [List.length_cons, List.length_cons, length_encodeHash]
  obtain ⟨db', hput, hbegun⟩ := @Hammersbald.Begun.putKeyed _ _ Btc.headerTipKey
    (0x58 :: 0x20 :: Btc.encodeHash hash) _ _ _ pos' h hcount hpos (by decide)
    (by rw [hsize]; decide) (by rw [hsize]; exact hend)
  exact ⟨db', _, _, Method.run_bind_of_ok (run_putKeyedEncodable_of_run rfl hput), hbegun⟩

/-- The hash of a header is its nonce. -/
def nonceHash (header : Btc.BlockHeader) : Btc.Sha256dHash := BitVec.ofNat 256 header.nonce.toNat

def someHeader (nonce : UInt32) (height : Nat) : Btc.StoredHeader Nat :=
  ⟨{ Btc.genesisHeader 0 .regtest with nonce := nonce }, height, height + 2⟩

/-- Two headers and their tips are stored, and a batch ends. -/
theorem readsBlocks_headerTip : ∃ db,
    (∀ hash, (packedStore nonceHash).getHashKeyed db hash =
      .ok (Function.update (Function.update (fun _ => none) 5 (some (someHeader 5 0)))
        6 (some (someHeader 6 1)) hash)) ∧
    ∀ key, key.length < 32 → (packedStore nonceHash).getKeyedDecodable db key =
      .ok (Function.update (Function.update (fun _ => none) Btc.headerTipKey (some 5))
        Btc.headerTipKey (some 6) key) := by
  have hkey : Btc.headerTipKey.length < 32 := by decide
  obtain ⟨db₁, _, _, hput₁, h₁⟩ := @putHeader_ok nonceHash _ _ _ _ 132
    (Hammersbald.begun_newDb _) (by simp) (by decide) (someHeader 5 0) (by decide) (by decide) rfl
  obtain ⟨db₂, _, _, hput₂, h₂⟩ := @putTip_ok nonceHash _ _ _ _ 175 h₁ (by simp) (by decide) 5 rfl
  obtain ⟨db₃, _, _, hput₃, h₃⟩ := @putHeader_ok nonceHash _ _ _ _ 307 h₂ (by simp) (by decide)
    (someHeader 6 1) (by decide) (by decide) rfl
  obtain ⟨db₄, _, _, hput₄, h₄⟩ := @putTip_ok nonceHash _ _ _ _ 350 h₃ (by simp) (by decide) 6 rfl
  obtain ⟨db₅, hbatch, _⟩ := h₄.batch (by simp) (by decide)
  have hrun : StoreRun (fun _ _ _ => 0) id true (fun _ => .hammersbald) packed hashCbor nonceHash 4
      (Function.update (Function.update (fun _ => none) 5 (some (someHeader 5 0)))
        6 (some (someHeader 6 1)))
      (Function.update (Function.update (fun _ => none) Btc.headerTipKey (some 5))
        Btc.headerTipKey (some 6)) db₅ := by
    refine .batch (.putKeyedEncodable (.putHashKeyed (.putKeyedEncodable (.putHashKeyed
      (.new (Hammersbald.begun_newDb _).run) (packed_reads _) hput₁) (hashCbor_reads _) hkey hput₂)
      (packed_reads _) hput₃) (hashCbor_reads _) hkey hput₄) ?_
    show (call _ Hammersbald.batch).run db₄ = _
    rw [run_call, hbatch]
    rfl
  exact ⟨db₅, StoreRun.readsBlocks (fun _ => .refl _) hrun (by decide)⟩

end Runs

end BitcoinAdaptor

end Cashbox.Hammersbald
