import Cashbox.Hammersbald.File

/-!
# Content types

What the data file and the link file have: envelopes with a payload, which is data with a key,
data without one, or the slots of a bucket. A payload that was serialized is deserialized.
-/

namespace Cashbox.Hammersbald

open Cashbox.Lib

/-- What a bucket has of a key: its hash, and where its data are. -/
abbrev Slot := UInt32 × Nat

/-! ## Data -/

namespace Data

/-- Serialize for storage. -/
def serialize (data : Bytes) : Outcome Error Bytes := do
  let len ← writeUint 3 (data.length % 2 ^ 32) -- `self.data.len() as u32`
  return len ++ data

/-- Deserialize from storage. -/
def deserialize (bytes : Bytes) : Outcome Error Bytes := do
  let len ← index bytes 0 3
  index bytes 3 (ofBe len)

theorem serialize_eq_ok {data bytes : Bytes} :
    serialize data = .ok bytes ↔
      data.length % 2 ^ 32 < 2 ^ 24 ∧ beBytes 3 (data.length % 2 ^ 32) ++ data = bytes := by
  unfold serialize
  simp [Outcome.bind_eq_ok, writeUint_eq_ok]

theorem deserialize_serialize {data bytes : Bytes} (hlt : data.length < 2 ^ 32)
    (h : serialize data = .ok bytes) : deserialize bytes = .ok data := by
  obtain ⟨hfits, rfl⟩ := serialize_eq_ok.mp h
  rw [Nat.mod_eq_of_lt hlt] at hfits ⊢
  have hlen : index (beBytes 3 data.length ++ data) 0 3 = .ok (beBytes 3 data.length) := by
    rw [index_of_le (by simp)]
    have hleft := slice_left (beBytes 3 data.length) data
    rw [beBytes_length] at hleft
    rw [hleft]
  have hdata : index (beBytes 3 data.length ++ data) 3 data.length = .ok data := by
    rw [index_of_le (by simp)]
    have hright := slice_right (beBytes 3 data.length) data
    rw [beBytes_length] at hright
    rw [hright]
  unfold deserialize
  rw [hlen, Outcome.ok_bind, ofBe_beBytes 3 _ hfits, hdata]

end Data

/-! ## Links -/

namespace Link

/-- One slot of `from_slots`. -/
def fromSlot (slot : Slot) : Outcome Error Bytes := do
  let pref ← writeUint 6 slot.2
  return beBytes 4 slot.1.toNat ++ pref

/-- Serialize slots. -/
def fromSlots (slots : List Slot) : Outcome Error Bytes := do
  let links ← slots.mapM fromSlot
  return links.flatten

/-- One slot of `slots`. -/
def slot (links : Bytes) (i : Nat) : Slot :=
  (UInt32.ofNat (ofBe (slice links (i * 10) 4)), ofBe (slice links (i * 10 + 4) 6))

/-- Get slots. -/
def slots (links : Bytes) : List Slot := (List.range (links.length / 10)).map (slot links)

theorem fromSlot_eq_ok {s : Slot} {bytes : Bytes} :
    fromSlot s = .ok bytes ↔ s.2 < 256 ^ 6 ∧ beBytes 4 s.1.toNat ++ beBytes 6 s.2 = bytes := by
  unfold fromSlot
  simp [Outcome.bind_eq_ok, writeUint_eq_ok]

theorem length_fromSlot {s : Slot} {bytes : Bytes} (h : fromSlot s = .ok bytes) :
    bytes.length = 10 := by
  obtain ⟨_, rfl⟩ := fromSlot_eq_ok.mp h
  simp

/-- A link has ten bytes for each of its slots. -/
theorem fromSlots_eq_ok {slots : List Slot} {bytes : Bytes} (h : fromSlots slots = .ok bytes) :
    ∃ links : List Bytes, bytes = links.flatten ∧ links.length = slots.length ∧
      (∀ link ∈ links, link.length = 10) ∧
      ∀ (i : Nat) (s : Slot), slots[i]? = some s →
        ∃ link, links[i]? = some link ∧ fromSlot s = .ok link := by
  induction slots generalizing bytes with
  | nil =>
    obtain rfl : bytes = [] := by
      simpa [fromSlots, eq_comm] using h
    exact ⟨[], rfl, rfl, by simp, by simp⟩
  | cons first slots ih =>
    unfold fromSlots at h
    rw [List.mapM_cons, Outcome.bind_eq_ok] at h
    obtain ⟨links, hlinks, hbytes⟩ := h
    obtain ⟨link, hlink, hlinks⟩ := Outcome.bind_eq_ok.mp hlinks
    obtain ⟨rest, hrest, hlinks⟩ := Outcome.bind_eq_ok.mp hlinks
    cases hlinks
    cases hbytes
    have hslots : fromSlots slots = .ok rest.flatten := by
      unfold fromSlots
      rw [hrest]
      rfl
    obtain ⟨rest', hflat, hlength, hten, hget⟩ := ih hslots
    refine ⟨link :: rest', by simp [hflat], by simp [hlength], ?_, ?_⟩
    · exact List.forall_mem_cons.mpr ⟨length_fromSlot hlink, hten⟩
    · intro i s hs
      cases i with
      | zero =>
        obtain rfl : first = s := by simpa using hs
        exact ⟨link, by simp, hlink⟩
      | succ i => simpa using hget i s (by simpa using hs)

theorem slot_of_fromSlot {links link : Bytes} {s : Slot} {i : Nat} (h : fromSlot s = .ok link)
    (hlink : slice links (i * 10) 10 = link) : slot links i = s := by
  obtain ⟨hlt, rfl⟩ := fromSlot_eq_ok.mp h
  have hhash : slice links (i * 10) 4 = beBytes 4 s.1.toNat := by
    have hleft := slice_left (beBytes 4 s.1.toNat) (beBytes 6 s.2)
    rw [← hlink, slice_slice (by simp)] at hleft
    simpa using hleft
  have hpref : slice links (i * 10 + 4) 6 = beBytes 6 s.2 := by
    have hright := slice_right (beBytes 4 s.1.toNat) (beBytes 6 s.2)
    rw [← hlink, slice_slice (by simp)] at hright
    simpa using hright
  unfold slot
  rw [hhash, hpref, ofBe_beBytes 4 _ s.1.toNat_lt, ofBe_beBytes 6 _ hlt, UInt32.ofNat_toNat]

/-- **Links** give the slots back that they were made from. -/
theorem slots_fromSlots {list : List Slot} {bytes : Bytes} (h : fromSlots list = .ok bytes) :
    slots bytes = list := by
  obtain ⟨links, rfl, hlength, hten, hget⟩ := fromSlots_eq_ok h
  have hcount : links.flatten.length / 10 = list.length := by
    rw [length_flatten_of_forall hten, hlength, Nat.mul_div_cancel _ (by decide)]
  unfold slots
  rw [hcount]
  apply List.ext_getElem
  · simp
  · intro i hi hi'
    obtain ⟨link, hlink, hslot⟩ := hget i list[i] (List.getElem?_eq_getElem hi')
    rw [List.getElem_map, List.getElem_range]
    exact slot_of_fromSlot hslot (slice_flatten hten hlink)

theorem length_of_fromSlots {list : List Slot} {bytes : Bytes} (h : fromSlots list = .ok bytes) :
    bytes.length = list.length * 10 := by
  obtain ⟨links, rfl, hlength, hten, _⟩ := fromSlots_eq_ok h
  rw [length_flatten_of_forall hten, hlength]

end Link

/-! ## Indexed data -/

namespace IndexedData

/-- Serialize for storage. -/
def serialize (key data : Bytes) : Outcome Error Bytes := do
  let store ← Data.serialize data
  return UInt8.ofNat key.length :: (key ++ store) -- `self.key.len() as u8`

/-- Deserialize from storage: the key and the data. -/
def deserialize (bytes : Bytes) : Outcome Error (Bytes × Bytes) := do
  let keyLen ← index bytes 0 1
  let key ← index bytes 1 (ofBe keyLen)
  let data ← Data.deserialize (bytes.drop (ofBe keyLen + 1))
  return (key, data)

theorem serialize_eq_ok {key data bytes : Bytes} :
    serialize key data = .ok bytes ↔
      ∃ store, Data.serialize data = .ok store ∧
        UInt8.ofNat key.length :: (key ++ store) = bytes := by
  unfold serialize
  simp [Outcome.bind_eq_ok]

theorem deserialize_serialize {key data bytes : Bytes} (hkey : key.length < 2 ^ 8)
    (hdata : data.length < 2 ^ 32) (h : serialize key data = .ok bytes) :
    deserialize bytes = .ok (key, data) := by
  obtain ⟨store, hstore, rfl⟩ := serialize_eq_ok.mp h
  have hkeyLen : ofBe [UInt8.ofNat key.length] = key.length := by
    have hone : ofBe [UInt8.ofNat key.length] = (UInt8.ofNat key.length).toNat := by
      simp [ofBe]
    rw [hone]
    exact UInt8.toNat_ofNat_of_lt hkey
  have hlen : index (UInt8.ofNat key.length :: (key ++ store)) 0 1 =
      .ok [UInt8.ofNat key.length] := by
    rw [index_of_le (by simp)]
    rfl
  have hpart : index (UInt8.ofNat key.length :: (key ++ store)) 1 key.length = .ok key := by
    rw [index_of_le (by simp; omega)]
    have hmid := slice_mid [UInt8.ofNat key.length] key store
    rw [List.singleton_append, List.cons_append] at hmid
    exact congrArg _ hmid
  have hrest : (UInt8.ofNat key.length :: (key ++ store)).drop (key.length + 1) = store := by
    simp
  unfold deserialize
  rw [hlen, Outcome.ok_bind, hkeyLen, hpart, Outcome.ok_bind, hrest,
    Data.deserialize_serialize hdata hstore]
  rfl

end IndexedData

/-! ## Payloads -/

/-- Payloads in the data file and in the link file. -/
inductive Payload where
  | indexed (key data : Bytes)
  | referred (data : Bytes)
  | link (links : Bytes)
  deriving DecidableEq, Repr

namespace Payload

/-- Serialize for storage. -/
def serialize : Payload → Outcome Error Bytes
  | indexed key data => do
    let bytes ← IndexedData.serialize key data
    return 0 :: bytes
  | referred data => do
    let bytes ← Data.serialize data
    return 1 :: bytes
  | link links => .ok (2 :: links)

/-- Deserialize from storage. -/
def deserialize : Bytes → Outcome Error Payload
  | [] => .panic .indexOutOfBounds
  | tag :: bytes =>
    if tag = 0 then do
      let (key, data) ← IndexedData.deserialize bytes
      return .indexed key data
    else if tag = 1 then do
      let data ← Data.deserialize bytes
      return .referred data
    else if tag = 2 then .ok (.link bytes)
    else .err (.corrupted "unknown payload type")

/-- The lengths of the payload are not cut when it is serialized. -/
def Fits : Payload → Prop
  | indexed key data => key.length < 2 ^ 8 ∧ data.length < 2 ^ 31
  | referred data => data.length < 2 ^ 31
  | link links => links.length < 2 ^ 31

instance (p : Payload) : Decidable p.Fits := by
  cases p <;> unfold Fits <;> infer_instance

/-- **Payloads** are read as they were written. -/
theorem deserialize_serialize {p : Payload} {bytes : Bytes} (hfits : p.Fits)
    (h : p.serialize = .ok bytes) : deserialize bytes = .ok p := by
  cases p with
  | indexed key data =>
    obtain ⟨store, hstore, heq⟩ := Outcome.bind_eq_ok.mp h
    cases heq
    obtain ⟨hkey, hdata⟩ := hfits
    simp [deserialize, IndexedData.deserialize_serialize hkey (by omega) hstore]
  | referred data =>
    obtain ⟨store, hstore, heq⟩ := Outcome.bind_eq_ok.mp h
    cases heq
    have hdata : data.length < 2 ^ 31 := hfits
    simp [deserialize, Data.deserialize_serialize (by omega) hstore]
  | link links =>
    cases h
    rfl

/-- Short data is serialized, behind a header of some bytes. -/
theorem exists_serialize_indexed (key : Bytes) {data : Bytes} (h : data.length < 2 ^ 24) :
    ∃ bytes, (indexed key data).serialize = .ok bytes ∧
      bytes.length = key.length + data.length + 5 := by
  have hmod : data.length % 2 ^ 32 = data.length := Nat.mod_eq_of_lt (by omega)
  have hstore := Data.serialize_eq_ok.mpr ⟨hmod.symm ▸ h, rfl⟩
  refine ⟨_, by simp only [serialize, IndexedData.serialize, hstore]; rfl, ?_⟩
  simp only [List.length_cons, List.length_append, beBytes_length]
  omega

theorem exists_serialize_referred {data : Bytes} (h : data.length < 2 ^ 24) :
    ∃ bytes, (referred data).serialize = .ok bytes ∧ bytes.length = data.length + 4 := by
  have hmod : data.length % 2 ^ 32 = data.length := Nat.mod_eq_of_lt (by omega)
  have hstore := Data.serialize_eq_ok.mpr ⟨hmod.symm ▸ h, rfl⟩
  refine ⟨_, by simp only [serialize, hstore]; rfl, ?_⟩
  simp only [List.length_cons, List.length_append, beBytes_length]
  omega

/-- A payload is a few bytes longer than what it has. -/
theorem length_serialize_lt {p : Payload} {bytes : Bytes} (hfits : p.Fits)
    (h : p.serialize = .ok bytes) : bytes.length < 2 ^ 32 := by
  cases p with
  | indexed key data =>
    obtain ⟨store, hstore, heq⟩ := Outcome.bind_eq_ok.mp h
    cases heq
    obtain ⟨_, hdata', rfl⟩ := IndexedData.serialize_eq_ok.mp hstore
    obtain ⟨_, rfl⟩ := Data.serialize_eq_ok.mp hdata'
    obtain ⟨hkey, hdata⟩ := hfits
    simp
    omega
  | referred data =>
    obtain ⟨store, hstore, heq⟩ := Outcome.bind_eq_ok.mp h
    cases heq
    obtain ⟨_, rfl⟩ := Data.serialize_eq_ok.mp hstore
    have hdata : data.length < 2 ^ 31 := hfits
    simp
    omega
  | link links =>
    cases h
    have hlinks : links.length < 2 ^ 31 := hfits
    simp
    omega

end Payload

/-! ## Envelopes -/

/-- Content envelope wrapping in data file, serialized for storage. -/
def Envelope.serialize (payload : Bytes) : Outcome Error Bytes := do
  let len ← writeUint 3 (payload.length % 2 ^ 32) -- `self.buffer.len() as u32`
  return len ++ payload

theorem Envelope.serialize_eq_ok {payload bytes : Bytes} (hlt : payload.length < 2 ^ 32) :
    Envelope.serialize payload = .ok bytes ↔
      payload.length < 2 ^ 24 ∧ beBytes 3 payload.length ++ payload = bytes := by
  unfold Envelope.serialize
  rw [Nat.mod_eq_of_lt hlt]
  simp [Outcome.bind_eq_ok, writeUint_eq_ok]

end Cashbox.Hammersbald
