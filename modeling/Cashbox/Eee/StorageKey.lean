import Cashbox.Lib.Scale
import Cashbox.Eee.Metadata

/-!
# Storage keys

The key of a storage entry is the hash of its module's prefix, the hash of its name and
one segment for each key of the map. `key_hash` computes the segment with the hasher
that the metadata names. It follows Substrate for six of the seven hashers; for
`Twox64Concat` it returns the hash without the key behind it.

The hash functions are parameters of their output lengths.
-/

namespace Cashbox.Eee

open Cashbox.Lib Cashbox.Scale

/-! ## Hash functions -/

/-- The hash functions of `sp_core`. -/
structure Hashing where
  blake2_128 : Bytes → FixedBytes 16
  blake2_256 : Bytes → FixedBytes 32
  twox_64 : Bytes → FixedBytes 8
  twox_128 : Bytes → FixedBytes 16
  twox_256 : Bytes → FixedBytes 32

variable (hashing : Hashing)

/-- Substrate's hasher of a name, on an encoded key. -/
def StorageHasher.hash (hasher : StorageHasher) (x : Bytes) : Bytes :=
  match hasher with
  | .blake2_128 => hashing.blake2_128 x
  | .blake2_256 => hashing.blake2_256 x
  | .blake2_128Concat => hashing.blake2_128 x ++ x
  | .twox128 => hashing.twox_128 x
  | .twox256 => hashing.twox_256 x
  | .twox64Concat => hashing.twox_64 x ++ x
  | .identity => x

/-- The hashers whose segment ends with the key. -/
def StorageHasher.keepsKey : StorageHasher → Bool
  | .identity | .blake2_128Concat | .twox64Concat => true
  | _ => false

/-! ## Keys -/

/-- generates the key's hash depending on the StorageHasher selected -/
def keyHash (encodedKey : Bytes) (hasher : StorageHasher) : Bytes :=
  match hasher with
  | .identity => encodedKey
  | .blake2_128 => hashing.blake2_128 encodedKey
  | .blake2_128Concat => hashing.blake2_128 encodedKey ++ encodedKey
  | .blake2_256 => hashing.blake2_256 encodedKey
  | .twox128 => hashing.twox_128 encodedKey
  | .twox256 => hashing.twox_256 encodedKey
  | .twox64Concat => hashing.twox_64 encodedKey

/-- The hashes of the module's prefix and of the entry's name. -/
def StorageMetadata.keyPrefix (s : StorageMetadata) : Bytes :=
  hashing.twox_128 (Text.asBytes s.modulePrefix.toList) ++
    hashing.twox_128 (Text.asBytes s.storagePrefix.toList)

variable {K Q V : Type}

structure StorageMap (V : Type) where
  keyPrefix : Bytes
  hasher : StorageHasher
  default : V

structure StorageDoubleMap (V : Type) where
  keyPrefix : Bytes
  hasher : StorageHasher
  key2Hasher : StorageHasher
  default : V

/-- The default value has to be one of the value type. -/
def StorageMetadata.defaultValue (s : StorageMetadata) (value : Decoder V) :
    Outcome MetadataError V :=
  Outcome.okOr .mapValueTypeError ((value s.default).map Prod.fst)

def StorageMetadata.getValue (s : StorageMetadata) : Outcome MetadataError Bytes :=
  match s.ty with
  | .plain => .ok (s.keyPrefix hashing)
  | _ => .err .storageTypeError

def StorageMetadata.getMapPrefix (s : StorageMetadata) : Outcome MetadataError Bytes :=
  match s.ty with
  | .map _ => .ok (s.keyPrefix hashing)
  | _ => .err .storageTypeError

def StorageMetadata.getMap (s : StorageMetadata) (value : Decoder V) :
    Outcome MetadataError (StorageMap V) :=
  match s.ty with
  | .map hasher => do
    let default ← s.defaultValue value
    .ok { keyPrefix := s.keyPrefix hashing, hasher, default }
  | _ => .err .storageTypeError

def StorageMetadata.getDoubleMap (s : StorageMetadata) (value : Decoder V) :
    Outcome MetadataError (StorageDoubleMap V) :=
  match s.ty with
  | .doubleMap hasher key2Hasher => do
    let default ← s.defaultValue value
    .ok { keyPrefix := s.keyPrefix hashing, hasher, key2Hasher, default }
  | _ => .err .storageTypeError

def StorageMap.key (m : StorageMap V) (encodeKey : K → Bytes) (key : K) : Bytes :=
  m.keyPrefix ++ keyHash hashing (encodeKey key) m.hasher

def StorageDoubleMap.key (m : StorageDoubleMap V) (encodeKey : K → Bytes) (encodeKey2 : Q → Bytes)
    (key1 : K) (key2 : Q) : Bytes :=
  m.keyPrefix ++ keyHash hashing (encodeKey key1) m.hasher ++
    keyHash hashing (encodeKey2 key2) m.key2Hasher

namespace Metadata

def storageValueKey (m : Metadata) (storagePrefix storageKeyName : String) :
    Outcome MetadataError Bytes := do
  let entry ← m.storageEntry storagePrefix storageKeyName
  entry.getValue hashing

def storageMapKeyPrefix (m : Metadata) (storagePrefix storageKeyName : String) :
    Outcome MetadataError Bytes := do
  let entry ← m.storageEntry storagePrefix storageKeyName
  entry.getMapPrefix hashing

def storageMapKey (encodeKey : K → Bytes) (value : Decoder V) (m : Metadata)
    (storagePrefix storageKeyName : String) (mapKey : K) : Outcome MetadataError Bytes := do
  let entry ← m.storageEntry storagePrefix storageKeyName
  let map ← entry.getMap hashing value
  .ok (map.key hashing encodeKey mapKey)

def storageDoubleMapKey (encodeKey : K → Bytes) (encodeKey2 : Q → Bytes) (value : Decoder V)
    (m : Metadata) (storagePrefix storageKeyName : String) (first : K) (second : Q) :
    Outcome MetadataError Bytes := do
  let entry ← m.storageEntry storagePrefix storageKeyName
  let map ← entry.getDoubleMap hashing value
  .ok (map.key hashing encodeKey encodeKey2 first second)

end Metadata

/-! ## Segments -/

/-- A hasher forgets the key only where there is one to forget. -/
theorem keyHash_eq_hash_iff (hasher : StorageHasher) (x : Bytes) :
    keyHash hashing x hasher = hasher.hash hashing x ↔ hasher ≠ .twox64Concat ∨ x = [] := by
  cases hasher with
  | twox64Concat => simp [keyHash, StorageHasher.hash]
  | _ => simp [keyHash, StorageHasher.hash]

/-- The segment of the code is the shorter one. -/
theorem length_keyHash_le (hasher : StorageHasher) (x : Bytes) :
    (keyHash hashing x hasher).length ≤ (hasher.hash hashing x).length := by
  cases hasher with
  | twox64Concat => simp [keyHash, StorageHasher.hash]
  | _ => simp [keyHash, StorageHasher.hash]

theorem keyHash_eq_of_length (hasher : StorageHasher) (x : Bytes)
    (h : (keyHash hashing x hasher).length = (hasher.hash hashing x).length) :
    keyHash hashing x hasher = hasher.hash hashing x := by
  rw [keyHash_eq_hash_iff]
  cases hasher with
  | twox64Concat => simpa [keyHash, StorageHasher.hash] using h
  | _ => simp

theorem StorageHasher.hash_suffix {hasher : StorageHasher} (h : hasher.keepsKey = true)
    (x : Bytes) : x <:+ hasher.hash hashing x := by
  cases hasher with
  | identity => exact List.suffix_rfl
  | blake2_128Concat => exact List.suffix_append _ x
  | twox64Concat => exact List.suffix_append _ x
  | _ => cases h

/-- A segment that ends with the key tells keys apart, whatever follows it. -/
theorem StorageHasher.key_of_hash_append {hasher : StorageHasher} (h : hasher.keepsKey = true)
    (c : Codec K) {x y : K} {rest rest' : Bytes}
    (heq : hasher.hash hashing (c.encode x) ++ rest = hasher.hash hashing (c.encode y) ++ rest') :
    x = y := by
  cases hasher with
  | identity => exact (c.encode_append_inj heq).1
  | blake2_128Concat =>
    simp only [StorageHasher.hash, List.append_assoc] at heq
    have hrest := List.append_inj_right heq (by
      rw [(hashing.blake2_128 _).2, (hashing.blake2_128 _).2])
    exact (c.encode_append_inj hrest).1
  | twox64Concat =>
    simp only [StorageHasher.hash, List.append_assoc] at heq
    have hrest := List.append_inj_right heq (by rw [(hashing.twox_64 _).2, (hashing.twox_64 _).2])
    exact (c.encode_append_inj hrest).1
  | _ => cases h

/-- A segment of any hasher ends where the next one begins. -/
theorem StorageHasher.rest_of_hash_append (hasher : StorageHasher) (c : Codec K) {x y : K}
    {rest rest' : Bytes}
    (heq : hasher.hash hashing (c.encode x) ++ rest = hasher.hash hashing (c.encode y) ++ rest') :
    rest = rest' := by
  by_cases h : hasher.keepsKey = true
  · obtain rfl := key_of_hash_append hashing h c heq
    exact List.append_cancel_left heq
  · -- without the key the segment has the length of the hash
    have hlength : ∀ z, (hasher.hash hashing z).length = (hasher.hash hashing []).length := by
      intro z
      cases hasher with
      | blake2_128 => exact (hashing.blake2_128 z).2.trans (hashing.blake2_128 []).2.symm
      | blake2_256 => exact (hashing.blake2_256 z).2.trans (hashing.blake2_256 []).2.symm
      | twox128 => exact (hashing.twox_128 z).2.trans (hashing.twox_128 []).2.symm
      | twox256 => exact (hashing.twox_256 z).2.trans (hashing.twox_256 []).2.symm
      | _ => exact absurd rfl h
    exact List.append_inj_right heq ((hlength _).trans (hlength _).symm)

/-! ## Keys of maps -/

variable (c : Codec K) (d : Codec Q) (value : Decoder V) (m : Metadata)
  (storagePrefix storageKeyName : String) (entry : StorageMetadata)

/-- The keys of a map are Substrate's, and tell keys apart if the hasher keeps them. -/
structure FollowsMap (hasher : StorageHasher) : Prop where
  key : ∀ k, m.storageMapKey hashing c.encode value storagePrefix storageKeyName k =
    .ok (entry.keyPrefix hashing ++ hasher.hash hashing (c.encode k))
  suffix : hasher.keepsKey = true → ∀ k, c.encode k <:+ keyHash hashing (c.encode k) hasher
  injective : hasher.keepsKey = true → ∀ k k',
    m.storageMapKey hashing c.encode value storagePrefix storageKeyName k =
      m.storageMapKey hashing c.encode value storagePrefix storageKeyName k' → k = k'

/-- The keys of a double map are Substrate's, and tell apart each key whose hasher keeps
it. -/
structure FollowsDoubleMap (hasher key2Hasher : StorageHasher) : Prop where
  key : ∀ k q,
    m.storageDoubleMapKey hashing c.encode d.encode value storagePrefix storageKeyName k q =
      .ok (entry.keyPrefix hashing ++ hasher.hash hashing (c.encode k) ++
        key2Hasher.hash hashing (d.encode q))
  suffix : ∀ k q,
    (hasher.keepsKey = true → c.encode k <:+ keyHash hashing (c.encode k) hasher) ∧
    (key2Hasher.keepsKey = true → d.encode q <:+ keyHash hashing (d.encode q) key2Hasher)
  injective : ∀ k q k' q',
    m.storageDoubleMapKey hashing c.encode d.encode value storagePrefix storageKeyName k q =
      m.storageDoubleMapKey hashing c.encode d.encode value storagePrefix storageKeyName k' q' →
    (hasher.keepsKey = true → k = k') ∧ (key2Hasher.keepsKey = true → q = q')

section Maps

variable {m storagePrefix storageKeyName entry value}
variable {hasher key2Hasher : StorageHasher}

theorem storageMapKey_eq (hentry : m.storageEntry storagePrefix storageKeyName = .ok entry)
    (hvalue : (value entry.default).isSome) (hty : entry.ty = .map hasher) (k : K) :
    m.storageMapKey hashing c.encode value storagePrefix storageKeyName k =
      .ok (entry.keyPrefix hashing ++ keyHash hashing (c.encode k) hasher) := by
  obtain ⟨v, hv⟩ := Option.isSome_iff_exists.mp hvalue
  rw [Metadata.storageMapKey, hentry, Outcome.ok_bind, StorageMetadata.getMap, hty]
  simp [StorageMetadata.defaultValue, hv, Outcome.okOr, StorageMap.key]

theorem storageDoubleMapKey_eq (hentry : m.storageEntry storagePrefix storageKeyName = .ok entry)
    (hvalue : (value entry.default).isSome) (hty : entry.ty = .doubleMap hasher key2Hasher)
    (k : K) (q : Q) :
    m.storageDoubleMapKey hashing c.encode d.encode value storagePrefix storageKeyName k q =
      .ok (entry.keyPrefix hashing ++ keyHash hashing (c.encode k) hasher ++
        keyHash hashing (d.encode q) key2Hasher) := by
  obtain ⟨v, hv⟩ := Option.isSome_iff_exists.mp hvalue
  rw [Metadata.storageDoubleMapKey, hentry, Outcome.ok_bind, StorageMetadata.getDoubleMap, hty]
  simp [StorageMetadata.defaultValue, hv, Outcome.okOr, StorageDoubleMap.key]

theorem followsMap_iff (hentry : m.storageEntry storagePrefix storageKeyName = .ok entry)
    (hvalue : (value entry.default).isSome) (hty : entry.ty = .map hasher) :
    FollowsMap hashing c value m storagePrefix storageKeyName entry hasher ↔
      ∀ k, hasher ≠ .twox64Concat ∨ c.encode k = [] := by
  have hkey := storageMapKey_eq hashing c hentry hvalue hty
  constructor
  · intro h k
    -- the hash is compared behind the prefix, which both keys have
    have hk := h.key k
    rw [hkey, Outcome.ok.injEq] at hk
    exact (keyHash_eq_hash_iff hashing hasher _).mp (List.append_cancel_left hk)
  · intro h
    have hhash : ∀ k, keyHash hashing (c.encode k) hasher = hasher.hash hashing (c.encode k) :=
      fun k => (keyHash_eq_hash_iff hashing hasher _).mpr (h k)
    refine ⟨?_, ?_, ?_⟩
    · intro k
      rw [hkey, hhash]
    · intro hkeeps k
      rw [hhash]
      exact StorageHasher.hash_suffix hashing hkeeps _
    · intro hkeeps k k' heq
      rw [hkey, hkey, hhash, hhash, Outcome.ok.injEq] at heq
      apply StorageHasher.key_of_hash_append hashing hkeeps c
      exact congrArg (· ++ []) (List.append_cancel_left heq)

theorem followsDoubleMap_iff (hentry : m.storageEntry storagePrefix storageKeyName = .ok entry)
    (hvalue : (value entry.default).isSome) (hty : entry.ty = .doubleMap hasher key2Hasher) :
    FollowsDoubleMap hashing c d value m storagePrefix storageKeyName entry hasher key2Hasher ↔
      ∀ k q, (hasher ≠ .twox64Concat ∨ c.encode k = []) ∧
        (key2Hasher ≠ .twox64Concat ∨ d.encode q = []) := by
  have hkey := storageDoubleMapKey_eq hashing c d hentry hvalue hty
  constructor
  · intro h k q
    have hkq := h.key k q
    rw [hkey, Outcome.ok.injEq, List.append_assoc, List.append_assoc] at hkq
    have hsegments := List.append_cancel_left hkq
    -- neither segment is longer than Substrate's, so both are as long
    have hlength := congrArg List.length hsegments
    rw [List.length_append, List.length_append] at hlength
    have hfirst := length_keyHash_le hashing hasher (c.encode k)
    have hsecond := length_keyHash_le hashing key2Hasher (d.encode q)
    exact ⟨(keyHash_eq_hash_iff hashing hasher _).mp
        (keyHash_eq_of_length hashing hasher _ (by omega)),
      (keyHash_eq_hash_iff hashing key2Hasher _).mp
        (keyHash_eq_of_length hashing key2Hasher _ (by omega))⟩
  · intro h
    have hhash : ∀ k q, keyHash hashing (c.encode k) hasher = hasher.hash hashing (c.encode k) ∧
        keyHash hashing (d.encode q) key2Hasher = key2Hasher.hash hashing (d.encode q) :=
      fun k q => ⟨(keyHash_eq_hash_iff hashing hasher _).mpr (h k q).1,
        (keyHash_eq_hash_iff hashing key2Hasher _).mpr (h k q).2⟩
    refine ⟨?_, ?_, ?_⟩
    · intro k q
      rw [hkey, (hhash k q).1, (hhash k q).2]
    · intro k q
      rw [(hhash k q).1, (hhash k q).2]
      exact ⟨fun hkeeps => StorageHasher.hash_suffix hashing hkeeps _,
        fun hkeeps => StorageHasher.hash_suffix hashing hkeeps _⟩
    · intro k q k' q' heq
      rw [hkey, hkey, (hhash k q).1, (hhash k q).2, (hhash k' q').1, (hhash k' q').2,
        Outcome.ok.injEq, List.append_assoc, List.append_assoc] at heq
      have hsegments := List.append_cancel_left heq
      have hrest := StorageHasher.rest_of_hash_append hashing hasher c hsegments
      refine ⟨fun hkeeps => StorageHasher.key_of_hash_append hashing hkeeps c hsegments, ?_⟩
      intro hkeeps
      apply StorageHasher.key_of_hash_append hashing hkeeps d
      exact congrArg (· ++ []) hrest

end Maps

/-- The storage keys of a map or a double map follow Substrate exactly when no hasher
`Twox64Concat` of the entry is given a key with bytes. -/
theorem storageKeys_follow_iff (hentry : m.storageEntry storagePrefix storageKeyName = .ok entry)
    (hvalue : (value entry.default).isSome) :
    (∀ hasher, entry.ty = .map hasher →
      (FollowsMap hashing c value m storagePrefix storageKeyName entry hasher ↔
        ∀ k, hasher ≠ .twox64Concat ∨ c.encode k = [])) ∧
    (∀ hasher key2Hasher, entry.ty = .doubleMap hasher key2Hasher →
      (FollowsDoubleMap hashing c d value m storagePrefix storageKeyName entry hasher key2Hasher ↔
        ∀ k q, (hasher ≠ .twox64Concat ∨ c.encode k = []) ∧
          (key2Hasher ≠ .twox64Concat ∨ d.encode q = []))) :=
  ⟨fun _ hty => followsMap_iff hashing c hentry hvalue hty,
    fun _ _ hty => followsDoubleMap_iff hashing c d hentry hvalue hty⟩

/-- Metadata with one entry. -/
def unitMetadata (entry : StorageMetadata) : Metadata :=
  { modules := [(entry.modulePrefix, { storage := [(entry.storagePrefix, entry)] })]
    modulesWithCalls := []
    modulesWithEvents := [] }

/-- The hashes of some names, and of the number one. -/
def unitHashing : Hashing where
  blake2_128 _ := FixedBytes.zero 16
  blake2_256 _ := FixedBytes.zero 32
  twox_64 _ := ⟨[0x51, 0x53, 0xcb, 0x1f, 0x00, 0x94, 0x2f, 0xf4], rfl⟩
  twox_128 x :=
    if x = Text.asBytes "Staking".toList then
      ⟨[0x5f, 0x3e, 0x49, 0x07, 0xf7, 0x16, 0xac, 0x89,
        0xb6, 0x34, 0x7d, 0x15, 0xec, 0xec, 0xed, 0xca], rfl⟩
    else if x = Text.asBytes "ErasTotalStake".toList then
      ⟨[0xa1, 0x41, 0xc4, 0xfe, 0x67, 0xc2, 0xd1, 0x1f,
        0x4a, 0x10, 0xc6, 0xac, 0xa7, 0xa7, 0x9a, 0x04], rfl⟩
    else if x = Text.asBytes "Democracy".toList then
      ⟨[0xf2, 0x79, 0x4c, 0x22, 0xe3, 0x53, 0xe9, 0xa8,
        0x39, 0xf1, 0x2f, 0xaa, 0xb0, 0x3a, 0x91, 0x1b], rfl⟩
    else
      ⟨[0xf6, 0x89, 0x67, 0xd6, 0x35, 0x64, 0x1a, 0x70,
        0x87, 0xe5, 0x3f, 0x2b, 0xff, 0x1e, 0xca, 0xd3], rfl⟩
  twox_256 _ := FixedBytes.zero 32

/-- The preimages of proposals, by their hash. -/
theorem storageKeys_follow_iff_preimages :
    FollowsMap unitHashing (fixedBytes 32) u8.decode
      (unitMetadata ⟨"Democracy", "Preimages", .map .identity, [0]⟩) "Democracy" "Preimages"
      ⟨"Democracy", "Preimages", .map .identity, [0]⟩ .identity :=
  ((storageKeys_follow_iff unitHashing (fixedBytes 32) u32 u8.decode
    (unitMetadata ⟨"Democracy", "Preimages", .map .identity, [0]⟩) "Democracy" "Preimages"
    ⟨"Democracy", "Preimages", .map .identity, [0]⟩ rfl rfl).1 .identity rfl).mpr
    fun _ => Or.inl (by decide)

/-- The total stake by the number of the era: the key has eight bytes after the prefix, and
Substrate's twelve. -/
theorem not_followsMap_of_twox64Concat :
    ¬ FollowsMap unitHashing u32 (fixedBytes 16).decode
      (unitMetadata ⟨"Staking", "ErasTotalStake", .map .twox64Concat, List.replicate 16 0⟩)
      "Staking" "ErasTotalStake"
      ⟨"Staking", "ErasTotalStake", .map .twox64Concat, List.replicate 16 0⟩ .twox64Concat := by
  intro h
  have hkey := (followsMap_iff unitHashing u32 rfl rfl rfl).mp h 1
  exact absurd hkey (by decide)

end Cashbox.Eee
