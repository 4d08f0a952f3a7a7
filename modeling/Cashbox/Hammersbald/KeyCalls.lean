import Cashbox.Hammersbald.KeyMap

/-!
# The calls for keys

What `put`, `forget`, `get` and `may_have_key` do to the map of the keys. None of them writes to a
file of the operating system, so none of them fails in a memtable that is ready.
-/

namespace Cashbox.Hammersbald

open Cashbox.Lib LinearHash

/-! ## Reading slots -/

section Reading

variable {hashOf : Bytes → UInt32} {d : DataFile} {data key : Bytes} {slots : List Slot}
  {entries : Bytes → Option (Nat × Bytes)}

/-- The slot of a key is found by its hash and its record. -/
theorem findKey_spec (hdata : d.appender.Holds data)
    (hreads : ∀ s ∈ slots, ∃ k d, payloadAt data s.2 = some (.indexed k d) ∧ s.1 = hashOf k)
    (i : Nat) : MemTable.findKey d key (hashOf key) slots i =
      .ok ((slots.findIdx? fun s => slotKey data s = some key).map (· + i)) := by
  induction slots generalizing i with
  | nil => rfl
  | cons s slots ih =>
    obtain ⟨⟨k, d', hpayload, hhash⟩, htail⟩ := List.forall_mem_cons.mp hreads
    have hkey : slotKey data s = some k := Keeps.keyAt_eq_some.mpr ⟨d', hpayload⟩
    have hnext : MemTable.findKey d key (hashOf key) slots (i + 1) = .ok
        (((slots.findIdx? fun s => slotKey data s = some key).map (· + 1)).map (· + i)) := by
      rw [ih htail, Option.map_map]
      congr 3
      funext j
      simp only [Function.comp_apply]
      omega
    rw [List.findIdx?_cons]
    rcases s with ⟨hash, pref⟩
    unfold MemTable.findKey
    by_cases hk : k = key
    · -- the record has the key
      subst hk
      obtain ⟨payload, hrecord, hread⟩ := payloadAt_eq_some.mp hpayload
      have henvelope := DataFile.getEnvelope_of_recordAt hdata hrecord
      obtain rfl : hash = hashOf k := hhash
      simp [henvelope, hread, hkey]
    · have hne : ¬ (slotKey data (hash, pref) = some key) := by simp [hkey, hk]
      simp only [hne, decide_false]
      by_cases heq : hash = hashOf key
      · obtain ⟨payload, hrecord, hread⟩ := payloadAt_eq_some.mp hpayload
        have henvelope := DataFile.getEnvelope_of_recordAt hdata hrecord
        simp [heq, henvelope, hread, hk, hnext]
      · simp [heq, hnext]

/-- **Looking up**: where the slots have the entry of the key, it is found. -/
theorem findData_spec (hdata : d.appender.Holds data)
    (hreads : ∀ s ∈ slots, ∃ k d, payloadAt data s.2 = some (.indexed k d) ∧ s.1 = hashOf k ∧
      entries k = some (s.2, d))
    (hhas : entries key ≠ none → ∃ s ∈ slots, slotKey data s = some key) :
    MemTable.findData d key (hashOf key) slots = .ok (entries key) := by
  induction slots with
  | nil =>
    have hnone : entries key = none := by
      by_contra hne
      obtain ⟨s, hs, _⟩ := hhas hne
      cases hs
    rw [hnone]
    rfl
  | cons s slots ih =>
    obtain ⟨⟨k, d', hpayload, hhash, hentry⟩, htail⟩ := List.forall_mem_cons.mp hreads
    have hkey : slotKey data s = some k := Keeps.keyAt_eq_some.mpr ⟨d', hpayload⟩
    rcases s with ⟨hash, pref⟩
    unfold MemTable.findData
    by_cases hk : k = key
    · subst hk
      obtain ⟨payload, hrecord, hread⟩ := payloadAt_eq_some.mp hpayload
      have henvelope := DataFile.getEnvelope_of_recordAt hdata hrecord
      simp [show hash = hashOf k from hhash, henvelope, hread, hentry]
    · have hrest : MemTable.findData d key (hashOf key) slots = .ok (entries key) := by
        apply ih htail
        intro hne
        obtain ⟨s, hs, hs'⟩ := hhas hne
        rcases List.mem_cons.mp hs with rfl | hs
        · rw [hkey] at hs'
          exact absurd (Option.some.inj hs') hk
        · exact ⟨s, hs, hs'⟩
      by_cases heq : hash = hashOf key
      · obtain ⟨payload, hrecord, hread⟩ := payloadAt_eq_some.mp hpayload
        have henvelope := DataFile.getEnvelope_of_recordAt hdata hrecord
        simp [heq, henvelope, hread, hk, hrest]
      · simp [heq, hrest]

end Reading

namespace MemTable

variable {t t' : MemTable} {links data key : Bytes} {n : Nat}

/-! ## Addresses -/

theorem and_mask {bits : Nat} (h : bits ≤ 32) (x : Nat) : x &&& mask bits = x % 2 ^ bits := by
  have hmask : mask bits = 2 ^ bits - 1 := by
    unfold mask
    interval_cases bits <;> rfl
  rw [hmask, Nat.and_two_pow_sub_one_eq_mod]

theorem Ready.bucketForHash (h : Ready t links data) (hash : UInt32) :
    t.bucketForHash hash = address t.logMod t.step hash.toNat := by
  obtain ⟨_, hhigh⟩ := h.level
  unfold MemTable.bucketForHash address
  rw [and_mask (by omega), and_mask (by omega)]

/-- The bucket of a hash is there. -/
theorem Ready.address_lt (h : Ready t links data) (x : Nat) :
    address t.logMod t.step x < t.buckets.length := by
  have hlt := LinearHash.address_lt t.logMod t.step x
  have hcount := h.count
  omega

/-! ## One bucket -/

/-- The table has the same buckets, at the same level, and is to grow for the same hashes. -/
structure SameLevel (t t' : MemTable) : Prop where
  logMod : t'.logMod = t.logMod
  step : t'.step = t.step
  length : t'.buckets.length = t.buckets.length
  forgotten : t'.forgotten = t.forgotten
  target : t'.bucketFillTarget = t.bucketFillTarget

theorem SameLevel.refl (t : MemTable) : SameLevel t t := ⟨rfl, rfl, rfl, rfl, rfl⟩

theorem SameLevel.trans {t'' : MemTable} (h : SameLevel t t') (h' : SameLevel t' t'') :
    SameLevel t t'' :=
  ⟨h'.logMod.trans h.logMod, h'.step.trans h.step, h'.length.trans h.length,
    h'.forgotten.trans h.forgotten, h'.target.trans h.target⟩

theorem sameLevel_resolve (t : MemTable) : SameLevel t (t.resolve links n) :=
  ⟨rfl, rfl, List.length_modify _ _ _, rfl, rfl⟩

theorem sameLevel_edit (t : MemTable) (bucket : Bucket) : SameLevel t (t.edit n bucket) :=
  ⟨rfl, rfl, List.length_set, rfl, rfl⟩

/-- The bucket that was read. -/
theorem getElem?_resolve_of_lt (hn : n < t.buckets.length) :
    ∃ bucket, (t.resolve links n).buckets[n]? = some bucket ∧
      bucket.slots.getD [] = t.slotsOf links n := by
  refine ⟨(t.buckets[n]).resolve links, ?_, ?_⟩
  · rw [getElem?_resolve, List.getElem?_eq_getElem hn]
    rfl
  · rw [Bucket.getD_slots_resolve]
    unfold slotsOf
    rw [List.getElem?_eq_getElem hn]
    rfl

/-- **Storing** adds a slot. -/
theorem storeToBucket_spec (h : Ready t links data) (hn : n < t.buckets.length) (slot : Slot) :
    ∃ t', (storeToBucket n slot.1 slot.2).run t = (t', .ok ()) ∧ Edits links t t' ∧
      SameLevel t t' ∧ t'.slotsOf links = push n slot (t.slotsOf links) := by
  obtain ⟨⟨stored, slots⟩, hbucket, hslots⟩ := @getElem?_resolve_of_lt t links _ hn
  have hready := h.resolve n
  have hn' : n < (t.resolve links n).buckets.length := by
    rwa [(sameLevel_resolve t).length]
  have hnone : (some (slots.getD [] ++ [slot]) : Option (List Slot)) = none →
      stored = PRef.invalid := by simp
  refine ⟨(t.resolve links n).edit n ⟨stored, some (slots.getD [] ++ [slot])⟩, ?_, ?_, ?_, ?_⟩
  · have hedit := run_edit hready hn' hnone
    unfold storeToBucket pushSlot
    simp only [Method.run_bind, run_resolveBucket h, Method.run_get, hbucket, Method.run_modify,
      hedit]
  · exact .edit _ hn' hnone (.resolve n (.refl t))
  · exact (sameLevel_resolve t).trans (sameLevel_edit _ _)
  · rw [slotsOf_edit hn', slotsOf_resolve]
    unfold push
    rw [← hslots]
    rfl

/-- The slots of a bucket have its keys. -/
def SlotsRead (hashOf : Bytes → UInt32) (data : Bytes) (slots : List Slot) : Prop :=
  ∀ s ∈ slots, ∃ k d, payloadAt data s.2 = some (.indexed k d) ∧ s.1 = hashOf k

/-- **Removing** takes the slot of the key out of its bucket. -/
theorem removeDuplicate_spec {hashOf : Bytes → UInt32} (key : Bytes) (h : Ready t links data)
    (hn : n < t.buckets.length) (hreads : SlotsRead hashOf data (t.slotsOf links n))
    (hkeys : (t.slotsOf links n).Pairwise fun s s' => slotKey data s ≠ slotKey data s') :
    ∃ t' removed, (removeDuplicate key (hashOf key) n).run t = (t', .ok removed) ∧
      Edits links t t' ∧ SameLevel t t' ∧
      t'.slotsOf links = remove (slotKey data) n (some key) (t.slotsOf links) ∧
      (removed = true ↔ ∃ s ∈ t.slotsOf links n, slotKey data s = some key) := by
  obtain ⟨⟨stored, slots⟩, hbucket, hslots⟩ := @getElem?_resolve_of_lt t links _ hn
  have hready := h.resolve n
  have hn' : n < (t.resolve links n).buckets.length := by
    rwa [(sameLevel_resolve t).length]
  have hfind : findKey t.dataFile key (hashOf key) (t.slotsOf links n) 0 = _ :=
    findKey_spec h.data hreads 0
  have hdup : (t.resolve links n).duplicate key (hashOf key) n = .ok
      ((t.slotsOf links n).findIdx? fun s => slotKey data s = some key) := by
    unfold duplicate
    rw [hbucket]
    rw [← hslots] at hfind ⊢
    cases slots with
    | none => rfl
    | some slots =>
      simp only [Option.getD_some, Nat.add_zero, Option.map_id'] at hfind
      exact hfind
  cases hidx : (t.slotsOf links n).findIdx? fun s => slotKey data s = some key with
  | none =>
    have hnot : ∀ s ∈ t.slotsOf links n, slotKey data s ≠ some key := fun s hs => by
      simpa using List.findIdx?_eq_none_iff.mp hidx s hs
    refine ⟨t.resolve links n, false, ?_, .resolve n (.refl t), sameLevel_resolve t, ?_, ?_⟩
    · unfold removeDuplicate
      simp only [Method.run_bind, run_resolveBucket h, Method.run_get, Method.run_lift, hdup, hidx]
      rfl
    · have hsame : (t.slotsOf links n).filter (fun s => slotKey data s ≠ some key) =
          t.slotsOf links n :=
        List.filter_eq_self.mpr fun s hs => by simpa using hnot s hs
      rw [slotsOf_resolve]
      unfold remove
      rw [hsame, Function.update_eq_self]
    · simpa using hnot
  | some r =>
    obtain ⟨hr, hkey, _⟩ := List.findIdx?_eq_some_iff_getElem.mp hidx
    -- a bucket that has a slot is in memory
    obtain ⟨slots, rfl⟩ : ∃ slots', slots = some slots' := by
      cases slots with
      | none =>
        rw [← hslots] at hr
        exact absurd hr (Nat.not_lt_zero r)
      | some slots => exact ⟨slots, rfl⟩
    have hsome : slots = t.slotsOf links n := hslots
    have hnone : (some (slots.eraseIdx r) : Option (List Slot)) = none → stored = PRef.invalid := by
      simp
    have herase : slots.eraseIdx r =
        (t.slotsOf links n).filter fun s => slotKey data s ≠ some key := by
      rw [← eraseP_eq_filter hkeys, List.eraseP_eq_eraseIdx, hidx, hsome]
    refine ⟨(t.resolve links n).edit n ⟨stored, some (slots.eraseIdx r)⟩, true, ?_, ?_, ?_, ?_, ?_⟩
    · have hedit := run_edit hready hn' hnone
      unfold removeDuplicate removeSlot
      simp only [Method.run_bind, run_resolveBucket h, Method.run_get, Method.run_lift, hdup, hidx,
        hbucket, Method.run_modify, hedit]
      rfl
    · exact .edit _ hn' hnone (.resolve n (.refl t))
    · exact (sameLevel_resolve t).trans (sameLevel_edit _ _)
    · rw [slotsOf_edit hn', slotsOf_resolve]
      unfold remove
      rw [← herase]
      rfl
    · simp only [true_iff]
      exact ⟨_, List.getElem_mem hr, by simpa using hkey⟩

/-! ## Splitting -/

section Splitting

variable {order : List (Nat × List Slot) → List (Nat × List Slot)}

theorem newBucket_eq {logMod : Nat} (h : logMod ≤ 30) (slot : Slot) :
    newBucket logMod slot = slotHash slot % 2 ^ (logMod + 1) :=
  and_mask (by omega) _

/-- Slots that leave for one bucket are one move. -/
theorem foldl_pushMove {logMod k : Nat} {slots : List Slot} (acc : List Slot)
    (h : ∀ s ∈ slots, newBucket logMod s = k) :
    slots.foldl (fun moves slot => pushMove (newBucket logMod slot) slot moves) [(k, acc)] =
      [(k, acc ++ slots)] := by
  induction slots generalizing acc with
  | nil => simp
  | cons s slots ih =>
    obtain ⟨hs, hslots⟩ := List.forall_mem_cons.mp h
    simp [hs, pushMove, ih (acc ++ [s]) hslots]

theorem movesOf_eq {logMod n k : Nat} {slots : List Slot}
    (h : ∀ s ∈ slots, newBucket logMod s ≠ n → newBucket logMod s = k) :
    movesOf logMod n slots =
      match slots.filter fun s => newBucket logMod s ≠ n with
      | [] => []
      | leave => [(k, leave)] := by
  unfold movesOf
  have hleave : ∀ s ∈ slots.filter (fun s => newBucket logMod s ≠ n), newBucket logMod s = k := by
    intro s hs
    obtain ⟨hs, hne⟩ := List.mem_filter.mp hs
    exact h s hs (by simpa using hne)
  cases hfilter : slots.filter fun s => newBucket logMod s ≠ n with
  | nil => rfl
  | cons s leave =>
    rw [hfilter] at hleave
    obtain ⟨hs, hleave⟩ := List.forall_mem_cons.mp hleave
    simp [hs, pushMove, foldl_pushMove [s] hleave]

/-- The slots of a move are added behind those of their bucket. -/
theorem forM_storeToBucket (slots : List Slot) (h : Ready t links data)
    (hn : n < t.buckets.length) :
    ∃ t', (slots.forM fun slot => storeToBucket n slot.1 slot.2).run t = (t', .ok ()) ∧
      Edits links t t' ∧ SameLevel t t' ∧
      t'.slotsOf links = Function.update (t.slotsOf links) n (t.slotsOf links n ++ slots) := by
  induction slots generalizing t with
  | nil => exact ⟨t, rfl, .refl t, .refl t, by simp⟩
  | cons slot slots ih =>
    obtain ⟨t₁, hrun₁, hedits₁, hlevel₁, hslots₁⟩ := storeToBucket_spec h hn slot
    obtain ⟨t₂, hrun₂, hedits₂, hlevel₂, hslots₂⟩ :=
      ih (h.edits hedits₁) (hlevel₁.length.symm ▸ hn)
    refine ⟨t₂, ?_, hedits₁.trans hedits₂, hlevel₁.trans hlevel₂, ?_⟩
    · rw [List.forM_eq_forM, List.forM_cons, Method.run_bind_of_ok hrun₁]
      exact hrun₂
    · rw [hslots₂, hslots₁]
      unfold push
      simp

/-- What stays in the bucket. -/
theorem slotsIn_newBucketStore {logMod n : Nat} {slots : List Slot} :
    (newBucketStore logMod n slots).slotsIn links =
      slots.filter fun s => newBucket logMod s = n := by
  unfold newBucketStore
  cases hstays : slots.filter fun s => newBucket logMod s = n with
  | nil => simp
  | cons s stays => rfl

/-- **Rehashing** a bucket splits it. -/
theorem rehashBucket_spec (horder : ∀ moves, (order moves).Perm moves) (h : Ready t links data)
    (hok : Ok t.logMod t.step slotHash (slotKey data) (t.slotsOf links))
    (hstep : t.step < 2 ^ t.logMod) :
    ∃ t', (rehashBucket order t.step).run t = (t', .ok ()) ∧ Edits links t t' ∧
      SameLevel t t' ∧
      t'.slotsOf links = split t.logMod t.step slotHash (t.slotsOf links) := by
  obtain ⟨_, hhigh⟩ := h.level
  have hcount := h.count
  have hpow : 2 ^ (t.logMod + 1) = 2 ^ t.logMod + 2 ^ t.logMod := by rw [pow_succ]; omega
  have hn : t.step < t.buckets.length := by omega
  obtain ⟨⟨stored, slots⟩, hbucket, hslots⟩ := @getElem?_resolve_of_lt t links _ hn
  have hslots' : slots.getD [] = t.slotsOf links t.step := hslots
  have hready := h.resolve t.step
  -- what leaves the bucket goes to its partner, so the order of the moves does not matter
  have hpartner : ∀ s ∈ t.slotsOf links t.step, newBucket t.logMod s ≠ t.step →
      newBucket t.logMod s = t.step + 2 ^ t.logMod := by
    intro s hs hne
    rw [newBucket_eq hhigh] at hne ⊢
    have hplace := hok.place t.step s hs
    have hlow : slotHash s % 2 ^ t.logMod = t.step := by
      rw [mod_of_address_lt (by rw [hplace]; exact hstep), hplace]
    have hdouble := mod_double t.logMod (slotHash s)
    omega
  have hmoves := movesOf_eq hpartner
  have hfilter : (t.slotsOf links t.step).filter (fun s => newBucket t.logMod s ≠ t.step) =
      (t.slotsOf links t.step).filter fun s => slotHash s % 2 ^ (t.logMod + 1) ≠ t.step := by
    simp only [newBucket_eq hhigh]
  have hstays : (t.slotsOf links t.step).filter (fun s => newBucket t.logMod s = t.step) =
      (t.slotsOf links t.step).filter fun s => slotHash s % 2 ^ (t.logMod + 1) = t.step := by
    simp only [newBucket_eq hhigh]
  unfold rehashBucket
  simp only [Method.run_bind, run_resolveBucket h, Method.run_get, hbucket, hslots']
  cases hleave : (t.slotsOf links t.step).filter fun s => newBucket t.logMod s ≠ t.step with
  | nil =>
    -- nothing leaves, and nothing is written
    rw [hleave] at hmoves
    have hnone : movesOf t.logMod t.step (t.slotsOf links t.step) = [] := hmoves
    have hall : (t.slotsOf links t.step).filter
        (fun s => slotHash s % 2 ^ (t.logMod + 1) = t.step) = t.slotsOf links t.step := by
      rw [List.filter_eq_self]
      intro s hs
      rw [hfilter, List.filter_eq_nil_iff] at hleave
      simpa using hleave s hs
    refine ⟨t.resolve links t.step, ?_, .resolve _ (.refl t), sameLevel_resolve t, ?_⟩
    · have hnone' : movesOf (t.resolve links t.step).logMod t.step (t.slotsOf links t.step) = [] :=
        hnone
      rw [if_pos hnone']
      rfl
    · rw [slotsOf_resolve]
      unfold split
      rw [← hfilter, hleave, hall]
      simp
  | cons s leave =>
    rw [hleave] at hmoves
    have hone : movesOf (t.resolve links t.step).logMod t.step (t.slotsOf links t.step) =
        [(t.step + 2 ^ t.logMod, s :: leave)] := hmoves
    have horder' : order [(t.step + 2 ^ t.logMod, s :: leave)] =
        [(t.step + 2 ^ t.logMod, s :: leave)] := List.perm_singleton.mp (horder _)
    have hpartnerLt : t.step + 2 ^ t.logMod < (t.resolve links t.step).buckets.length := by
      rw [(sameLevel_resolve t).length]
      omega
    obtain ⟨t₁, hrun₁, hedits₁, hlevel₁, hslots₁⟩ :=
      forM_storeToBucket (s :: leave) hready hpartnerLt
    have hready₁ := hready.edits hedits₁
    have hlevel := (sameLevel_resolve t).trans hlevel₁
    have hn₁ : t.step < t₁.buckets.length := by
      rw [hlevel.length]
      exact hn
    have hinvalid : (newBucketStore t.logMod t.step (t.slotsOf links t.step)).slots = none →
        (newBucketStore t.logMod t.step (t.slotsOf links t.step)).stored = PRef.invalid := by
      unfold newBucketStore
      split
      · exact fun _ => rfl
      · exact fun _ => rfl
    refine ⟨t₁.edit t.step (newBucketStore t.logMod t.step (t.slotsOf links t.step)), ?_, ?_, ?_,
      ?_⟩
    · have hedit := run_edit hready₁ hn₁ hinvalid
      rw [if_neg (by rw [hone]; exact List.cons_ne_nil _ _), hone, horder', Method.run_bind_of_ok]
      · simp only [Method.run_bind, Method.run_modify]
        exact hedit
      · rw [List.forM_eq_forM, List.forM_cons, Method.run_bind_of_ok hrun₁]
        rfl
    · exact .edit _ hn₁ hinvalid ((Edits.resolve _ (.refl t)).trans hedits₁)
    · exact hlevel.trans (sameLevel_edit _ _)
    · rw [slotsOf_edit hn₁, slotsIn_newBucketStore, hslots₁, slotsOf_resolve, hstays]
      unfold split
      rw [← hfilter, hleave]

end Splitting

/-! ## Growing -/

section Calls

variable {siphash : UInt64 → UInt64 → Bytes → UInt64}
  {order : List (Nat × List Slot) → List (Nat × List Slot)}
  {entries : Bytes → Option (Nat × Bytes)}

/-- The memtable has these entries. -/
structure Has (siphash : UInt64 → UInt64 → Bytes → UInt64) (t : MemTable) (links data : Bytes)
    (entries : Bytes → Option (Nat × Bytes)) : Prop where
  ready : Ready t links data
  keeps : Keeps (t.hash siphash) t.logMod t.step data (t.slotsOf links) entries

/-- Edits change neither the hash function nor the files that are read. -/
structure SameFiles (t t' : MemTable) : Prop where
  sip0 : t'.sip0 = t.sip0
  sip1 : t'.sip1 = t.sip1
  log : t'.logFile.file.file = t.logFile.file.file
  dataFile : t'.dataFile = t.dataFile
  tableFile : t'.tableFile = t.tableFile
  linkFile : t'.linkFile = t.linkFile

/-- A page that is logged is in the queue of the log. -/
theorem keeps_logPage (pref : Nat) (source : TableFile) :
    Method.Keeps (fun l => l.file.file) (LogFile.logPage pref source) := by
  unfold LogFile.logPage
  refine .bind (fun _ => rfl) fun l => .ite (.bind (fun _ => rfl) fun _ => .bind (.lift _)
    fun page => ?_) (.pure ())
  cases page with
  | none => exact .pure ()
  | some page => exact fun _ => rfl

theorem Edits.sameFiles (h : Edits links t t') : SameFiles t t' := by
  induction h with
  | refl => exact ⟨rfl, rfl, rfl, rfl, rfl, rfl⟩
  | resolve n _ ih => exact { ih with }
  | edit slots _ _ _ ih => exact { ih with log := (keeps_logPage _ _ _).trans ih.log }
  | grown _ _ ih => exact { ih with }
  | forgotten k _ ih => exact { ih with }

theorem Edits.hash (h : Edits links t t') : t'.hash siphash = t.hash siphash := by
  funext key
  unfold MemTable.hash
  rw [h.sameFiles.sip0, h.sameFiles.sip1]

/-- What the slots keep after some edits. -/
theorem Has.edits (h : Has siphash t links data entries) (hedits : Edits links t t')
    {entries' : Bytes → Option (Nat × Bytes)}
    (hkeeps : Keeps (t.hash siphash) t'.logMod t'.step data (t'.slotsOf links) entries') :
    Has siphash t' links data entries' :=
  ⟨h.ready.edits hedits, by rw [hedits.hash]; exact hkeeps⟩

theorem run_append_dirty (h : Ready t links data) : t.dirty.append = .ok t.grown.dirty := by
  have hused := h.used
  have hbits := h.bits
  unfold Dirty.append MemTable.grown
  split_ifs with hfull
  · rfl
  · have hlt : t.dirty.used + 1 < t.dirty.bits.length := Nat.not_le.mp hfull
    exact if_pos hlt

/-- The table has one more bucket, at the next step. -/
structure NextLevel (t t' : MemTable) : Prop where
  logMod : t'.logMod = (nextStep t).logMod
  step : t'.step = (nextStep t).step
  forgotten : t'.forgotten = t.forgotten
  target : t'.bucketFillTarget = t.bucketFillTarget

/-- **Growing** keeps the entries: the level is as the slots of the split bucket need it. -/
theorem grow_spec (horder : ∀ moves, (order moves).Perm moves)
    (h : Has siphash t links data entries) (hstep : t.step < 2 ^ 31) :
    ∃ t', (grow order).run t = (t', .ok ()) ∧ Edits links t t' ∧
      Has siphash t' links data entries ∧ NextLevel t t' := by
  have hpow : 2 ^ (t.logMod + 1) = 2 ^ t.logMod + 2 ^ t.logMod := by rw [pow_succ]; omega
  have hpos := Nat.two_pow_pos t.logMod
  -- a split, or nothing where all buckets of the level are split
  have hsplit : ∃ t₁, (splitNext order).run t = (t₁, .ok ()) ∧ Edits links t t₁ ∧
      SameLevel t t₁ ∧ (t.step < 2 ^ t.logMod →
        Keeps (t.hash siphash) t.logMod (t.step + 1) data (t₁.slotsOf links) entries) ∧
      (¬ t.step < 2 ^ t.logMod → t₁ = t) := by
    unfold splitNext
    by_cases hlt : t.step < 2 ^ t.logMod
    · obtain ⟨t₁, hrun, hedits, hlevel, hslots⟩ := rehashBucket_spec horder h.ready h.keeps.ok hlt
      refine ⟨t₁, ?_, hedits, hlevel, fun _ => ?_, fun hnot => absurd hlt hnot⟩
      · simp only [Method.run_bind, Method.run_get, if_pos hlt, hrun]
      · rw [hslots]
        exact h.keeps.of_has (h.keeps.ok.split hlt) fun s => has_split hlt h.keeps.ok
    · refine ⟨t, ?_, .refl t, .refl t, fun hlt' => absurd hlt' hlt, fun _ => rfl⟩
      simp [Method.run_bind, hlt]
  obtain ⟨t₁, hrun₁, hedits₁, hlevel₁, hbelow, habove⟩ := hsplit
  have hready₁ := h.ready.edits hedits₁
  have hstep₁ : t₁.step < 2 ^ 31 := by rwa [hlevel₁.step]
  have hedits : Edits links t t₁.grown := .grown hstep₁ hedits₁
  obtain ⟨hlogMod, hnext⟩ := nextStep_step t₁
  have hnextLevel : NextLevel t t₁.grown := by
    obtain ⟨hlogMod', hnext'⟩ := nextStep_step t
    refine ⟨?_, ?_, hlevel₁.forgotten, hlevel₁.target⟩
    · show (nextStep t₁).logMod = _
      rw [hlogMod, hlogMod', hlevel₁.logMod, hlevel₁.step]
    · show (nextStep t₁).step = _
      rw [hnext, hnext', hlevel₁.logMod, hlevel₁.step]
  refine ⟨t₁.grown, ?_, hedits, h.edits hedits ?_, hnextLevel⟩
  · have hdirty := run_append_dirty hready₁
    have hnext : (nextStep t₁).dirty = t₁.dirty ∧ (nextStep t₁).buckets = t₁.buckets := by
      unfold nextStep
      split_ifs
      · exact ⟨rfl, rfl⟩
      · exact ⟨rfl, rfl⟩
    have hgrown : { nextStep t₁ with
        buckets := t₁.buckets ++ [Bucket.default], dirty := t₁.grown.dirty } = t₁.grown := by
      unfold MemTable.grown nextStep
      split_ifs <;> rfl
    unfold grow
    simp only [Method.run_bind, hrun₁, Method.run_modify, Method.run_get, Method.run_lift, hnext,
      hdirty, hgrown]
  · have hkeeps := h.keeps
    show Keeps _ (nextStep t₁).logMod (nextStep t₁).step data (t₁.grown.slotsOf links) entries
    rw [slotsOf_grown, hlogMod, hnext, hlevel₁.logMod, hlevel₁.step]
    by_cases hlt : t.step < 2 ^ t.logMod
    · rw [if_neg (by omega), if_neg (by omega)]
      exact hbelow hlt
    · rw [habove hlt]
      split_ifs with hlast
      · exact hkeeps.of_has (hkeeps.ok.next (by omega)) fun s => Iff.rfl
      · exact hkeeps.of_has (hkeeps.ok.step_of_le (by omega)) fun s => Iff.rfl

/-! ## The calls -/

/-- The slots of the bucket of a key have what the table has of it. -/
theorem Has.slotsRead (h : Has siphash t links data entries) (n : Nat) :
    SlotsRead (t.hash siphash) data (t.slotsOf links n) := fun s hs => by
  obtain ⟨k, d, hpayload, hhash, _⟩ := h.keeps.reads s ⟨n, hs⟩
  exact ⟨k, d, hpayload, hhash⟩

/-- Removing a key, with what it tells. -/
theorem Has.remove (h : Has siphash t links data entries) (key : Bytes) :
    ∃ t' removed, (removeDuplicate key (t.hash siphash key)
        (t.bucketForHash (t.hash siphash key))).run t = (t', .ok removed) ∧
      Edits links t t' ∧ SameLevel t t' ∧
      Has siphash t' links data (Function.update entries key none) ∧
      (removed = true ↔ (entries key).isSome) := by
  have haddress := h.ready.bucketForHash (t.hash siphash key)
  have hn := h.ready.address_lt (t.hash siphash key).toNat
  rw [haddress]
  obtain ⟨t', removed, hrun, hedits, hlevel, hslots, hremoved⟩ :=
    removeDuplicate_spec key h.ready hn (h.slotsRead _) (h.keeps.ok.keys _)
  refine ⟨t', removed, hrun, hedits, hlevel, h.edits hedits ?_, hremoved.trans ?_⟩
  · rw [hlevel.logMod, hlevel.step, hslots]
    exact h.keeps.remove rfl
  · constructor
    · intro hslot
      obtain ⟨s, hs, hkey⟩ := hslot
      obtain ⟨_, d, hentry⟩ := h.keeps.entry_of_slotKey ⟨_, hs⟩ hkey
      simp [hentry]
    · intro hsome
      obtain ⟨⟨pref, d⟩, hentry⟩ := Option.isSome_iff_exists.mp hsome
      exact ⟨_, h.keeps.exists_slot hentry⟩

/-- Growth is due when a key with this hash is put. -/
def Due (t : MemTable) (hash : UInt32) : Prop :=
  t.forgotten = 0 ∧ hash.toNat % t.bucketFillTarget = 0 ∧ t.step < 2 ^ 31

/-- **Putting** a key gives it the entry. -/
theorem put_spec (horder : ∀ moves, (order moves).Perm moves)
    (h : Has siphash t links data entries) {pref : Nat} {d : Bytes}
    (hpayload : payloadAt data pref = some (.indexed key d)) :
    ∃ t', (put siphash order key pref).run t = (t', .ok ()) ∧ Edits links t t' ∧
      Has siphash t' links data (Function.update entries key (some (pref, d))) ∧
      (Due t (t.hash siphash key) → NextLevel t t') := by
  -- first the key is taken out of its bucket
  obtain ⟨t₁, removed, hrun₁, hedits₁, hlevel₁, h₁, _⟩ := h.remove key
  have haddress := h.ready.bucketForHash (t.hash siphash key)
  have hn : t.bucketForHash (t.hash siphash key) < t₁.buckets.length := by
    rw [haddress, hlevel₁.length]
    exact h.ready.address_lt _
  -- then its new slot is put there
  obtain ⟨t₂, hrun₂, hedits₂, hlevel₂, hslots₂⟩ :=
    storeToBucket_spec h₁.ready hn (t.hash siphash key, pref)
  have h₂ : Has siphash t₂ links data (Function.update entries key (some (pref, d))) := by
    refine h₁.edits hedits₂ ?_
    have hput := h₁.keeps.push rfl (by simp) hpayload
    rw [hedits₁.hash, Function.update_idem] at hput
    rw [hslots₂, hlevel₂.logMod, hlevel₂.step, hedits₁.hash, haddress, ← hlevel₁.logMod,
      ← hlevel₁.step]
    exact hput
  -- and last a bucket may be split, or a forgotten key pays for the new one
  have hgrow : ∃ t₃, (growIfDue order (t.hash siphash key)).run t₂ = (t₃, .ok ()) ∧
      Edits links t₂ t₃ ∧
      Has siphash t₃ links data (Function.update entries key (some (pref, d))) ∧
      (Due t₂ (t.hash siphash key) → NextLevel t₂ t₃) := by
    unfold growIfDue
    rw [Method.run_bind_of_ok (Method.run_get t₂)]
    by_cases hforgotten : t₂.forgotten = 0
    · by_cases hdue : (t.hash siphash key).toNat % t₂.bucketFillTarget = 0 ∧ t₂.step < 2 ^ 31
      · obtain ⟨t₃, hrun₃, hedits₃, h₃, hnext₃⟩ := grow_spec horder h₂ hdue.2
        exact ⟨t₃, by rw [if_pos hforgotten, if_pos hdue, hrun₃], hedits₃, h₃, fun _ => hnext₃⟩
      · exact ⟨t₂, by rw [if_pos hforgotten, if_neg hdue]; rfl, .refl t₂, h₂,
          fun hdue' => absurd hdue'.2 hdue⟩
    · have hedits : Edits links t₂ { t₂ with forgotten := t₂.forgotten - 1 } :=
        .forgotten _ (.refl t₂)
      exact ⟨_, by rw [if_neg hforgotten]; rfl, hedits, h₂.edits hedits h₂.keeps,
        fun hdue' => absurd hdue'.1 hforgotten⟩
  obtain ⟨t₃, hrun₃, hedits₃, h₃, hnext₃⟩ := hgrow
  have hlevel := hlevel₁.trans hlevel₂
  have hlevelOf := nextStep_step t
  have hlevelOf₂ := nextStep_step t₂
  rw [hlevel.logMod, hlevel.step] at hlevelOf₂
  refine ⟨t₃, ?_, (hedits₁.trans hedits₂).trans hedits₃, h₃, fun hdue => ?_⟩
  · unfold put
    simp only [Method.run_bind, Method.run_get, hrun₁, hrun₂, hrun₃]
  · have hnext := hnext₃ ⟨hlevel.forgotten.trans hdue.1, by rw [hlevel.target]; exact hdue.2.1,
      by rw [hlevel.step]; exact hdue.2.2⟩
    exact ⟨by rw [hnext.logMod, hlevelOf₂.1, hlevelOf.1],
      by rw [hnext.step, hlevelOf₂.2, hlevelOf.2], hnext.forgotten.trans hlevel.forgotten,
      hnext.target.trans hlevel.target⟩

/-- **Forgetting** a key leaves it no entry. -/
theorem forget_spec (h : Has siphash t links data entries) (key : Bytes) :
    ∃ t', (forget siphash key).run t = (t', .ok ()) ∧ Edits links t t' ∧
      Has siphash t' links data (Function.update entries key none) := by
  obtain ⟨t₁, removed, hrun₁, hedits₁, _, h₁, _⟩ := h.remove key
  unfold forget
  cases removed with
  | false => exact ⟨t₁, by simp [Method.run_bind, hrun₁], hedits₁, h₁⟩
  | true =>
    have hedits : Edits links t₁ { t₁ with forgotten := t₁.forgotten + 1 } :=
      .forgotten _ (.refl t₁)
    exact ⟨_, by simp [Method.run_bind, hrun₁], hedits₁.trans hedits,
      h₁.edits hedits h₁.keeps⟩

/-- The slots of a bucket after it was read. -/
theorem Has.bucketSlots (h : Has siphash t links data entries) (x : Nat) :
    (t.resolve links (address t.logMod t.step x)).bucketSlots (address t.logMod t.step x) =
      .ok (t.slotsOf links (address t.logMod t.step x)) := by
  obtain ⟨⟨stored, slots⟩, hbucket, hslots⟩ :=
    @getElem?_resolve_of_lt t links _ (h.ready.address_lt x)
  unfold MemTable.bucketSlots
  rw [hbucket, ← hslots]

/-- Reading a bucket changes no entry. -/
theorem Has.resolve (h : Has siphash t links data entries) (n : Nat) :
    Has siphash (t.resolve links n) links data entries :=
  h.edits (.resolve n (.refl t)) (by rw [slotsOf_resolve]; exact h.keeps)

/-- **Getting** a key returns its entry. -/
theorem get_spec (h : Has siphash t links data entries) (key : Bytes) :
    ∃ t', (get siphash key).run t = (t', .ok (entries key)) ∧ Edits links t t' ∧
      Has siphash t' links data entries := by
  have haddress := h.ready.bucketForHash (t.hash siphash key)
  have hslots := h.bucketSlots (t.hash siphash key).toNat
  refine ⟨_, ?_, .resolve (address t.logMod t.step (t.hash siphash key).toNat) (.refl t),
    h.resolve _⟩
  have hfind : findData t.dataFile key (t.hash siphash key)
      (t.slotsOf links (address t.logMod t.step (t.hash siphash key).toNat)) =
        .ok (entries key) := by
    apply findData_spec h.ready.data
    · intro s hs
      obtain ⟨k, d, hpayload, hhash, hentry⟩ := h.keeps.reads s ⟨_, hs⟩
      exact ⟨k, d, hpayload, hhash, hentry⟩
    · intro hne
      obtain ⟨⟨pref, d⟩, hentry⟩ := Option.ne_none_iff_exists'.mp hne
      exact ⟨_, h.keeps.exists_slot hentry⟩
  unfold get
  simp only [Method.run_bind, Method.run_get, haddress, run_resolveBucket h.ready, Method.run_lift,
    hslots]
  exact congrArg _ hfind

/-- **A key** that has an entry may be there. -/
theorem mayHaveKey_spec (h : Has siphash t links data entries) (key : Bytes) :
    ∃ t' found, (mayHaveKey siphash key).run t = (t', .ok found) ∧ Edits links t t' ∧
      Has siphash t' links data entries ∧ ((entries key).isSome → found = true) := by
  have haddress := h.ready.bucketForHash (t.hash siphash key)
  have hslots := h.bucketSlots (t.hash siphash key).toNat
  refine ⟨_, (t.slotsOf links (address t.logMod t.step (t.hash siphash key).toNat)).any
      fun slot => slot.1 = t.hash siphash key, ?_,
    .resolve (address t.logMod t.step (t.hash siphash key).toNat) (.refl t), h.resolve _,
    fun hsome => ?_⟩
  · unfold mayHaveKey
    simp only [Method.run_bind, Method.run_get, haddress, run_resolveBucket h.ready,
      Method.run_lift, hslots]
    rfl
  · obtain ⟨⟨pref, d⟩, hentry⟩ := Option.isSome_iff_exists.mp hsome
    rw [List.any_eq_true]
    exact ⟨_, (h.keeps.exists_slot hentry).1, by simp⟩

end Calls

end MemTable

end Cashbox.Hammersbald
