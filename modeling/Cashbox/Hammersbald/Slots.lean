import Cashbox.Hammersbald.MemTable
import Cashbox.Hammersbald.TableLinks

/-!
# The slots of the buckets

A bucket has its slots in memory, or behind its link in the link file. What a put or a forget does
to the memtable is a sequence of edits: a bucket is read into memory, a bucket is written in
memory and marked as dirty, or the table grows by an empty bucket. None of them can fail in a
memtable that is ready, and all of them leave it ready.
-/

namespace Cashbox.Hammersbald

open Cashbox.Lib

/-! ## Buckets -/

/-- The slots behind a link, if it leads to a record of links. -/
def storedSlots (links : Bytes) (stored : Nat) : Option (List Slot) :=
  if PRef.IsValid stored then
    match payloadAt links stored with
    | some (.link bytes) => some (Link.slots bytes)
    | _ => none
  else some []

namespace Bucket

/-- The slots of a bucket, in memory or behind its link. -/
def slotsIn (links : Bytes) (bucket : Bucket) : List Slot :=
  bucket.slots.getD ((storedSlots links bucket.stored).getD [])

/-- The bucket with its slots in memory. A bucket without slots has no link to follow. -/
def resolve (links : Bytes) (bucket : Bucket) : Bucket :=
  if bucket.slots = none ∧ PRef.IsValid bucket.stored then
    { bucket with slots := some (bucket.slotsIn links) }
  else bucket

variable {links : Bytes} {bucket : Bucket}

@[simp] theorem slotsIn_some (stored : Nat) (slots : List Slot) :
    slotsIn links ⟨stored, some slots⟩ = slots := rfl

@[simp] theorem slotsIn_default : slotsIn links Bucket.default = [] := by
  simp [slotsIn, Bucket.default, storedSlots, PRef.IsValid]

@[simp] theorem slotsIn_resolve : (bucket.resolve links).slotsIn links = bucket.slotsIn links := by
  unfold resolve
  split_ifs
  · rfl
  · rfl

@[simp] theorem stored_resolve : (bucket.resolve links).stored = bucket.stored := by
  unfold resolve
  split_ifs <;> rfl

/-- What is in memory after the bucket was read. -/
theorem getD_slots_resolve : (bucket.resolve links).slots.getD [] = bucket.slotsIn links := by
  unfold resolve
  split_ifs with h
  · rfl
  · rcases bucket with ⟨stored, _ | slots⟩
    · have hstored : ¬ PRef.IsValid stored := fun hvalid => h ⟨rfl, hvalid⟩
      simp [slotsIn, storedSlots, hstored]
    · rfl

end Bucket

namespace MemTable

/-- The slots of the bucket with a number. -/
def slotsOf (t : MemTable) (links : Bytes) (n : Nat) : List Slot :=
  ((t.buckets[n]?).map (Bucket.slotsIn links)).getD []

/-! ## Edits -/

/-- A bucket is read into memory. -/
def resolve (links : Bytes) (n : Nat) (t : MemTable) : MemTable :=
  { t with buckets := t.buckets.modify n (Bucket.resolve links) }

/-- A bucket is written in memory; its page is logged. -/
def edit (n : Nat) (bucket : Bucket) (t : MemTable) : MemTable :=
  { t with
    buckets := t.buckets.set n bucket
    dirty := { t.dirty with bits := t.dirty.bits.set n true }
    logFile := ((LogFile.logPage (pageOfBucket n) t.tableFile).run t.logFile).1 }

/-- The table has one more bucket, which is empty. -/
def grown (t : MemTable) : MemTable :=
  { t with
    logMod := (nextStep t).logMod
    step := (nextStep t).step
    buckets := t.buckets ++ [Bucket.default]
    dirty := ⟨if t.dirty.bits.length ≤ t.dirty.used + 1 then
        t.dirty.bits ++ (true :: List.replicate 63 false)
      else t.dirty.bits.set (t.dirty.used + 1) true, t.dirty.used + 1⟩ }

/-- What the calls for keys do to the memtable. -/
inductive Edits (links : Bytes) : MemTable → MemTable → Prop
  | refl (t : MemTable) : Edits links t t
  | resolve {t t' : MemTable} (n : Nat) : Edits links t t' → Edits links t (t'.resolve links n)
  | edit {t t' : MemTable} {n : Nat} (slots : Option (List Slot)) {stored : Nat} :
      n < t'.buckets.length → (slots = none → stored = PRef.invalid) →
      Edits links t t' → Edits links t (t'.edit n ⟨stored, slots⟩)
  | grown {t t' : MemTable} : t'.step < 2 ^ 31 → Edits links t t' → Edits links t t'.grown
  | forgotten {t t' : MemTable} (k : Nat) : Edits links t t' →
      Edits links t { t' with forgotten := k }

/-- The memtable can answer: its files are readable and its parameters fit the buckets. -/
structure Ready (t : MemTable) (links data : Bytes) : Prop where
  link : t.linkFile.appender.Holds links
  data : t.dataFile.appender.Holds data
  table : t.tableFile.Wf
  stored : ∀ bucket ∈ t.buckets, bucket.slots = none →
    (storedSlots links bucket.stored).isSome
  used : t.dirty.used = t.buckets.length
  bits : t.buckets.length < t.dirty.bits.length
  count : t.buckets.length = 2 ^ (t.logMod + 1) + (t.logMod - initLogmod) + t.step
  level : initLogmod ≤ t.logMod ∧ t.logMod ≤ 30
  step : t.step ≤ 2 ^ (t.logMod + 1)

variable {t t' t'' : MemTable} {links data : Bytes} {n m : Nat}

theorem Edits.trans (h : Edits links t t') (h' : Edits links t' t'') : Edits links t t'' := by
  induction h' with
  | refl => exact h
  | resolve n _ ih => exact .resolve n ih
  | edit slots hn hslots _ ih => exact .edit slots hn hslots ih
  | grown hstep _ ih => exact .grown hstep ih
  | forgotten k _ ih => exact .forgotten k ih

/-! ### What an edit leaves -/

theorem slotsOf_resolve : (t.resolve links n).slotsOf links = t.slotsOf links := by
  funext m
  unfold slotsOf resolve
  rw [List.getElem?_modify]
  cases t.buckets[m]? with
  | none => rfl
  | some bucket =>
    split_ifs
    · simp
    · simp

/-- **An edit** changes the slots of one bucket. -/
theorem slotsOf_edit (hn : n < t.buckets.length) (bucket : Bucket) :
    (t.edit n bucket).slotsOf links =
      Function.update (t.slotsOf links) n (bucket.slotsIn links) := by
  funext m
  unfold slotsOf edit
  by_cases hm : m = n
  · subst hm
    simp [hn]
  · have hne : ¬ n = m := fun h => hm h.symm
    simp [hm, hne]

/-- Growth alone changes no slots. -/
theorem slotsOf_grown : t.grown.slotsOf links = t.slotsOf links := by
  funext m
  unfold slotsOf grown
  rw [List.getElem?_append]
  split_ifs with hm
  · rfl
  · rw [List.getElem?_eq_none (Nat.not_lt.mp hm)]
    cases hbucket : [Bucket.default][m - t.buckets.length]? with
    | none => rfl
    | some bucket =>
      have hdefault := List.mem_singleton.mp (List.mem_of_getElem? hbucket)
      simp [hdefault]

theorem nextStep_step (t : MemTable) : (nextStep t).logMod =
      (if 2 ^ (t.logMod + 1) < t.step + 1 then t.logMod + 1 else t.logMod) ∧
    (nextStep t).step = if 2 ^ (t.logMod + 1) < t.step + 1 then 0 else t.step + 1 := by
  unfold nextStep
  split_ifs
  · exact ⟨rfl, rfl⟩
  · exact ⟨rfl, rfl⟩

theorem Ready.resolve (h : Ready t links data) (n : Nat) :
    Ready (t.resolve links n) links data := by
  have hlength : (t.resolve links n).buckets.length = t.buckets.length :=
    List.length_modify _ _ _
  refine ⟨h.link, h.data, h.table, ?_, h.used.trans hlength.symm, ?_, ?_, h.level, h.step⟩
  · intro bucket hbucket hnone
    obtain ⟨m, hm⟩ := List.mem_iff_getElem?.mp hbucket
    unfold MemTable.resolve at hm
    rw [List.getElem?_modify] at hm
    obtain ⟨before, hbefore, heq⟩ := Option.map_eq_some_iff.mp hm
    have hmem := List.mem_of_getElem? hbefore
    split_ifs at heq
    · subst heq
      rw [Bucket.stored_resolve]
      apply h.stored before hmem
      unfold Bucket.resolve at hnone
      split_ifs at hnone
      exact hnone
    · subst heq
      exact h.stored _ hmem hnone
  · rw [hlength]
    exact h.bits
  · rw [hlength]
    exact h.count

theorem Ready.edit (h : Ready t links data) {stored : Nat} {slots : Option (List Slot)}
    (hslots : slots = none → stored = PRef.invalid) :
    Ready (t.edit n ⟨stored, slots⟩) links data := by
  have hlength : (t.edit n ⟨stored, slots⟩).buckets.length = t.buckets.length :=
    List.length_set
  have hbits : (t.edit n ⟨stored, slots⟩).dirty.bits.length = t.dirty.bits.length :=
    List.length_set
  refine ⟨h.link, h.data, h.table, ?_, h.used.trans hlength.symm, ?_, ?_, h.level, h.step⟩
  · intro bucket hbucket hnone
    rcases List.mem_or_eq_of_mem_set hbucket with hmem | rfl
    · exact h.stored bucket hmem hnone
    · rw [hslots hnone]
      rfl
  · rw [hlength, hbits]
    exact h.bits
  · rw [hlength]
    exact h.count

/-- **Growth** keeps the count of the buckets and the level in step. -/
theorem Ready.grown (h : Ready t links data) (hstep : t.step < 2 ^ 31) :
    Ready t.grown links data := by
  obtain ⟨hlogMod, hnext⟩ := nextStep_step t
  have hlength : t.grown.buckets.length = t.buckets.length + 1 := List.length_append
  have hused := h.used
  have hbits := h.bits
  have hcount := h.count
  have hle := h.step
  obtain ⟨hlow, hhigh⟩ := h.level
  have hgrown : t.grown.logMod = (nextStep t).logMod ∧ t.grown.step = (nextStep t).step :=
    ⟨rfl, rfl⟩
  -- the level after the last step of a level has twice the buckets
  have hlevel : t.logMod = 30 → 2 ^ (t.logMod + 1) = 2 ^ 31 := fun h => by rw [h]
  have hpow : 2 ^ (t.logMod + 1 + 1) = 2 * 2 ^ (t.logMod + 1) := Nat.pow_succ'
  refine ⟨h.link, h.data, h.table, ?_, ?_, ?_, ?_, ?_, ?_⟩
  · intro bucket hbucket hnone
    rcases List.mem_append.mp hbucket with hmem | hnew
    · exact h.stored bucket hmem hnone
    · rw [List.mem_singleton.mp hnew]
      rfl
  · show t.dirty.used + 1 = _
    rw [hlength, hused]
  · rw [hlength]
    unfold MemTable.grown
    split_ifs with hfull
    · simp only [List.length_append, List.length_cons, List.length_replicate]
      omega
    · simp only [List.length_set]
      omega
  · rw [hlength, hgrown.1, hgrown.2, hlogMod, hnext]
    split_ifs with hlast
    · rw [hpow]
      omega
    · omega
  · rw [hgrown.1, hlogMod]
    split_ifs with hlast
    · have hmax : t.logMod ≠ 30 := fun heq => by
        have htop := hlevel heq
        omega
      omega
    · exact ⟨hlow, hhigh⟩
  · rw [hgrown.1, hgrown.2, hlogMod, hnext]
    split_ifs with hlast
    · exact Nat.zero_le _
    · omega

/-- **Edits** leave the memtable ready. -/
theorem Ready.edits (h : Ready t links data) (hedits : Edits links t t') :
    Ready t' links data := by
  induction hedits with
  | refl => exact h
  | resolve n _ ih => exact ih.resolve n
  | edit slots _ hslots _ ih => exact ih.edit hslots
  | grown hstep _ ih => exact ih.grown hstep
  | forgotten k _ ih =>
    exact ⟨ih.link, ih.data, ih.table, ih.stored, ih.used, ih.bits, ih.count, ih.level, ih.step⟩

/-! ### Edits as runs -/

theorem dvd_pageOfBucket (n : Nat) : pageSize ∣ pageOfBucket n := by
  unfold pageOfBucket
  split_ifs
  · exact dvd_zero _
  · exact Nat.dvd_mul_left _ _

/-- A page is logged if it can be read, and in a table file it can. -/
theorem run_logPage {source : TableFile} (h : source.Wf) {pref : Nat} (hpref : pageSize ∣ pref)
    (l : LogFile) : ((LogFile.logPage pref source).run l).2 = .ok () := by
  have hread : ∃ page?, source.readPage pref = .ok page? := by
    by_cases hin : pref + pageSize ≤ source.file.content.length
    · obtain ⟨page, hpage, _⟩ := h.readPage hpref hin
      exact ⟨_, hpage⟩
    · have hout : source.file.content.length ≤ pref := by
        by_contra hlt
        exact hin (lt_of_dvd hpref h.paged.aligned (Nat.not_le.mp hlt))
      exact ⟨_, TableFile.Wf.readPage_of_le hout⟩
  obtain ⟨page?, hpage⟩ := hread
  unfold LogFile.logPage
  rw [Method.run_bind, Method.run_get]
  by_cases hlog : pref < l.sourceLen ∧ pref ∉ l.logged
  · simp only [if_pos hlog, Method.run_bind, Method.run_modify, Method.run_lift, hpage]
    cases page? <;> rfl
  · simp only [if_neg hlog]
    rfl

/-- A bucket is marked as dirty and its page is logged. -/
theorem run_modifyBucket (h : Ready t links data) (hn : n < t.buckets.length) :
    (modifyBucket n).run t = ({ t with
      dirty := { t.dirty with bits := t.dirty.bits.set n true }
      logFile := ((LogFile.logPage (pageOfBucket n) t.tableFile).run t.logFile).1 }, .ok ()) := by
  have hset : t.dirty.set n = .ok { t.dirty with bits := t.dirty.bits.set n true } :=
    if_pos (Nat.lt_trans hn h.bits)
  have hlog := run_logPage h.table (dvd_pageOfBucket n) t.logFile
  unfold modifyBucket
  simp only [Method.run_bind, Method.run_get, Method.run_lift, hset, Method.run_modify, onLog,
    Method.run_on, hlog]

/-- The bucket is written, and then marked. -/
theorem run_edit (h : Ready t links data) (hn : n < t.buckets.length) {stored : Nat}
    {slots : Option (List Slot)} (hslots : slots = none → stored = PRef.invalid) :
    (modifyBucket n).run (setBucket n ⟨stored, slots⟩ t) = (t.edit n ⟨stored, slots⟩, .ok ()) := by
  have hready : Ready (setBucket n ⟨stored, slots⟩ t) links data := by
    have hedit := h.edit (n := n) hslots
    have hlength : (setBucket n ⟨stored, slots⟩ t).buckets.length = t.buckets.length :=
      List.length_set
    exact ⟨hedit.link, hedit.data, hedit.table, hedit.stored, hedit.used,
      hlength.symm ▸ h.bits, hedit.count, hedit.level, hedit.step⟩
  have hlength : (setBucket n ⟨stored, slots⟩ t).buckets.length = t.buckets.length :=
    List.length_set
  rw [run_modifyBucket hready (hlength.symm ▸ hn)]
  rfl

theorem getElem?_resolve : (t.resolve links n).buckets[n]? =
    (t.buckets[n]?).map (Bucket.resolve links) :=
  List.getElem?_modify_eq _ _ _

/-- **Reading a bucket** into memory. -/
theorem run_resolveBucket (h : Ready t links data) (n : Nat) :
    (resolveBucket n).run t = (t.resolve links n, .ok ()) := by
  have hsame (heq : (t.buckets[n]?).map (Bucket.resolve links) = t.buckets[n]?) :
      t.resolve links n = t := by
    have hbuckets : t.buckets.modify n (Bucket.resolve links) = t.buckets := by
      apply List.ext_getElem?
      intro m
      rw [List.getElem?_modify]
      by_cases hm : n = m
      · subst hm
        simpa using heq
      · simp [hm]
    unfold MemTable.resolve
    rw [hbuckets]
  unfold resolveBucket
  rw [Method.run_bind, Method.run_get]
  rcases hbucket : t.buckets[n]? with _ | ⟨stored, _ | slots⟩
  · rw [hsame (by simp [hbucket])]
    simp [hbucket]
  · by_cases hvalid : PRef.IsValid stored
    · have hmem := h.stored _ (List.mem_of_getElem? hbucket) rfl
      unfold storedSlots at hmem
      simp only [if_pos hvalid] at hmem
      -- the bucket is behind a record of links, as its link can be followed
      obtain ⟨bytes, hpayload⟩ : ∃ bytes, payloadAt links stored = some (.link bytes) := by
        cases hp : payloadAt links stored with
        | none => simp [hp] at hmem
        | some p => cases p <;> simp [hp] at hmem ⊢
      obtain ⟨payload, hrecord, hread⟩ := payloadAt_eq_some.mp hpayload
      have henvelope := DataFile.getEnvelope_of_recordAt h.link hrecord
      have hslots : Bucket.slotsIn links ⟨stored, none⟩ = Link.slots bytes := by
        simp [Bucket.slotsIn, storedSlots, hvalid, hpayload]
      simp only [hbucket, if_pos hvalid, Method.run_bind, Method.run_lift, henvelope, hread,
        Method.run_modify]
      unfold MemTable.resolve setBucket
      have hbuckets : t.buckets.set n ⟨stored, some (Link.slots bytes)⟩ =
          t.buckets.modify n (Bucket.resolve links) := by
        apply List.ext_getElem?
        intro m
        rw [List.getElem?_modify]
        by_cases hm : n = m
        · subst hm
          obtain ⟨hlt, hget⟩ := List.getElem?_eq_some_iff.mp hbucket
          simp [hlt, hget, Bucket.resolve, hvalid, hslots]
        · simp [hm]
      rw [hbuckets]
    · rw [hsame (by simp [hbucket, Bucket.resolve, hvalid])]
      simp [hbucket, hvalid]
  · rw [hsame (by simp [hbucket, Bucket.resolve])]
    simp [hbucket]

end MemTable

end Cashbox.Hammersbald
