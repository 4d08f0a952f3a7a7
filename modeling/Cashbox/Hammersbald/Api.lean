import Cashbox.Hammersbald.Flush

/-!
# The store

The calls of the store. Data is stored with a key or without one, and is read by its key or by the
pref that was returned for it. Whatever calls were made, and wherever batches ended, a key is
found with what was put last, and every pref leads to its data.
-/

namespace Cashbox.Hammersbald

open Cashbox.Lib LinearHash

/-! ## The calls -/

set_option linter.dupNamespace false

/-- Hammersbald -/
structure Hammersbald where
  mem : MemTable

namespace Hammersbald

def onMem {α : Type} (m : Method MemTable Error α) : Method Hammersbald Error α :=
  m.on Hammersbald.mem fun db mem => { db with mem := mem }

section Calls

variable (siphash : UInt64 → UInt64 → Bytes → UInt64)
  (order : List (Nat × List Slot) → List (Nat × List Slot))

/-- What `new` does with its memtable. -/
def opening : Method Hammersbald Error Unit := do
  onMem MemTable.recover
  onMem MemTable.load
  onMem MemTable.batch

/-- The db over a memtable, when it was opened. -/
def opened (mem : MemTable) : Outcome Error Hammersbald := do
  (opening.run ⟨mem⟩).2
  return (opening.run ⟨mem⟩).1

/-- Create a new db with key and data file. The keys of the hash function are random numbers. -/
def new (sip0 sip1 : UInt64) (log : LogFile) (table : TableFile) (data link : DataFile)
    (bucketFillTarget : Nat) : Outcome Error Hammersbald :=
  opened (MemTable.new sip0 sip1 log table data link bucketFillTarget)

def batch : Method Hammersbald Error Unit := onMem MemTable.batch

/-- Store data accessible with key. Lengths are checked in a build with debug assertions only. -/
def putKeyed (debugAssertions : Bool) (key data : Bytes) : Method Hammersbald Error Nat :=
  if debugAssertions ∧ (255 < key.length ∨ 2 ^ 23 ≤ data.length) then
    Method.lift (.err .keyTooLong)
  else do
    let dataOffset ← onMem (MemTable.onData (DataFile.appendData key data))
    onMem (MemTable.put siphash order key dataOffset)
    return dataOffset

/-- Retrieve data with key. -/
def getKeyed (key : Bytes) : Method Hammersbald Error (Option (Nat × Bytes)) :=
  onMem (MemTable.get siphash key)

/-- Store data. -/
def put (data : Bytes) : Method Hammersbald Error Nat :=
  onMem (MemTable.onData (DataFile.appendReferred data))

/-- Retrieve data using a persistent reference. -/
def get (db : Hammersbald) (pref : Nat) : Outcome Error (Bytes × Bytes) := do
  let envelope ← db.mem.dataFile.getEnvelope pref
  match ← Payload.deserialize envelope with
  | .referred data => return ([], data)
  | .indexed key data => return (key, data)
  | .link _ => .err (.corrupted "referred should point to data")

def mayHaveKey (key : Bytes) : Method Hammersbald Error Bool :=
  onMem (MemTable.mayHaveKey siphash key)

/-- Forget a key. Its data stays accessible through its pref. -/
def forget (key : Bytes) : Method Hammersbald Error Unit := onMem (MemTable.forget siphash key)

end Calls

/-! ## Runs -/

section Runs

variable {siphash : UInt64 → UInt64 → Bytes → UInt64}
  {order : List (Nat × List Slot) → List (Nat × List Slot)} {debugAssertions : Bool}
  {db : Hammersbald} {left : Option Nat} {links data key d : Bytes}
  {entries : Bytes → Option (Nat × Bytes)}

/-- The data file has a record as `get` returns it. -/
def Recorded (data : Bytes) (r : Nat × Bytes × Bytes) : Prop :=
  payloadAt data r.1 = some (.indexed r.2.1 r.2.2) ∨
    r.2.1 = [] ∧ payloadAt data r.1 = some (.referred r.2.2)

theorem Recorded.append {r : Nat × Bytes × Bytes} (h : Recorded data r) (more : Bytes) :
    Recorded (data ++ more) r :=
  h.imp (fun h => payloadAt_append h more) fun h => ⟨h.1, payloadAt_append h.2 more⟩

/-- **A record** is returned for its pref. -/
theorem Recorded.get {r : Nat × Bytes × Bytes} (h : Recorded data r)
    (hholds : db.mem.dataFile.appender.Holds data) : db.get r.1 = .ok r.2 := by
  have hread {p : Payload} (hp : payloadAt data r.1 = some p) : db.get r.1 =
      match p with
      | .referred data => .ok ([], data)
      | .indexed key data => .ok (key, data)
      | .link _ => .err (.corrupted "referred should point to data") := by
    obtain ⟨payload, hrecord, hpayload⟩ := payloadAt_eq_some.mp hp
    unfold Hammersbald.get
    rw [DataFile.getEnvelope_of_recordAt hholds hrecord, Outcome.ok_bind, hpayload,
      Outcome.ok_bind]
    cases p <;> rfl
  rcases h with h | ⟨hkey, h⟩
  · rw [hread h]
  · rw [hread h, ← hkey]

/-- The store has these records and entries. -/
structure Stores (siphash : UInt64 → UInt64 → Bytes → UInt64) (db : Hammersbald)
    (links data : Bytes) (records : List (Nat × Bytes × Bytes))
    (entries : Bytes → Option (Nat × Bytes)) : Prop where
  has : MemTable.Has siphash db.mem links data entries
  tracked : MemTable.Tracked db.mem links
  recorded : ∀ r ∈ records, Recorded data r
  known : ∀ key pref d, entries key = some (pref, d) → (pref, key, d) ∈ records

variable {records : List (Nat × Bytes × Bytes)}

/-- A bucket has not more slots than there are records. -/
theorem Stores.length_le (h : Stores siphash db links data records entries) :
    ∀ bucket ∈ db.mem.buckets, ∀ slots, bucket.slots = some slots →
      slots.length ≤ records.length := by
  intro bucket hbucket slots hslots
  obtain ⟨n, hn⟩ := List.mem_iff_getElem?.mp hbucket
  have hslotsOf : db.mem.slotsOf links n = slots := by
    unfold MemTable.slotsOf
    rw [hn]
    obtain ⟨stored, _⟩ := bucket
    cases hslots
    rfl
  have hkeeps := h.has.keeps
  -- slots of different keys have different prefs
  have hnodup : (slots.map Prod.snd).Nodup := by
    have hkeys := hkeeps.ok.keys n
    rw [hslotsOf] at hkeys
    refine List.pairwise_map.mpr (hkeys.imp fun {s s'} hne heq => hne ?_)
    unfold slotKey
    rw [heq]
  have hsubset : slots.map Prod.snd ⊆ records.map Prod.fst := by
    intro pref hpref
    obtain ⟨s, hs, rfl⟩ := List.mem_map.mp hpref
    obtain ⟨key, d, _, _, hentry⟩ := hkeeps.reads s ⟨n, hslotsOf ▸ hs⟩
    exact List.mem_map.mpr ⟨_, h.known key s.2 d hentry, rfl⟩
  have hle := (List.subperm_of_subset hnodup hsubset).length_le
  rwa [List.length_map, List.length_map] at hle

theorem Stores.small (h : Stores siphash db links data records entries)
    (hcount : records.length < 2 ^ 27) : db.mem.Small := fun bucket hbucket slots hslots =>
  (h.length_le bucket hbucket slots hslots).trans_lt hcount

/-- Few slots, which lead to records of the data file, fit a record of the link file. -/
theorem Stores.linkable (h : Stores siphash db links data records entries)
    (hcount : records.length ≤ 2 ^ 20) : ∀ bucket ∈ db.mem.buckets, ∀ slots,
      bucket.slots = some slots → Linkable slots := by
  intro bucket hbucket slots hslots
  refine ⟨(h.length_le bucket hbucket slots hslots).trans hcount, fun s hs => ?_⟩
  obtain ⟨n, hn⟩ := List.mem_iff_getElem?.mp hbucket
  have hmem : s ∈ db.mem.slotsOf links n := by
    unfold MemTable.slotsOf
    rw [hn]
    obtain ⟨stored, _⟩ := bucket
    cases hslots
    exact hs
  obtain ⟨_, _, hpayload, _⟩ := h.has.keeps.reads s ⟨n, hmem⟩
  obtain ⟨_, hrecord, _⟩ := payloadAt_eq_some.mp hpayload
  have hin := (recordAt_eq_some.mp hrecord).1
  have hvalid := h.has.ready.data.valid
  unfold PRef.IsValid
  omega

/-- A call of the memtable, as a call of the store. -/
theorem run_onMem {α : Type} {m : Method MemTable Error α} {t' : MemTable} {x : Outcome Error α}
    (h : m.run db.mem = (t', x)) : (onMem m).run db = (⟨t'⟩, x) := by
  unfold onMem
  rw [Method.run_on, h]

/-- Data is appended; the keys are as before. -/
theorem append_spec (h : MemTable.Has siphash db.mem links data entries)
    (htracked : MemTable.Tracked db.mem links) {p : Payload} (hfits : p.Fits) :
    (onMem (MemTable.onData (DataFile.appendPayload p))).wp
      (fun pref db' => ∃ payload, p.serialize = .ok payload ∧
        MemTable.Has siphash db'.mem links (data ++ envelopeBytes payload) entries ∧
        MemTable.Tracked db'.mem links ∧
        payloadAt (data ++ envelopeBytes payload) pref = some p) (fun _ => True) db := by
  have hspec : (DataFile.appendPayload p).wp _ (fun _ => True) db.mem.dataFile :=
    DataFile.appendPayload_spec (fun _ _ => trivial) h.ready.data hfits
  unfold onMem MemTable.onData
  rw [Method.wp_on, Method.wp_on]
  refine Method.wp_mono hspec ?_ fun _ _ => trivial
  rintro _ file ⟨rfl, ⟨payload, hpayload, hlt, hholds⟩, _⟩
  exact ⟨payload, hpayload, ⟨{ h.ready with data := hholds }, h.keeps.append _⟩, htracked,
    DataFile.payloadAt_of_serialize hfits hpayload hlt data⟩

/-- Short data is appended where there is room for it. -/
theorem append_ok (hholds : db.mem.dataFile.appender.Holds data) {p : Payload} {payload : Bytes}
    (hpayload : p.serialize = .ok payload) (hlt : payload.length < 2 ^ 24)
    (hroom : data.length + payload.length + 3 < PRef.invalid) :
    ∃ file, (onMem (MemTable.onData (DataFile.appendPayload p))).run db =
        (⟨{ db.mem with dataFile := file }⟩, .ok data.length) ∧
      file.appender.pos = data.length + payload.length + 3 ∧
      file.appender.file.file = db.mem.dataFile.appender.file.file := by
  obtain ⟨file, hrun, hholds'⟩ := DataFile.appendPayload_ok hholds hpayload hlt hroom
  have hfile := DataFile.keeps_appendPayload p db.mem.dataFile
  rw [hrun] at hfile
  refine ⟨file, ?_, ?_, hfile⟩
  · unfold onMem MemTable.onData
    rw [Method.run_on, Method.run_on, hrun]
  · rw [hholds'.pos, List.length_append, length_envelopeBytes, Nat.add_assoc]

/-- Lengths that were checked are not cut. -/
theorem fits_of_check (hfits : debugAssertions = true ∨ (Payload.indexed key d).Fits)
    (hcheck : ¬ (debugAssertions ∧ (255 < key.length ∨ 2 ^ 23 ≤ d.length))) :
    (Payload.indexed key d).Fits := by
  rcases hfits with hdebug | hfits
  · simp only [hdebug, true_and, not_or, Nat.not_lt, Nat.not_le] at hcheck
    exact ⟨by omega, by omega⟩
  · exact hfits

/-- **Storing data with a key** gives the key the entry. -/
theorem putKeyed_spec (horder : ∀ moves, (order moves).Perm moves)
    (hfits : debugAssertions = true ∨ (Payload.indexed key d).Fits)
    (h : Stores siphash db links data records entries) :
    (putKeyed siphash order debugAssertions key d).wp (fun pref db' => ∃ payload,
      (Payload.indexed key d).serialize = .ok payload ∧
        Stores siphash db' links (data ++ envelopeBytes payload) (records ++ [(pref, key, d)])
          (Function.update entries key (some (pref, d)))) (fun _ => True) db := by
  unfold putKeyed
  refine Method.wp_ite (fun _ => trivial) fun hcheck => ?_
  have hfits' := fits_of_check hfits hcheck
  refine Method.wp_seq (append_spec h.has h.tracked hfits') ?_
  rintro pref db' ⟨payload, hserialize, hhas, htracked, hpayload⟩
  obtain ⟨t', hrun, hedits, hput, _⟩ := MemTable.put_spec horder hhas hpayload
  rw [Method.wp_bind, Method.wp_of_ok (run_onMem hrun)]
  refine ⟨payload, hserialize, hput, hedits.tracked hhas.ready htracked, ?_, ?_⟩
  · intro r hr
    rcases List.mem_append.mp hr with hr | hr
    · exact (h.recorded r hr).append _
    · rw [List.mem_singleton.mp hr]
      exact .inl hpayload
  · intro k pref' d' hentry
    by_cases hk : k = key
    · subst hk
      rw [Function.update_self] at hentry
      cases hentry
      simp
    · rw [Function.update_of_ne hk] at hentry
      exact List.mem_append_left _ (h.known k pref' d' hentry)

/-- The call has not touched the files of the operating system, nor the links. -/
structure SameOs (db db' : Hammersbald) : Prop where
  log : db'.mem.logFile.file.file = db.mem.logFile.file.file
  table : db'.mem.tableFile = db.mem.tableFile
  link : db'.mem.linkFile = db.mem.linkFile
  data : db'.mem.dataFile.appender.file.file = db.mem.dataFile.appender.file.file

theorem SameOs.trans {db' db'' : Hammersbald} (h : SameOs db db') (h' : SameOs db' db'') :
    SameOs db db'' :=
  ⟨h'.log.trans h.log, h'.table.trans h.table, h'.link.trans h.link, h'.data.trans h.data⟩

/-- Data with a key is stored where there is room for it. -/
theorem putKeyed_ok (horder : ∀ moves, (order moves).Perm moves)
    (h : Stores siphash db links data records entries) (debugAssertions : Bool)
    (hkey : key.length ≤ 255) (hd : d.length < 2 ^ 23)
    (hroom : data.length + key.length + d.length + 8 < PRef.invalid) :
    ∃ db', (putKeyed siphash order debugAssertions key d).run db = (db', .ok data.length) ∧
      db'.mem.dataFile.appender.pos = data.length + key.length + d.length + 8 ∧
      SameOs db db' ∧ (db.mem.Due (db.mem.hash siphash key) → db.mem.NextLevel db'.mem) := by
  have hcheck : ¬ (debugAssertions ∧ (255 < key.length ∨ 2 ^ 23 ≤ d.length)) := by omega
  have hfits : (Payload.indexed key d).Fits := ⟨by omega, by omega⟩
  obtain ⟨payload, hpayload, hlength⟩ :=
    Payload.exists_serialize_indexed key (show d.length < 2 ^ 24 by omega)
  obtain ⟨file, hrun₁, hpos, hfile⟩ :=
    append_ok h.has.ready.data hpayload (by omega) (by omega)
  obtain ⟨_, _, hhas, _, hstored⟩ := (append_spec h.has h.tracked hfits).of_run hrun₁
  obtain ⟨t', hrun₂, hedits, _, hnext⟩ := MemTable.put_spec horder hhas hstored
  have hsame := hedits.sameFiles
  refine ⟨⟨t'⟩, ?_, ?_, ⟨hsame.log, hsame.tableFile, hsame.linkFile, ?_⟩, fun hdue => ?_⟩
  · unfold putKeyed
    rw [if_neg hcheck]
    exact (Method.run_bind_of_ok hrun₁).trans (Method.run_bind_of_ok (run_onMem hrun₂))
  · have hpos' := (congrArg (fun d => d.appender.pos) hsame.dataFile).trans hpos
    rw [hlength] at hpos'
    exact hpos'.trans (by omega)
  · exact (congrArg (fun d => d.appender.file.file) hsame.dataFile).trans hfile
  · obtain ⟨hlogMod, hstep, hforgotten, htarget⟩ := hnext hdue
    have hnextStep := MemTable.nextStep_step db.mem
    have hnextStep' := MemTable.nextStep_step { db.mem with dataFile := file }
    exact ⟨by rw [hlogMod, hnextStep'.1, hnextStep.1], by rw [hstep, hnextStep'.2, hnextStep.2],
      hforgotten, htarget⟩

/-- **Storing data** without a key changes no entry. -/
theorem put_spec (hfits : (Payload.referred d).Fits)
    (h : Stores siphash db links data records entries) :
    (put d).wp (fun pref db' => ∃ more,
      Stores siphash db' links (data ++ more) (records ++ [(pref, [], d)]) entries)
      (fun _ => True) db := by
  refine Method.wp_mono (append_spec h.has h.tracked hfits) ?_ fun _ _ => trivial
  rintro pref db' ⟨payload, _, hhas, htracked, hpayload⟩
  refine ⟨_, hhas, htracked, ?_, fun key pref' d' hentry =>
    List.mem_append_left _ (h.known key pref' d' hentry)⟩
  intro r hr
  rcases List.mem_append.mp hr with hr | hr
  · exact (h.recorded r hr).append _
  · rw [List.mem_singleton.mp hr]
    exact .inr ⟨rfl, hpayload⟩

/-- A call that returned changes neither the records nor the entries. -/
theorem Stores.of_has {db' : Hammersbald} {links' : Bytes}
    (h : Stores siphash db links data records entries) (more : Bytes)
    (hhas : MemTable.Has siphash db'.mem links' (data ++ more) entries)
    (htracked : MemTable.Tracked db'.mem links') :
    Stores siphash db' links' (data ++ more) records entries :=
  ⟨hhas, htracked, fun r hr => (h.recorded r hr).append more, h.known⟩

/-- **A batch** changes no entry, and writes all of them to the files. -/
theorem batch_spec (h : Stores siphash db links data records entries)
    (hcount : records.length < 2 ^ 27) :
    batch.wp (fun _ db' => ∃ links',
        MemTable.Has siphash db'.mem links' (data ++ DataFile.padRecord data.length) entries ∧
        db'.mem.Written links' (data ++ DataFile.padRecord data.length) ∧
        DataFile.flush.run db.mem.dataFile = (db'.mem.dataFile, .ok ()) ∧
        (db.mem.Writable db.mem.buckets.length →
          db'.mem.linkFile.appender.file.file.left = none ∧
            db'.mem.dataFile.appender.file.file.left = none))
      (fun _ => ¬ db.mem.Writable db.mem.buckets.length) db := by
  unfold batch onMem
  rw [Method.wp_on]
  exact MemTable.batch_spec h.has (h.small hcount) h.tracked

/-- The background writes the queue of the data file or of the link file. -/
def background (file : Method DataFile Error Unit → Method MemTable Error Unit) :
    Method Hammersbald Error Unit :=
  onMem (file (DataFile.onAppender (PagedFileAppender.onFile AsyncFile.background)))

/-- What the store has does not depend on the background. -/
theorem backgroundData_spec (h : Stores siphash db links data records entries) :
    (background MemTable.onData).wp (fun _ db' => Stores siphash db' links data records entries ∧
        (db.mem.dataFile.appender.file.file.left = none →
          db'.mem.dataFile.appender.file.file.left = none))
      (fun _ => db.mem.dataFile.appender.file.file.left ≠ none) db := by
  unfold background onMem MemTable.onData
  rw [Method.wp_on, Method.wp_on]
  refine Method.wp_mono (DataFile.background_spec (fun hsome _ => hsome) h.has.ready.data) ?_
    fun _ h => h
  rintro _ file ⟨hholds, hleft⟩
  exact ⟨⟨⟨{ h.has.ready with data := hholds }, h.has.keeps⟩, h.tracked, h.recorded, h.known⟩,
    hleft⟩

theorem backgroundLink_spec (h : Stores siphash db links data records entries) :
    (background MemTable.onLink).wp (fun _ db' => Stores siphash db' links data records entries ∧
        (db.mem.linkFile.appender.file.file.left = none →
          db'.mem.linkFile.appender.file.file.left = none))
      (fun _ => db.mem.linkFile.appender.file.file.left ≠ none) db := by
  unfold background onMem MemTable.onLink
  rw [Method.wp_on, Method.wp_on]
  refine Method.wp_mono (DataFile.background_spec (fun hsome _ => hsome) h.has.ready.link) ?_
    fun _ h => h
  rintro _ file ⟨hholds, hleft⟩
  exact ⟨⟨⟨{ h.has.ready with link := hholds }, h.has.keeps⟩, h.tracked, h.recorded, h.known⟩,
    hleft⟩

/-- The store over new files: what `new` begins with. -/
def fresh (sip0 sip1 : UInt64) (log table : Option Nat) (data link : DataFile)
    (bucketFillTarget : Nat) : Hammersbald :=
  ⟨MemTable.new sip0 sip1 (LogFile.new (AsyncFile.new ⟨[], log⟩)) (TableFile.new ⟨[], table⟩) data
    link bucketFillTarget⟩

theorem wf_new (left : Option Nat) : (TableFile.new ⟨[], left⟩).Wf := by
  refine ⟨⟨dvd_zero _, fun p _ hin => ?_⟩, rfl⟩
  have hpos := pageSize_pos
  have hnil : p + pageSize ≤ 0 := hin
  omega

/-- **A new store** has no entries. -/
theorem fresh_stores (siphash : UInt64 → UInt64 → Bytes → UInt64) (sip0 sip1 : UInt64)
    (log table : Option Nat) {dataLeft linkLeft : Option Nat} {data link : DataFile}
    (hdata : DataFile.new (AsyncFile.new ⟨[], dataLeft⟩) = .ok data)
    (hlink : DataFile.new (AsyncFile.new ⟨[], linkLeft⟩) = .ok link) (bucketFillTarget : Nat) :
    Stores siphash (fresh sip0 sip1 log table data link bucketFillTarget) [] [] []
      fun _ => none := by
  have hholds {left : Option Nat} {file : DataFile}
      (h : DataFile.new (AsyncFile.new ⟨[], left⟩) = .ok file) : file.appender.Holds [] := by
    obtain ⟨file', hfile, hholds, _⟩ := @DataFile.new_spec (AsyncFile.new ⟨[], left⟩) rfl
      (dvd_zero _) (show 0 < PRef.invalid by decide)
    rw [h] at hfile
    cases hfile
    exact hholds
  -- all buckets are empty
  have hslots : (fresh sip0 sip1 log table data link bucketFillTarget).mem.slotsOf [] =
      fun _ => [] := by
    funext n
    show ((List.replicate initBuckets Bucket.default)[n]?.map _).getD [] = []
    rw [List.getElem?_replicate]
    split_ifs
    · exact @Bucket.slotsIn_default []
    · rfl
  have htracked :
      (fresh sip0 sip1 log table data link bucketFillTarget).mem.Tracked [] := by
    intro n bucket hbucket hne
    have hdefault : bucket = Bucket.default :=
      List.eq_of_mem_replicate (List.mem_of_getElem? hbucket)
    rw [hdefault] at hne
    exact absurd Bucket.slotsIn_default hne
  have hlevel : initLogmod ≤ initLogmod ∧ initLogmod ≤ 30 := ⟨le_refl _, by decide⟩
  refine ⟨⟨⟨hholds hlink, hholds hdata, wf_new table, ?_, ?_, ?_, ?_, hlevel, Nat.zero_le _⟩, ?_⟩,
    htracked, by simp, by simp⟩
  · intro bucket hbucket _
    rw [List.eq_of_mem_replicate hbucket]
    rfl
  · exact List.length_replicate.symm
  · show (List.replicate _ _).length < (List.replicate _ _).length
    rw [List.length_replicate, List.length_replicate]
    decide
  · exact List.length_replicate
  · rw [hslots]
    exact Keeps.empty

/-- Over an empty table file there is nothing to load. -/
theorem run_load_of_nil {t : MemTable} (hwf : t.tableFile.Wf)
    (hnil : t.tableFile.file.content = []) : MemTable.load.run t = (t, .ok ()) := by
  have hread : t.tableFile.readPage 0 = .ok none :=
    TableFile.Wf.readPage_of_le (by rw [hnil]; exact le_refl 0)
  have hlinks : MemTable.loadLinks t.tableFile t.buckets 0 = t.buckets := by
    cases t.buckets with
    | nil => rfl
    | cons bucket buckets =>
      have hpos := pageSize_pos
      unfold MemTable.loadLinks
      rw [hwf.link, hnil, if_neg (by rw [List.length_nil]; omega)]
  unfold MemTable.load
  simp only [Method.run_bind, Method.run_get, Method.run_lift, hread, Method.run_modify, hlinks]

/-- Without a log and a table there is nothing to recover and nothing to load. -/
theorem run_opening_of_nil (hwf : db.mem.tableFile.Wf)
    (htable : db.mem.tableFile.file.content = [])
    (hlog : db.mem.logFile.file = AsyncFile.new ⟨[], left⟩) :
    opening.run db = batch.run db := by
  have hread : db.mem.logFile.file.readPage 0 = .ok none := by
    rw [hlog]
    rfl
  have hshort : ¬ pageSize < db.mem.logFile.file.len := by
    rw [hlog]
    exact Nat.not_lt_zero _
  have hrecover : MemTable.recover.run db.mem = (db.mem, .ok ()) := by
    unfold MemTable.recover MemTable.restorePages
    simp only [Method.run_bind, Method.run_get, Method.run_lift, hread, if_neg hshort]
    rfl
  have hload := run_load_of_nil hwf htable
  unfold opening
  rw [Method.run_bind_of_ok (run_onMem hrecover), Method.run_bind_of_ok (run_onMem hload)]
  rfl

theorem opened_eq_ok {mem : MemTable} :
    opened mem = .ok db ↔ opening.run ⟨mem⟩ = (db, .ok ()) := by
  unfold opened
  rw [Outcome.bind_eq_ok]
  constructor
  · rintro ⟨_, hopened, hdb⟩
    exact Prod.ext (Outcome.ok.inj hdb) hopened
  · intro h
    rw [h]
    exact ⟨(), rfl, rfl⟩

/-- The store after some calls that returned: what was stored and where, and what the keys have.
Each call to `put_keyed` meets an order of its own of the hash map. -/
inductive Run (siphash : UInt64 → UInt64 → Bytes → UInt64) (debugAssertions : Bool) :
    List (Nat × Bytes × Bytes) → (Bytes → Option (Nat × Bytes)) → Hammersbald → Prop
  | fresh (sip0 sip1 : UInt64) (log table : Option Nat) {dataLeft linkLeft : Option Nat}
      {data link : DataFile} (bucketFillTarget : Nat) :
      DataFile.new (AsyncFile.new ⟨[], dataLeft⟩) = .ok data →
      DataFile.new (AsyncFile.new ⟨[], linkLeft⟩) = .ok link →
      Run siphash debugAssertions [] (fun _ => none)
        (fresh sip0 sip1 log table data link bucketFillTarget)
  | putKeyed {records : List (Nat × Bytes × Bytes)}
      {entries : Bytes → Option (Nat × Bytes)} {db db' : Hammersbald} {key d : Bytes} {pref : Nat}
      {order : List (Nat × List Slot) → List (Nat × List Slot)} :
      Run siphash debugAssertions records entries db → (∀ moves, (order moves).Perm moves) →
      debugAssertions = true ∨ (Payload.indexed key d).Fits →
      (putKeyed siphash order debugAssertions key d).run db = (db', .ok pref) →
      Run siphash debugAssertions (records ++ [(pref, key, d)])
        (Function.update entries key (some (pref, d))) db'
  | put {records : List (Nat × Bytes × Bytes)}
      {entries : Bytes → Option (Nat × Bytes)} {db db' : Hammersbald} {d : Bytes} {pref : Nat} :
      Run siphash debugAssertions records entries db → (Payload.referred d).Fits →
      (put d).run db = (db', .ok pref) →
      Run siphash debugAssertions (records ++ [(pref, [], d)]) entries db'
  | forget {records : List (Nat × Bytes × Bytes)}
      {entries : Bytes → Option (Nat × Bytes)} {db db' : Hammersbald} {key : Bytes} :
      Run siphash debugAssertions records entries db →
      (forget siphash key).run db = (db', .ok ()) →
      Run siphash debugAssertions records (Function.update entries key none) db'
  | getKeyed {records : List (Nat × Bytes × Bytes)}
      {entries : Bytes → Option (Nat × Bytes)} {db db' : Hammersbald} {key : Bytes}
      {found : Option (Nat × Bytes)} : Run siphash debugAssertions records entries db →
      (getKeyed siphash key).run db = (db', .ok found) →
      Run siphash debugAssertions records entries db'
  | mayHaveKey {records : List (Nat × Bytes × Bytes)}
      {entries : Bytes → Option (Nat × Bytes)} {db db' : Hammersbald} {key : Bytes} {found : Bool} :
      Run siphash debugAssertions records entries db →
      (mayHaveKey siphash key).run db = (db', .ok found) →
      Run siphash debugAssertions records entries db'
  | batch {records : List (Nat × Bytes × Bytes)}
      {entries : Bytes → Option (Nat × Bytes)} {db db' : Hammersbald} :
      Run siphash debugAssertions records entries db → batch.run db = (db', .ok ()) →
      Run siphash debugAssertions records entries db'
  | backgroundData {records : List (Nat × Bytes × Bytes)}
      {entries : Bytes → Option (Nat × Bytes)} {db db' : Hammersbald} :
      Run siphash debugAssertions records entries db →
      (background MemTable.onData).run db = (db', .ok ()) →
      Run siphash debugAssertions records entries db'
  | backgroundLink {records : List (Nat × Bytes × Bytes)}
      {entries : Bytes → Option (Nat × Bytes)} {db db' : Hammersbald} :
      Run siphash debugAssertions records entries db →
      (background MemTable.onLink).run db = (db', .ok ()) →
      Run siphash debugAssertions records entries db'

/-- A store that was opened over new files is one after a batch. -/
theorem Run.new {sip0 sip1 : UInt64} {log table dataLeft linkLeft : Option Nat}
    {data link : DataFile} {bucketFillTarget : Nat}
    (hdata : DataFile.new (AsyncFile.new ⟨[], dataLeft⟩) = .ok data)
    (hlink : DataFile.new (AsyncFile.new ⟨[], linkLeft⟩) = .ok link)
    (h : Hammersbald.new sip0 sip1 (LogFile.new (AsyncFile.new ⟨[], log⟩))
      (TableFile.new ⟨[], table⟩) data link bucketFillTarget = .ok db) :
    Run siphash debugAssertions [] (fun _ => none) db := by
  have hfresh : Run siphash debugAssertions [] (fun _ => none)
      (Hammersbald.fresh sip0 sip1 log table data link bucketFillTarget) :=
    .fresh sip0 sip1 log table bucketFillTarget hdata hlink
  have hrun := @run_opening_of_nil
    (Hammersbald.fresh sip0 sip1 log table data link bucketFillTarget) log (wf_new table) rfl rfl
  have hopened := opened_eq_ok.mp h
  unfold Hammersbald.fresh at hfresh hrun
  exact .batch hfresh (hrun.symm.trans hopened)

/-- **Every run** of less than 2 ^ 27 records keeps what was stored. -/
theorem Run.stores (h : Run siphash debugAssertions records entries db)
    (hcount : records.length < 2 ^ 27) :
    ∃ links data, Stores siphash db links data records entries := by
  induction h with
  | fresh sip0 sip1 log table target hdata hlink =>
    exact ⟨[], [], fresh_stores siphash sip0 sip1 log table hdata hlink target⟩
  | putKeyed _ horder hfits hrun ih =>
    rw [List.length_append] at hcount
    obtain ⟨links, data, hstores⟩ := ih (by omega)
    obtain ⟨payload, _, hstores'⟩ := (putKeyed_spec horder hfits hstores).of_run hrun
    exact ⟨links, _, hstores'⟩
  | put _ hfits hrun ih =>
    rw [List.length_append] at hcount
    obtain ⟨links, data, hstores⟩ := ih (by omega)
    obtain ⟨more, hstores'⟩ := (put_spec hfits hstores).of_run hrun
    exact ⟨links, _, hstores'⟩
  | @forget records entries db db' key _ hrun ih =>
    obtain ⟨links, data, hstores⟩ := ih hcount
    obtain ⟨t', hrun', hedits, hhas⟩ := MemTable.forget_spec hstores.has key
    obtain rfl : (⟨t'⟩ : Hammersbald) = db' :=
      congrArg Prod.fst ((run_onMem hrun').symm.trans hrun)
    refine ⟨links, data, hhas, hedits.tracked hstores.has.ready hstores.tracked, hstores.recorded,
      fun k pref d hentry => ?_⟩
    -- a forgotten key has no entry that could name a record
    by_cases hk : k = key
    · subst hk
      rw [Function.update_self] at hentry
      cases hentry
    · rw [Function.update_of_ne hk] at hentry
      exact hstores.known k pref d hentry
  | @getKeyed records entries db db' key found _ hrun ih =>
    obtain ⟨links, data, hstores⟩ := ih hcount
    obtain ⟨t', hrun', hedits, hhas⟩ := MemTable.get_spec hstores.has key
    obtain rfl : (⟨t'⟩ : Hammersbald) = db' :=
      congrArg Prod.fst ((run_onMem hrun').symm.trans hrun)
    exact ⟨links, data, hhas, hedits.tracked hstores.has.ready hstores.tracked, hstores.recorded,
      hstores.known⟩
  | @mayHaveKey records entries db db' key found _ hrun ih =>
    obtain ⟨links, data, hstores⟩ := ih hcount
    obtain ⟨t', found', hrun', hedits, hhas, _⟩ := MemTable.mayHaveKey_spec hstores.has key
    obtain rfl : (⟨t'⟩ : Hammersbald) = db' :=
      congrArg Prod.fst ((run_onMem hrun').symm.trans hrun)
    exact ⟨links, data, hhas, hedits.tracked hstores.has.ready hstores.tracked, hstores.recorded,
      hstores.known⟩
  | @batch records entries db db' _ hrun ih =>
    obtain ⟨links, data, hstores⟩ := ih hcount
    obtain ⟨links', hhas, hwritten, _⟩ := (batch_spec hstores hcount).of_run hrun
    exact ⟨links', _, hstores.of_has _ hhas hwritten.tracked⟩
  | @backgroundData records entries db db' _ hrun ih =>
    obtain ⟨links, data, hstores⟩ := ih hcount
    obtain ⟨hstores', _⟩ := (backgroundData_spec hstores).of_run hrun
    exact ⟨links, data, hstores'⟩
  | @backgroundLink records entries db db' _ hrun ih =>
    obtain ⟨links, data, hstores⟩ := ih hcount
    obtain ⟨hstores', _⟩ := (backgroundLink_spec hstores).of_run hrun
    exact ⟨links, data, hstores'⟩

/-- What the store answers, where it has these records and entries. -/
structure Answers (siphash : UInt64 → UInt64 → Bytes → UInt64) (debugAssertions : Bool)
    (records : List (Nat × Bytes × Bytes)) (entries : Bytes → Option (Nat × Bytes))
    (db : Hammersbald) : Prop where
  /-- Every pref that was returned leads to its data. -/
  refs : ∀ r ∈ records, db.get r.1 = .ok r.2
  /-- A key is found with what was put last, unless it was forgotten. -/
  found : ∀ key, ∃ db', (getKeyed siphash key).run db = (db', .ok (entries key))
  /-- A key of which the store says that it is not there has no entry. -/
  known : ∀ key, ∃ db' found, (mayHaveKey siphash key).run db = (db', .ok found) ∧
    ((entries key).isSome → found = true)
  forgets : ∀ key, ∃ db', (forget siphash key).run db = (db', .ok ())
  /-- Data is stored where there is room for it. -/
  puts : ∀ d : Bytes, d.length < 2 ^ 23 →
    db.mem.dataFile.appender.pos + d.length + 8 < PRef.invalid →
    ∃ db', (put d).run db = (db', .ok db.mem.dataFile.appender.pos)
  putsKeyed : ∀ (order : List (Nat × List Slot) → List (Nat × List Slot)) (key d : Bytes),
    (∀ moves, (order moves).Perm moves) → key.length ≤ 255 → d.length < 2 ^ 23 →
    db.mem.dataFile.appender.pos + key.length + d.length + 8 < PRef.invalid →
    ∃ db', (putKeyed siphash order debugAssertions key d).run db =
      (db', .ok db.mem.dataFile.appender.pos)

/-- **In every run** the store answers with what was stored, and stores what it has room for. -/
theorem Run.answers (h : Run siphash debugAssertions records entries db)
    (hcount : records.length < 2 ^ 27) : Answers siphash debugAssertions records entries db := by
  obtain ⟨links, data, hstores⟩ := h.stores hcount
  have hholds := hstores.has.ready.data
  refine ⟨fun r hr => (hstores.recorded r hr).get hholds, fun key => ?_, fun key => ?_,
    fun key => ?_, fun d hd hroom => ?_, fun order key d horder hkey hd hroom => ?_⟩
  · obtain ⟨t', hrun, _⟩ := MemTable.get_spec hstores.has key
    exact ⟨⟨t'⟩, run_onMem hrun⟩
  · obtain ⟨t', found, hrun, _, _, hfound⟩ := MemTable.mayHaveKey_spec hstores.has key
    exact ⟨⟨t'⟩, found, run_onMem hrun, hfound⟩
  · obtain ⟨t', hrun, _⟩ := MemTable.forget_spec hstores.has key
    exact ⟨⟨t'⟩, run_onMem hrun⟩
  · rw [hholds.pos] at hroom ⊢
    obtain ⟨payload, hpayload, hlength⟩ :=
      Payload.exists_serialize_referred (show d.length < 2 ^ 24 by omega)
    obtain ⟨_, hrun, _⟩ := @append_ok db data hholds _ _ hpayload (by omega) (by omega)
    exact ⟨_, hrun⟩
  · rw [hholds.pos] at hroom ⊢
    obtain ⟨db', hrun, _⟩ := putKeyed_ok horder hstores debugAssertions hkey hd hroom
    exact ⟨db', hrun⟩

/-! ### What a batch writes -/

/-- The files of the operating system have all records, and lead from every key to its entry. -/
structure Durable (siphash : UInt64 → UInt64 → Bytes → UInt64)
    (records : List (Nat × Bytes × Bytes))
    (entries : Bytes → Option (Nat × Bytes)) (db : Hammersbald) : Prop where
  head : Head db.mem.tableFile.file.content db.mem.buckets.length db.mem.step db.mem.sip0
    db.mem.sip1
  records : ∀ r ∈ records, Recorded db.mem.dataFile.appender.file.file.content r
  slots : ∀ key pref d, entries key = some (pref, d) → ∃ slots,
    storedSlots db.mem.linkFile.appender.file.file.content
      (linkAt db.mem.tableFile.file.content
        (db.mem.bucketForHash (db.mem.hash siphash key))) = some slots ∧
      (db.mem.hash siphash key, pref) ∈ slots

/-- **After a batch** the store does not need its memory: what was stored is found in the files. -/
theorem Run.durable (h : Run siphash debugAssertions records entries db)
    (hcount : records.length < 2 ^ 27) {db' : Hammersbald}
    (hrun : Hammersbald.batch.run db = (db', .ok ())) :
    Durable siphash records entries db' := by
  obtain ⟨links, data, hstores⟩ := h.stores hcount
  obtain ⟨links', hhas, hwritten, _⟩ := (batch_spec hstores hcount).of_run hrun
  refine ⟨hwritten.head, fun r hr => ?_, fun key pref d hentry => ?_⟩
  · rw [hwritten.data]
    exact (hstores.recorded r hr).append _
  · obtain ⟨hslot, _⟩ := hhas.keeps.exists_slot hentry
    have hlt := hhas.ready.address_lt (db'.mem.hash siphash key).toNat
    rw [← hhas.ready.bucketForHash] at hslot hlt
    have hbucket := List.getElem?_eq_getElem hlt
    have hslots : db'.mem.slotsOf links' (db'.mem.bucketForHash (db'.mem.hash siphash key)) =
        (db'.mem.buckets[db'.mem.bucketForHash (db'.mem.hash siphash key)]).slotsIn links' := by
      unfold MemTable.slotsOf
      rw [hbucket]
      rfl
    rw [hslots] at hslot
    have hsettled := hwritten.settled _ _ hbucket (List.ne_nil_of_mem hslot)
    exact ⟨_, by rw [hwritten.links, hsettled.link, hsettled.slots], hslot⟩

/-! ### A new store -/

/-- The store of a database over new files, which grows with every key. -/
def newDb : Hammersbald := fresh 0 0 none none DataFile.empty DataFile.empty 1

/-- The new store after some keys were put. -/
structure Begun (siphash : UInt64 → UInt64 → Bytes → UInt64) (records : List (Nat × Bytes × Bytes))
    (entries : Bytes → Option (Nat × Bytes)) (db : Hammersbald) (pos : Nat) : Prop where
  run : Run siphash true records entries db
  same : SameOs newDb db
  pos : db.mem.dataFile.appender.pos = pos
  logMod : db.mem.logMod = initLogmod
  step : db.mem.step = records.length
  forgotten : db.mem.forgotten = 0
  target : db.mem.bucketFillTarget = 1

theorem begun_newDb (siphash : UInt64 → UInt64 → Bytes → UInt64) :
    Begun siphash [] (fun _ => none) newDb 0 := by
  have hdata : DataFile.new (AsyncFile.new ⟨[], none⟩) = .ok DataFile.empty := rfl
  exact ⟨.fresh 0 0 none none 1 hdata hdata, ⟨rfl, rfl, rfl, rfl⟩, rfl, rfl, rfl, rfl, rfl⟩

/-- A key more, and a bucket more. -/
theorem Begun.putKeyed {pos pos' : Nat} (h : Begun siphash records entries db pos)
    (hcount : records.length < 2 ^ 8) (hpos : pos ≤ 2 ^ 24) (hkey : key.length ≤ 255)
    (hd : d.length ≤ 2 ^ 12) (hend : pos + key.length + d.length + 8 = pos') : ∃ db',
      (Hammersbald.putKeyed siphash id true key d).run db = (db', .ok pos) ∧
      Begun siphash (records ++ [(pos, key, d)]) (Function.update entries key (some (pos, d))) db'
        pos' := by
  have hinvalid : 2 ^ 25 < PRef.invalid := by decide
  obtain ⟨links, data, hstores⟩ := h.run.stores (by omega)
  have hlength := hstores.has.ready.data.pos
  rw [h.pos] at hlength
  obtain ⟨db', hrun, hpos', hsame, hnext⟩ := @putKeyed_ok _ id _ _ _ key d _ _ (fun _ => .refl _)
    hstores true hkey (by omega) (by omega)
  rw [← hlength] at hrun hpos'
  rw [hend] at hpos'
  have hlevel := MemTable.nextStep_step db.mem
  rw [h.logMod, h.step] at hlevel
  have hlt : ¬ 2 ^ (initLogmod + 1) < records.length + 1 := by
    have hpow : 2 ^ (initLogmod + 1) = 512 := rfl
    omega
  rw [if_neg hlt, if_neg hlt] at hlevel
  have hnext := hnext ⟨h.forgotten, by rw [h.target]; exact Nat.mod_one _, by rw [h.step]; omega⟩
  refine ⟨db', hrun, .putKeyed h.run (fun _ => .refl _) (.inl rfl) hrun, h.same.trans hsame, hpos',
    hnext.logMod.trans hlevel.1, ?_, hnext.forgotten.trans h.forgotten,
    hnext.target.trans h.target⟩
  rw [hnext.step, hlevel.2, List.length_append]
  rfl

/-- A batch of the new store returns. -/
theorem Begun.batch {pos : Nat} (h : Begun siphash records entries db pos)
    (hcount : records.length ≤ 2 ^ 8) (hpos : pos ≤ 2 ^ 24) : ∃ db',
      Hammersbald.batch.run db = (db', .ok ()) ∧
      db'.mem.dataFile.appender.pos = pos + (DataFile.padRecord pos).length ∧
      db'.mem.dataFile.appender.file.file.left = none := by
  have hinvalid : 2 ^ 40 < PRef.invalid := by decide
  have hsize : 2 * pageSize = 8192 := rfl
  obtain ⟨links, data, hstores⟩ := h.run.stores (by omega)
  have hready := hstores.has.ready
  have hcount' := hready.count
  rw [h.logMod, h.step] at hcount'
  -- few keys were put, so that few buckets were split
  have hbuckets : db.mem.buckets.length ≤ 1024 := by
    have hpow : 2 ^ (initLogmod + 1) = 512 := rfl
    omega
  have hlink : db.mem.linkFile.appender.pos = 0 := by
    rw [h.same.link]
    rfl
  -- no file of a new store refuses a write
  have hwritable : db.mem.Writable db.mem.buckets.length := by
    refine ⟨?_, ?_, ⟨?_, ?_⟩, ?_, ?_, ?_, ?_⟩
    · rw [h.same.log]
      rfl
    · rw [h.same.table]
      rfl
    · rw [h.same.data]
      rfl
    · rw [h.pos]
      omega
    · rw [h.same.link]
      rfl
    · rw [hlink]
      omega
    · rw [h.same.table]
      exact Nat.zero_le _
    · exact hstores.linkable (by omega)
  have hspec : Hammersbald.batch.wp _ (fun _ => False) db :=
    Method.wp_mono (batch_spec hstores (by omega)) (fun _ _ h => h) fun _ hnot => hnot hwritable
  obtain ⟨db', _, hrun, _, hhas, _, hflush, hleft⟩ := hspec.exists_run
  refine ⟨db', hrun, ?_, (hleft hwritable).2⟩
  rw [hhas.ready.data.pos, List.length_append, ← hready.data.pos, h.pos]

/-- The records of two keys, of which one was put twice. -/
def someRecords : List (Nat × Bytes × Bytes) := [(0, [1], [7]), (10, [1], [8]), (20, [2], [9])]

/-- Their entries. -/
def someEntries : Bytes → Option (Nat × Bytes) :=
  Function.update (Function.update (Function.update (fun _ => none) [1] (some (0, [7])))
    [1] (some (10, [8]))) [2] (some (20, [9]))

theorem exists_begun : ∃ db, Begun (fun _ _ _ => 0) someRecords someEntries db 30 := by
  obtain ⟨db₁, _, h₁⟩ := @Begun.putKeyed _ _ [1] [7] _ _ _ 10 (begun_newDb fun _ _ _ => 0)
    (by decide) (by decide) (by decide) (by decide) rfl
  obtain ⟨db₂, _, h₂⟩ := @Begun.putKeyed _ _ [1] [8] _ _ _ 20 h₁ (by decide) (by decide)
    (by decide) (by decide) rfl
  obtain ⟨db₃, _, h₃⟩ := @Begun.putKeyed _ _ [2] [9] _ _ _ 30 h₂ (by decide) (by decide)
    (by decide) (by decide) rfl
  exact ⟨db₃, h₃⟩

/-- A batch writes them. -/
theorem durable_someRecords : ∃ db, Durable (fun _ _ _ => 0) someRecords someEntries db := by
  obtain ⟨db₃, h₃⟩ := exists_begun
  obtain ⟨db₄, hbatch, _⟩ := h₃.batch (by decide) (by decide)
  exact ⟨db₄, Run.durable h₃.run (by decide) hbatch⟩

/-- Data without a key is stored where there is room for it. -/
theorem Run.put_ok (h : Run siphash debugAssertions records entries db)
    (hcount : records.length < 2 ^ 27) (hd : d.length < 2 ^ 23)
    (hroom : db.mem.dataFile.appender.pos + d.length + 8 < PRef.invalid) : ∃ db',
      (Hammersbald.put d).run db = (db', .ok db.mem.dataFile.appender.pos) ∧
      Run siphash debugAssertions (records ++ [(db.mem.dataFile.appender.pos, [], d)]) entries db' ∧
      db'.mem.dataFile.appender.pos = db.mem.dataFile.appender.pos + d.length + 7 ∧
      SameOs db db' := by
  obtain ⟨links, data, hstores⟩ := h.stores hcount
  have hholds := hstores.has.ready.data
  rw [hholds.pos] at hroom ⊢
  obtain ⟨payload, hpayload, hlength⟩ :=
    Payload.exists_serialize_referred (show d.length < 2 ^ 24 by omega)
  obtain ⟨file, hrun, hpos, hfile⟩ := append_ok hholds hpayload (by omega) (by omega)
  have hend : file.appender.pos = data.length + d.length + 7 := by omega
  exact ⟨_, hrun, .put h (show d.length < 2 ^ 31 by omega) hrun, hend, ⟨rfl, rfl, rfl, hfile⟩⟩

/-- The background writes the data where no write fails. -/
theorem Run.backgroundData_ok (h : Run siphash debugAssertions records entries db)
    (hcount : records.length < 2 ^ 27)
    (hleft : db.mem.dataFile.appender.file.file.left = none) :
    ∃ db', Run siphash debugAssertions records entries db' ∧
      db'.mem.dataFile.appender.pos = db.mem.dataFile.appender.pos := by
  obtain ⟨links, data, hstores⟩ := h.stores hcount
  have hspec : (background MemTable.onData).wp _ (fun _ => False) db :=
    Method.wp_mono (backgroundData_spec hstores) (fun _ _ h => h) fun _ hsome => hsome hleft
  obtain ⟨db', _, hrun, hstores', _⟩ := hspec.exists_run
  exact ⟨db', .backgroundData h hrun, by
    rw [hstores'.has.ready.data.pos, hstores.has.ready.data.pos]⟩

/-- A batch follows, a record without a key and the background; and a key is forgotten. -/
theorem answers_putKeyed : ∃ db, Answers (fun _ _ _ => 0) true
    (someRecords ++ [(4096, [], [5])]) (Function.update someEntries [2] none) db := by
  obtain ⟨db₃, h₃⟩ := exists_begun
  obtain ⟨db₄, hbatch, hpos, hleft⟩ := h₃.batch (by decide) (by decide)
  have hpage : (DataFile.padRecord 30).length = 4066 :=
    DataFile.length_padRecord (by decide) (by decide)
  rw [hpage] at hpos
  obtain ⟨db₅, _, h₅, _, hsame⟩ := @Run.put_ok _ _ _ [5] _ _ (.batch h₃.run hbatch) (by decide)
    (by decide) (by rw [hpos]; decide)
  rw [hpos] at h₅
  obtain ⟨db₆, h₆, _⟩ := h₅.backgroundData_ok (by decide) (by rw [hsame.data, hleft])
  obtain ⟨db₇, hforget⟩ := (h₆.answers (by decide)).forgets [2]
  exact ⟨db₇, Run.answers (.forget h₆ hforget) (by decide)⟩

end Runs

end Hammersbald

end Cashbox.Hammersbald
