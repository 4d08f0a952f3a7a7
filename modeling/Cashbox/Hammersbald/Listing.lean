import Cashbox.Hammersbald.Api

/-!
# Listing the store

The iterator over the buckets returns the slots of all of them. In every run it lists exactly one
slot for each key that has an entry: growing loses no key and lists none twice. The iterator over
the data returns everything that was stored, in order, also what keys do not lead to any more.
-/

namespace Cashbox.Hammersbald

open Cashbox.Lib LinearHash

namespace MemTable

/-! ## The slots of all buckets -/

/-- `BucketIterator::next` -/
def nextSlots (n : Nat) : Method MemTable Error (Option (List Slot)) := do
  match ← (resolveBucket n).attempt with
  | .error _ => Method.lift (.panic .unwrapFailed)
  | .ok _ => do
    let t ← Method.get
    match t.buckets[n]? with
    | some ⟨_, slots⟩ => return some (slots.getD [])
    | none => return none

/-- The iterator from bucket `n` on, called `k` times at most. -/
def slotsFrom : Nat → Nat → Method MemTable Error (List (List Slot))
  | 0, _ => pure []
  | k + 1, n => do
    match ← nextSlots n with
    | some slots => do
      let more ← slotsFrom k (n + 1)
      return slots :: more
    | none => return []

def slots (k : Nat) : Method MemTable Error (List (List Slot)) := slotsFrom k 0

section Listing

variable {siphash : UInt64 → UInt64 → Bytes → UInt64} {t : MemTable} {links data : Bytes}
  {entries : Bytes → Option (Nat × Bytes)}

/-- The slots of one bucket are returned; they are in memory from then on. -/
theorem run_nextSlots (h : Ready t links data) (n : Nat) :
    (nextSlots n).run t = (t.resolve links n, .ok
      (if n < t.buckets.length then some (t.slotsOf links n) else none)) := by
  unfold nextSlots
  rw [Method.run_bind_of_ok (Method.run_attempt_of_ok (run_resolveBucket h n))]
  simp only [Method.run_bind, Method.run_get]
  by_cases hn : n < t.buckets.length
  · obtain ⟨⟨stored, slots⟩, hbucket, hslots⟩ := @getElem?_resolve_of_lt t links _ hn
    have hslots' : slots.getD [] = t.slotsOf links n := hslots
    rw [hbucket, if_pos hn, ← hslots']
    rfl
  · have hnone : (t.resolve links n).buckets[n]? = none := by
      rw [getElem?_resolve, List.getElem?_eq_none (Nat.not_lt.mp hn)]
      rfl
    rw [hnone, if_neg hn]
    rfl

/-- **The iterator** returns the slots of the buckets in order. -/
theorem slotsFrom_spec (h : Has siphash t links data entries) (k n : Nat) :
    ∃ t', (slotsFrom k n).run t = (t', .ok
      ((List.range' n (min k (t.buckets.length - n))).map (t.slotsOf links))) := by
  induction k generalizing t n with
  | zero => exact ⟨t, by simp [slotsFrom]⟩
  | succ k ih =>
    unfold slotsFrom
    rw [Method.run_bind_of_ok (run_nextSlots h.ready n)]
    by_cases hn : n < t.buckets.length
    · obtain ⟨t', hrest⟩ := ih (h.resolve n) (n + 1)
      have hcount : min (k + 1) (t.buckets.length - n) =
          min k (t.buckets.length - (n + 1)) + 1 := by omega
      rw [(sameLevel_resolve t).length, slotsOf_resolve] at hrest
      rw [if_pos hn, hcount, List.range'_succ, List.map_cons]
      exact ⟨t', by rw [Method.run_bind_of_ok hrest]; rfl⟩
    · have hzero : t.buckets.length - n = 0 := by omega
      rw [if_neg hn, hzero, Nat.min_zero]
      exact ⟨_, rfl⟩

/-- The slots of all buckets are those of the entries, each of them once. -/
theorem mem_flatten_slotsOf (h : Has siphash t links data entries) (s : Slot) :
    s ∈ ((List.range t.buckets.length).map (t.slotsOf links)).flatten ↔
      ∃ key d, s.1 = t.hash siphash key ∧ entries key = some (s.2, d) := by
  simp only [List.mem_flatten, List.mem_map, List.mem_range]
  constructor
  · rintro ⟨_, ⟨n, _, rfl⟩, hs⟩
    obtain ⟨key, d, _, hhash, hentry⟩ := h.keeps.reads s ⟨n, hs⟩
    exact ⟨key, d, hhash, hentry⟩
  · rintro ⟨key, d, hhash, hentry⟩
    obtain ⟨hslot, _⟩ := h.keeps.exists_slot hentry
    rw [← hhash] at hslot
    exact ⟨_, ⟨_, h.ready.address_lt _, rfl⟩, hslot⟩

theorem nodup_flatten_slotsOf (h : Has siphash t links data entries) :
    (((List.range t.buckets.length).map (t.slotsOf links)).flatten.map Prod.snd).Nodup := by
  have hkeys : ((List.range t.buckets.length).map (t.slotsOf links)).flatten.Pairwise
      fun s s' => slotKey data s ≠ slotKey data s' := by
    rw [List.pairwise_flatten, List.pairwise_map]
    constructor
    · intro slots hslots
      obtain ⟨n, _, rfl⟩ := List.mem_map.mp hslots
      exact h.keeps.ok.keys n
    · -- a key has its slots in the bucket of its hash only
      refine List.pairwise_lt_range.imp fun {m n} hlt s hs s' hs' heq => ?_
      obtain ⟨key, d, hpayload, _⟩ := h.keeps.reads s ⟨m, hs⟩
      have hkey : slotKey data s = some key := Keeps.keyAt_eq_some.mpr ⟨d, hpayload⟩
      have hm := h.keeps.place m hs hkey
      have hn := h.keeps.place n hs' (heq ▸ hkey)
      omega
  refine List.pairwise_map.mpr (hkeys.imp fun {s s'} hne heq => hne ?_)
  unfold slotKey
  rw [heq]

end Listing

end MemTable

/-! ## The data -/

/-- A record as the iterator returns it. -/
def entryOf : Nat × Payload → Nat × Bytes × Bytes
  | (pref, .indexed key data) => (pref, key, data)
  | (pref, .referred data) => (pref, [], data)
  | (pref, .link _) => (pref, [], [])

/-- `HammersbaldIterator::next` again and again, `n` times at most: it ends at a link. -/
def iterFrom (file : DataFile) : Nat → Nat → Outcome Error (List (Nat × Bytes × Bytes))
  | 0, _ => .ok []
  | n + 1, pos => do
    match ← file.nextEnvelope pos with
    | none => return []
    | some ((pref, envelope), pos') =>
      match ← (Payload.deserialize envelope).unwrap with
      | .indexed key data => do
        let more ← iterFrom file n pos'
        return (pref, key, data) :: more
      | .referred data => do
        let more ← iterFrom file n pos'
        return (pref, [], data) :: more
      | .link _ => return []

/-- **The iterator** returns the records behind `front`. -/
theorem iterFrom_spec {d : DataFile} {payloads : List Bytes}
    (h : d.appender.Holds (contents payloads))
    (hfits : ∀ payload ∈ payloads, payload ≠ [] ∧ payload.length < 2 ^ 24)
    (hvalid : (contents payloads).length + 3 < PRef.invalid) (n : Nat) {front back : List Bytes}
    (hsplit : front ++ back = payloads) {recs : List (Nat × Payload)}
    (hreads : List.Forall₂ DataFile.Reads recs (DataFile.positioned front back))
    (hlinks : ∀ r ∈ recs, ∀ links, r.2 ≠ .link links) :
    iterFrom d n (contents front).length = .ok ((recs.map entryOf).take n) := by
  -- on the items asked for: one is read, and the rest of the list is behind it
  induction n generalizing front back recs with
  | zero => rfl
  | succ n ih =>
    unfold iterFrom
    cases back with
    | nil =>
      rw [List.append_nil] at hsplit
      rw [hsplit, DataFile.nextEnvelope_of_length h hvalid]
      cases hreads
      rfl
    | cons payload back =>
      obtain ⟨hne, hlt⟩ := hfits payload (by simp [← hsplit])
      have hrecord : recordAt (contents (front ++ payload :: back)) (contents front).length =
          some payload := recordAt_contents hlt
      have hbehind : (contents front).length + (envelopeBytes payload).length =
          (contents (front ++ [payload])).length := by
        rw [contents_append, List.length_append]
      rw [hsplit] at hrecord
      cases hreads with
      | @cons r _ recs _ hread hreads =>
        obtain ⟨hr, hlinks⟩ := List.forall_mem_cons.mp hlinks
        have hrest := ih (by simpa using hsplit) hreads hlinks
        obtain ⟨hpref, hpayload⟩ := hread
        obtain ⟨pref, p⟩ := r
        obtain rfl : (contents front).length = pref := hpref
        have hpayload' : Payload.deserialize payload = .ok p := hpayload
        rw [DataFile.nextEnvelope_of_recordAt h hrecord hne, Outcome.ok_bind, hbehind]
        simp only [hpayload', Outcome.unwrap, Outcome.ok_bind]
        cases p with
        | indexed key data =>
          simp only [hrest, Outcome.ok_bind]
          rfl
        | referred data =>
          simp only [hrest, Outcome.ok_bind]
          rfl
        -- a data file has no links
        | link links => exact absurd rfl (hr links)

namespace Hammersbald

set_option linter.dupNamespace false

/-- Get hash table bucket iterator, and what it returns when it is called `k` times at most. -/
def slots (k : Nat) : Method Hammersbald Error (List (List Slot)) := onMem (MemTable.slots k)

variable {siphash : UInt64 → UInt64 → Bytes → UInt64} {debugAssertions : Bool}
  {db : Hammersbald} {records : List (Nat × Bytes × Bytes)}
  {entries : Bytes → Option (Nat × Bytes)}

/-- The buckets list one slot for each key that has an entry, where its hash belongs. -/
structure Indexes (siphash : UInt64 → UInt64 → Bytes → UInt64) (db : Hammersbald)
    (entries : Bytes → Option (Nat × Bytes)) (listed : List (List Slot)) : Prop where
  length : listed.length = db.mem.buckets.length
  place : ∀ n slots, listed[n]? = some slots → ∀ s ∈ slots, db.mem.bucketForHash s.1 = n
  mem : ∀ s, s ∈ listed.flatten ↔
    ∃ key d, s.1 = db.mem.hash siphash key ∧ entries key = some (s.2, d)
  once : (listed.flatten.map Prod.snd).Nodup

/-- **The hash table** has one slot for each key that has an entry, in the bucket of its hash, and
no others: whatever was split, no key is lost and none is there twice. -/
theorem Run.listsSlots (h : Run siphash debugAssertions records entries db)
    (hcount : records.length < 2 ^ 27) {k : Nat} (hk : db.mem.buckets.length ≤ k) :
    ∃ db' listed, (Hammersbald.slots k).run db = (db', .ok listed) ∧
      Indexes siphash db entries listed := by
  obtain ⟨links, data, hstores⟩ := h.stores hcount
  obtain ⟨t', hrun⟩ := MemTable.slotsFrom_spec hstores.has k 0
  rw [Nat.sub_zero, Nat.min_eq_right hk, ← List.range_eq_range'] at hrun
  refine ⟨⟨t'⟩, _, run_onMem hrun, ?_, ?_, MemTable.mem_flatten_slotsOf hstores.has,
    MemTable.nodup_flatten_slotsOf hstores.has⟩
  · rw [List.length_map, List.length_range]
  · intro n slots hslots s hs
    rw [List.getElem?_map] at hslots
    obtain ⟨m, hm, rfl⟩ := Option.map_eq_some_iff.mp hslots
    obtain ⟨hlt, hn⟩ := List.getElem?_eq_some_iff.mp hm
    rw [List.getElem_range] at hn
    rw [hstores.has.ready.bucketForHash, hn]
    exact hstores.has.keeps.ok.place m s hs

/-- A hash function by which three keys begin in one bucket. -/
def someHash (_ _ : UInt64) (key : Bytes) : UInt64 := if key = [2] then 1 else 257

/-- The second put splits the bucket of the first key, and its slot moves to another one. -/
theorem listsSlots_putKeyed : ∃ db₁ db₂ db₃ db₄ listed,
    (Hammersbald.putKeyed someHash id true [2] [8]).run db₁ = (db₂, .ok 10) ∧
    db₁.mem.bucketForHash 257 = 1 ∧ db₂.mem.bucketForHash 257 = 257 ∧
    (Hammersbald.putKeyed someHash id true [3] [9]).run db₂ = (db₃, .ok 20) ∧
    (Hammersbald.slots db₃.mem.buckets.length).run db₃ = (db₄, .ok listed) ∧
    Indexes someHash db₃ (Function.update (Function.update (Function.update (fun _ => none)
      [1] (some (0, [7]))) [2] (some (10, [8]))) [3] (some (20, [9]))) listed := by
  obtain ⟨db₁, _, h₁⟩ := @Begun.putKeyed _ _ [1] [7] _ _ _ 10 (begun_newDb someHash) (by decide)
    (by decide) (by decide) (by decide) rfl
  obtain ⟨db₂, hput₂, h₂⟩ := @Begun.putKeyed _ _ [2] [8] _ _ _ 20 h₁ (by decide) (by decide)
    (by decide) (by decide) rfl
  obtain ⟨db₃, hput₃, h₃⟩ := @Begun.putKeyed _ _ [3] [9] _ _ _ 30 h₂ (by decide) (by decide)
    (by decide) (by decide) rfl
  have hbefore : db₁.mem.bucketForHash 257 = 1 := by
    unfold MemTable.bucketForHash
    rw [h₁.logMod, h₁.step]
    rfl
  have hafter : db₂.mem.bucketForHash 257 = 257 := by
    unfold MemTable.bucketForHash
    rw [h₂.logMod, h₂.step]
    rfl
  obtain ⟨db₄, listed, hslots, hindexes⟩ := h₃.run.listsSlots (by decide) (le_refl _)
  exact ⟨db₁, db₂, db₃, db₄, listed, hput₂, hbefore, hafter, hput₃, hslots, hindexes⟩

/-! ## Everything that was stored -/

/-- Iterator of data, and what it returns when it is called `n` times at most. -/
def iter (db : Hammersbald) (n : Nat) : Outcome Error (List (Nat × Bytes × Bytes)) :=
  iterFrom db.mem.dataFile n 0

/-- The records of a run up to a position, and the records of the data file. Each begins where the
one before it ends, and a batch fills the page that it ends in with zeros. The prefs that were
returned and the end leave no other place for the zeros. -/
inductive Laid : List (Nat × Bytes × Bytes) → List (Nat × Payload) → Nat → Prop
  | new : Laid [] [] 0
  | record {records : List (Nat × Bytes × Bytes)} {recs : List (Nat × Payload)} {pos : Nat}
      {p : Payload} {payload : Bytes} : Laid records recs pos → (∀ links, p ≠ .link links) →
      p.serialize = .ok payload →
      Laid (records ++ [entryOf (pos, p)]) (recs ++ [(pos, p)])
        (pos + (envelopeBytes payload).length)
  | batch {records : List (Nat × Bytes × Bytes)} {recs : List (Nat × Payload)} {pos : Nat} :
      Laid records recs pos →
      Laid records (recs ++ DataFile.padOf pos) (pos + (DataFile.padRecord pos).length)

variable {recs : List (Nat × Payload)} {pos : Nat}

theorem fst_entryOf (r : Nat × Payload) : (entryOf r).1 = r.1 := by
  obtain ⟨pref, _ | _ | _⟩ := r <;> rfl

theorem Laid.noLinks (h : Laid records recs pos) : ∀ r ∈ recs, ∀ links, r.2 ≠ .link links := by
  induction h with
  | new => simp
  | record _ hp _ ih =>
    intro r hr
    rcases List.mem_append.mp hr with hr | hr
    · exact ih r hr
    · rw [List.mem_singleton.mp hr]
      exact hp
  | batch _ ih =>
    intro r hr links
    rcases List.mem_append.mp hr with hr | hr
    · exact ih r hr links
    · unfold DataFile.padOf at hr
      split_ifs at hr
      · rw [List.mem_singleton.mp hr]
        exact Payload.noConfusion
      · cases hr

/-- What is laid out ends in front of the position. -/
theorem Laid.lt (h : Laid records recs pos) :
    (∀ r ∈ recs, r.1 < pos) ∧ ∀ r ∈ records, r.1 < pos := by
  induction h with
  | new => simp
  | @record records recs pos p payload _ _ _ ih =>
    have hlength := length_envelopeBytes payload
    simp only [List.mem_append, List.mem_singleton, or_imp, forall_and, forall_eq, fst_entryOf]
    exact ⟨⟨fun r hr => (ih.1 r hr).trans_le (Nat.le_add_right _ _), by omega⟩,
      fun r hr => (ih.2 r hr).trans_le (Nat.le_add_right _ _), by omega⟩
  | @batch records recs pos _ ih =>
    refine ⟨fun r hr => ?_, fun r hr => (ih.2 r hr).trans_le (Nat.le_add_right _ _)⟩
    rcases List.mem_append.mp hr with hr | hr
    · exact (ih.1 r hr).trans_le (Nat.le_add_right _ _)
    · unfold DataFile.padOf at hr
      unfold DataFile.padRecord
      split_ifs at hr ⊢
      · rw [List.mem_singleton.mp hr, length_envelopeBytes]
        omega
      · cases hr

/-- **The prefs** of the data file increase. -/
theorem Laid.pairwise (h : Laid records recs pos) : (recs.map Prod.fst).Pairwise (· < ·) := by
  induction h with
  | new => exact .nil
  | @record records recs pos p payload h _ _ ih =>
    rw [List.map_append, List.pairwise_append]
    refine ⟨ih, List.pairwise_singleton _ _, ?_⟩
    simpa using fun a b hmem => h.lt.1 (a, b) hmem
  | @batch records recs pos h ih =>
    rw [List.map_append, List.pairwise_append]
    unfold DataFile.padOf
    split_ifs
    · refine ⟨ih, List.pairwise_singleton _ _, ?_⟩
      simpa using fun a b hmem => h.lt.1 (a, b) hmem
    · exact ⟨ih, .nil, by simp⟩

/-- **Without the zeros** the data file has the records of the run, each of them once. -/
theorem Laid.filter (h : Laid records recs pos) :
    (recs.map entryOf).filter (fun e => e.1 ∈ records.map Prod.fst) = records := by
  induction h with
  | new => rfl
  | @record records recs pos p payload h _ _ ih =>
    have hbefore : (recs.map entryOf).filter
        (fun e => e.1 ∈ (records ++ [entryOf (pos, p)]).map Prod.fst) =
          (recs.map entryOf).filter fun e => e.1 ∈ records.map Prod.fst := by
      refine List.filter_congr fun e he => ?_
      obtain ⟨r, hr, rfl⟩ := List.mem_map.mp he
      have hne : (entryOf r).1 ≠ pos := by
        rw [fst_entryOf]
        exact (h.lt.1 r hr).ne
      simp only [List.map_append, List.map_cons, List.map_nil, List.mem_append,
        List.mem_singleton, fst_entryOf (pos, p), hne, or_false]
    have hsplit : (recs ++ [(pos, p)]).map entryOf = recs.map entryOf ++ [entryOf (pos, p)] := by
      simp only [List.map_append, List.map_cons, List.map_nil]
    rw [hsplit, List.filter_append, hbefore, ih]
    simp
  | @batch records recs pos h ih =>
    have hnone : ((DataFile.padOf pos).map entryOf).filter
        (fun e => e.1 ∈ records.map Prod.fst) = [] := by
      rw [List.filter_eq_nil_iff]
      intro e he
      obtain ⟨r, hr, rfl⟩ := List.mem_map.mp he
      unfold DataFile.padOf at hr
      split_ifs at hr
      · rw [List.mem_singleton.mp hr, fst_entryOf, decide_eq_true_iff]
        intro hmem
        obtain ⟨s, hs, heq⟩ := List.mem_map.mp hmem
        exact absurd heq (h.lt.2 s hs).ne
      · cases hr
    rw [List.map_append, List.filter_append, ih, hnone, List.append_nil]

/-- A call of the data file, as a call of the store. -/
theorem run_onData {α : Type} {m : Method DataFile Error α} {db' : Hammersbald} {a : α}
    (h : (onMem (MemTable.onData m)).run db = (db', .ok a)) :
    m.run db.mem.dataFile = (db'.mem.dataFile, .ok a) := by
  unfold onMem MemTable.onData at h
  rw [Method.run_on, Method.run_on] at h
  obtain ⟨rfl, hok⟩ := Prod.mk.inj h
  exact Prod.ext rfl hok

/-- The calls for keys leave the data file as it is. -/
theorem dataFile_of_edits {links : Bytes} {α : Type} {m : Method MemTable Error α} {t' : MemTable}
    {x y : Outcome Error α} {db' : Hammersbald} (hrun : m.run db.mem = (t', x))
    (hedits : MemTable.Edits links db.mem t') (h : (onMem m).run db = (db', y)) :
    db'.mem.dataFile = db.mem.dataFile := by
  obtain rfl : (⟨t'⟩ : Hammersbald) = db' := congrArg Prod.fst ((run_onMem hrun).symm.trans h)
  exact hedits.sameFiles.dataFile

/-- **The data file** of every run is that of a run of its own. -/
theorem Run.lists (h : Run siphash debugAssertions records entries db)
    (hcount : records.length < 2 ^ 27) :
    ∃ recs, DataFile.Run recs db.mem.dataFile ∧
      Laid records recs db.mem.dataFile.appender.pos := by
  induction h with
  | @fresh sip0 sip1 log table _ _ data _ target hdata hlink =>
    have hrun : DataFile.Run [] data := .new rfl rfl hdata
    obtain rfl : data = ⟨PagedFileAppender.new (AsyncFile.new ⟨[], _⟩) 0⟩ :=
      Outcome.ok.inj (hdata.symm.trans rfl)
    exact ⟨[], hrun, .new⟩
  | @putKeyed records entries db db' key d pref order hbefore horder hfits hrun ih =>
    rw [List.length_append] at hcount
    obtain ⟨recs, hrecs, hlaid⟩ := ih (by omega)
    obtain ⟨links, data, hstores⟩ := hbefore.stores (by omega)
    unfold Hammersbald.putKeyed at hrun
    split_ifs at hrun with hcheck
    · cases hrun
    have hfits' : (Payload.indexed key d).Fits := fits_of_check hfits hcheck
    -- the data record is appended, then the key is put into the table, which keeps the data file
    obtain ⟨db₁, me, happend, hrun⟩ := Method.run_bind_eq_ok.mp hrun
    obtain ⟨db₂, _, hput, hpure⟩ := Method.run_bind_eq_ok.mp hrun
    cases hpure
    obtain ⟨_, _, hhas, _, hpayload⟩ :=
      (append_spec hstores.has hstores.tracked hfits').of_run happend
    obtain ⟨t', hput', hedits, _⟩ := MemTable.put_spec horder hhas hpayload
    obtain ⟨rfl, payload, hserialize, hpos⟩ := hrecs.pos_append hfits' (run_onData happend)
    rw [dataFile_of_edits hput' hedits hput, hpos]
    exact ⟨_, .append hrecs hfits' (run_onData happend),
      .record hlaid (fun _ => Payload.noConfusion) hserialize⟩
  | @put records entries db db' d pref _ hfits hrun ih =>
    rw [List.length_append] at hcount
    obtain ⟨recs, hrecs, hlaid⟩ := ih (by omega)
    obtain ⟨rfl, payload, hserialize, hpos⟩ := hrecs.pos_append hfits (run_onData hrun)
    rw [hpos]
    exact ⟨_, .append hrecs hfits (run_onData hrun),
      .record hlaid (fun _ => Payload.noConfusion) hserialize⟩
  | @forget records entries db db' key hbefore hrun ih =>
    obtain ⟨links, data, hstores⟩ := hbefore.stores hcount
    obtain ⟨t', hrun', hedits, _⟩ := MemTable.forget_spec hstores.has key
    rw [dataFile_of_edits hrun' hedits hrun]
    exact ih hcount
  | @getKeyed records entries db db' key found hbefore hrun ih =>
    obtain ⟨links, data, hstores⟩ := hbefore.stores hcount
    obtain ⟨t', hrun', hedits, _⟩ := MemTable.get_spec hstores.has key
    rw [dataFile_of_edits hrun' hedits hrun]
    exact ih hcount
  | @mayHaveKey records entries db db' key found hbefore hrun ih =>
    obtain ⟨links, data, hstores⟩ := hbefore.stores hcount
    obtain ⟨t', _, hrun', hedits, _⟩ := MemTable.mayHaveKey_spec hstores.has key
    rw [dataFile_of_edits hrun' hedits hrun]
    exact ih hcount
  | @batch records entries db db' hbefore hrun ih =>
    obtain ⟨recs, hrecs, hlaid⟩ := ih hcount
    -- the flush pads the page, so that the next record starts at a page
    obtain ⟨links, data, hstores⟩ := hbefore.stores hcount
    obtain ⟨_, _, _, hflush, _⟩ := (batch_spec hstores hcount).of_run hrun
    rw [hrecs.pos_flush hflush]
    exact ⟨_, .flush hrecs hflush, .batch hlaid⟩
  -- a page leaves the queue, and no position moves
  | @backgroundData records entries db db' _ hrun ih =>
    obtain ⟨recs, hrecs, hlaid⟩ := ih hcount
    have hbackground := run_onData hrun
    have hpos : db'.mem.dataFile.appender.pos = db.mem.dataFile.appender.pos :=
      congrArg (fun d => d.1.appender.pos) hbackground.symm
    rw [hpos]
    exact ⟨recs, .background hrecs hbackground, hlaid⟩
  | @backgroundLink records entries db db' _ hrun ih =>
    have hsame : db'.mem.dataFile = db.mem.dataFile := by
      unfold Hammersbald.background onMem MemTable.onLink at hrun
      rw [Method.run_on, Method.run_on] at hrun
      obtain ⟨rfl, _⟩ := Prod.mk.inj hrun
      rfl
    rw [hsame]
    exact ih hcount

/-- **The iterator** lists what was stored, each record once and in order, and besides only the
zeros that ended the pages of the batches. -/
theorem Run.listsRecords (h : Run siphash debugAssertions records entries db)
    (hcount : records.length < 2 ^ 27) (hvalid : db.mem.dataFile.appender.pos + 3 < PRef.invalid) :
    ∃ recs, Laid records recs db.mem.dataFile.appender.pos ∧
      (recs.map Prod.fst).Pairwise (· < ·) ∧
      (recs.map entryOf).filter (fun e => e.1 ∈ records.map Prod.fst) = records ∧
      ∀ n, db.iter n = .ok ((recs.map entryOf).take n) := by
  obtain ⟨recs, hrecs, hlaid⟩ := h.lists hcount
  obtain ⟨payloads, hholds, hsmall, hreads⟩ := hrecs.lists
  rw [hholds.pos] at hvalid
  exact ⟨recs, hlaid, hlaid.pairwise, hlaid.filter, fun n =>
    iterFrom_spec hholds hsmall hvalid n (List.nil_append _) hreads hlaid.noLinks⟩

/-- A batch ends the first page, and the next record is on the second one. -/
theorem listsRecords_put : ∃ db : Hammersbald, ∃ recs,
    Laid [(0, [1], [7]), (4096, [], [8])] recs db.mem.dataFile.appender.pos ∧
    (recs.map Prod.fst).Pairwise (· < ·) ∧
    (recs.map entryOf).filter
      (fun e => e.1 ∈ [(0, ([1] : Bytes), ([7] : Bytes)), (4096, [], [8])].map Prod.fst) =
        [(0, [1], [7]), (4096, [], [8])] ∧
    ∀ n, db.iter n = .ok ((recs.map entryOf).take n) := by
  obtain ⟨db₁, _, h₁⟩ := @Begun.putKeyed _ _ [1] [7] _ _ _ 10 (begun_newDb fun _ _ _ => 0)
    (by decide) (by decide) (by decide) (by decide) rfl
  obtain ⟨db₂, hbatch, hpos, _⟩ := h₁.batch (by decide) (by decide)
  have hpage : (DataFile.padRecord 10).length = 4086 :=
    DataFile.length_padRecord (by decide) (by decide)
  rw [hpage] at hpos
  obtain ⟨db₃, _, h₃, hend, _⟩ := @Run.put_ok _ _ _ [8] _ _ (.batch h₁.run hbatch) (by decide)
    (by decide) (by rw [hpos]; decide)
  rw [hpos] at h₃ hend
  exact ⟨db₃, Run.listsRecords h₃ (by decide) (by rw [hend]; decide)⟩

end Hammersbald

end Cashbox.Hammersbald
