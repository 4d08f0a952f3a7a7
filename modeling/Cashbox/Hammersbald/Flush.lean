import Cashbox.Hammersbald.KeyCalls

/-!
# Batches

At the end of a batch the parameters of the table and the dirty buckets are written, and the
queues of the files are emptied. Then the slots of every bucket are behind its link in the files of
the operating system. A batch that returns changes no slots, and it returns where no write fails
and there is room.
-/

namespace Cashbox.Hammersbald

open Cashbox.Lib

/-! ## The parameters -/

theorem slice_front (bytes : Bytes) {start len n : Nat} (h : start + len ≤ n) :
    slice (slice bytes 0 n) start len = slice bytes start len := by
  rw [slice_slice h, Nat.zero_add]

/-- The first page has these parameters. -/
structure Head (bytes : Bytes) (buckets step : Nat) (sip0 sip1 : UInt64) : Prop where
  length : pageSize ≤ bytes.length
  buckets : ofBe (slice bytes 0 6) = buckets
  step : ofBe (slice bytes 6 6) = step
  sip0 : UInt64.ofNat (ofBe (slice bytes 12 8)) = sip0
  sip1 : UInt64.ofNat (ofBe (slice bytes 20 8)) = sip1

/-- The parameters are in the first bytes. -/
theorem Head.of_slice {bytes bytes' : Bytes} {buckets step : Nat} {sip0 sip1 : UInt64}
    (h : Head bytes buckets step sip0 sip1) (hlength : pageSize ≤ bytes'.length)
    (hslice : slice bytes' 0 firstPageHead = slice bytes 0 firstPageHead) :
    Head bytes' buckets step sip0 sip1 := by
  have hpart {pos len : Nat} (hle : pos + len ≤ firstPageHead) :
      slice bytes' pos len = slice bytes pos len := by
    rw [← slice_front bytes hle, ← slice_front bytes' hle, hslice]
  refine ⟨hlength, ?_, ?_, ?_, ?_⟩
  · rw [hpart (by decide), h.buckets]
  · rw [hpart (by decide), h.step]
  · rw [hpart (by decide), h.sip0]
  · rw [hpart (by decide), h.sip1]

namespace Page

theorem exists_write (page : Page) {pos : Nat} {bytes : Bytes}
    (h : pos + bytes.length ≤ pageSize) : ∃ page', page.write pos bytes = .ok page' := by
  unfold write
  rw [dif_pos h]
  exact ⟨_, rfl⟩

/-- A pref that is not too large is written. -/
theorem exists_writePref (page : Page) (pos : Nat) {pref : Nat} (hlt : pref < 256 ^ 6)
    (hpos : pos + 6 ≤ pageSize) : ∃ page', page.writePref pos pref = .ok page' := by
  obtain ⟨page', hwrite⟩ := @exists_write page pos (beBytes 6 pref) (by rwa [beBytes_length])
  exact ⟨page', writePref_eq_ok.mpr ⟨hlt, hwrite⟩⟩

theorem exists_writeU64 (page : Page) (pos : Nat) (n : UInt64) (hpos : pos + 8 ≤ pageSize) :
    ∃ page', page.writeU64 pos n = .ok page' :=
  @exists_write page pos (beBytes 8 n.toNat) (by rwa [beBytes_length])

end Page

namespace MemTable

/-! ## Pages that are written -/

/-- A page of the table file is read, or a new one has links that are not valid. -/
theorem pageOf_spec {t : MemTable} (h : t.tableFile.Wf) {pref : Nat} (hdvd : pageSize ∣ pref)
    (hle : pref ≤ PRef.invalid) :
    ∃ page, t.pageOf pref = .ok page ∧ page.pref = pref ∧
      (∀ bucket, TableFile.bucketPage bucket = pref →
        page.readPref (TableFile.bucketPos bucket) = linkAt t.tableFile.file.content bucket) ∧
      (pref + pageSize ≤ t.tableFile.file.content.length →
        page.content = slice t.tableFile.file.content pref pageSize) := by
  have hpayload : pagePayloadSize + 6 = pageSize := rfl
  unfold pageOf
  by_cases hin : pref + pageSize ≤ t.tableFile.file.content.length
  · obtain ⟨page, hpage, hcontent, hpref⟩ := h.readPage hdvd hin
    refine ⟨page, by rw [hpage]; rfl, hpref, fun bucket hbucket => ?_, fun _ => hcontent⟩
    have hpos := TableFile.bucketPos_le bucket
    unfold linkAt Page.readPref
    rw [if_pos (by rw [hbucket]; exact hin), hcontent, slice_slice (by omega), ← hbucket,
      tableOffset_split]
  · have hout : t.tableFile.file.content.length ≤ pref := by
      by_contra hlt
      exact hin (lt_of_dvd hdvd h.paged.aligned (Nat.not_le.mp hlt))
    obtain ⟨page, hpage, hpref, hinvalid⟩ := invalidOffsetsPage_spec hle
    refine ⟨page, ?_, hpref, fun bucket hbucket => ?_, fun h => absurd h hin⟩
    · rw [TableFile.Wf.readPage_of_le hout]
      exact hpage
    · unfold linkAt
      rw [if_neg (by rw [hbucket]; exact hin)]
      exact hinvalid bucket hbucket

/-- The parameters are written in front of the links. -/
theorem headPage_spec {t : MemTable} {page page' : Page} (h : t.headPage page = .ok page') :
    Head page'.content t.buckets.length t.step t.sip0 t.sip1 ∧
      ∀ start len, firstPageHead ≤ start →
        slice page'.content start len = slice page.content start len := by
  unfold headPage at h
  obtain ⟨p₁, h₁, h⟩ := Outcome.bind_eq_ok.mp h
  obtain ⟨p₂, h₂, h⟩ := Outcome.bind_eq_ok.mp h
  obtain ⟨p₃, h₃, h₄⟩ := Outcome.bind_eq_ok.mp h
  obtain ⟨hlt₁, hw₁⟩ := Page.writePref_eq_ok.mp h₁
  obtain ⟨hlt₂, hw₂⟩ := Page.writePref_eq_ok.mp h₂
  have hhead : firstPageHead = 28 := rfl
  -- each write leaves what is beside it
  have hbeside₂ {start len : Nat} (hb : start + len ≤ 6 ∨ 12 ≤ start) :
      slice p₂.content start len = slice p₁.content start len :=
    Page.slice_write hw₂ (by rw [beBytes_length]; omega)
  have hbeside₃ {start len : Nat} (hb : start + len ≤ 12 ∨ 20 ≤ start) :
      slice p₃.content start len = slice p₂.content start len :=
    Page.slice_write h₃ (by rw [beBytes_length]; omega)
  have hbeside₄ {start len : Nat} (hb : start + len ≤ 20 ∨ 28 ≤ start) :
      slice page'.content start len = slice p₃.content start len :=
    Page.slice_write h₄ (by rw [beBytes_length]; omega)
  refine ⟨⟨page'.length_eq.ge, ?_, ?_, ?_, Page.readU64_writeU64 h₄⟩, ?_⟩
  · rw [hbeside₄ (by omega), hbeside₃ (by omega), hbeside₂ (by omega)]
    exact Page.readPref_writePref h₁
  · rw [hbeside₄ (by omega), hbeside₃ (by omega)]
    exact Page.readPref_writePref h₂
  · rw [hbeside₄ (by omega)]
    exact Page.readU64_writeU64 h₃
  · intro start len hstart
    rw [hbeside₄ (by omega), hbeside₃ (by omega), hbeside₂ (by omega)]
    exact Page.slice_write hw₁ (by rw [beBytes_length]; omega)

/-- Parameters that are not too large are written. -/
theorem exists_headPage {t : MemTable} (hcount : t.buckets.length ≤ 2 ^ 33)
    (hstep : t.step ≤ 2 ^ 31) (page : Page) : ∃ page', t.headPage page = .ok page' := by
  obtain ⟨p₁, h₁⟩ := page.exists_writePref 0 (show t.buckets.length < 256 ^ 6 by omega)
    (by decide)
  obtain ⟨p₂, h₂⟩ := p₁.exists_writePref 6 (show t.step < 256 ^ 6 by omega) (by decide)
  obtain ⟨p₃, h₃⟩ := p₂.exists_writeU64 12 t.sip0 (by decide)
  obtain ⟨p₄, h₄⟩ := p₃.exists_writeU64 20 t.sip1 (by decide)
  refine ⟨p₄, ?_⟩
  unfold headPage
  rw [h₁, Outcome.ok_bind, h₂, Outcome.ok_bind, h₃, Outcome.ok_bind, h₄]

end MemTable

/-! ## Slots that are written -/

/-- What is behind a link stays there when records are added. -/
theorem storedSlots_append {links : Bytes} {stored : Nat} {slots : List Slot}
    (h : storedSlots links stored = some slots) (more : Bytes) :
    storedSlots (links ++ more) stored = some slots := by
  unfold storedSlots at h ⊢
  split_ifs at h ⊢ with hvalid
  · cases hpayload : payloadAt links stored with
    | none => simp [hpayload] at h
    | some p =>
      rw [payloadAt_append hpayload more]
      simpa [hpayload] using h
  · exact h

theorem slotsIn_append {links : Bytes} {bucket : Bucket}
    (h : bucket.slots = none → (storedSlots links bucket.stored).isSome) (more : Bytes) :
    bucket.slotsIn (links ++ more) = bucket.slotsIn links := by
  rcases bucket with ⟨stored, _ | slots⟩
  · obtain ⟨slots, hslots⟩ := Option.isSome_iff_exists.mp (h rfl)
    simp [Bucket.slotsIn, hslots, storedSlots_append hslots more]
  · rfl

/-- Slots that one record of the link file takes: not too many, and with prefs that are valid. -/
def Linkable (slots : List Slot) : Prop :=
  slots.length ≤ 2 ^ 20 ∧ ∀ s ∈ slots, PRef.IsValid s.2

theorem Linkable.exists_fromSlots {slots : List Slot} (h : Linkable slots) :
    ∃ bytes, Link.fromSlots slots = .ok bytes := by
  have hslot : ∀ s ∈ slots, Link.fromSlot s = .ok (beBytes 4 s.1.toNat ++ beBytes 6 s.2) :=
    fun s hs => Link.fromSlot_eq_ok.mpr
      ⟨Nat.lt_trans (h.2 s hs) (by decide : PRef.invalid < 256 ^ 6), rfl⟩
  unfold Link.fromSlots
  rw [Outcome.mapM_of_ok hslot]
  exact ⟨_, rfl⟩

/-- **The link** of slots leads to them. -/
theorem storeSlots_spec {t : MemTable} {links : Bytes} {fail : MemTable → Prop}
    (h : t.linkFile.appender.Holds links) {slots : List Slot} (hsmall : slots.length < 2 ^ 27)
    (hfail : ¬ (Linkable slots ∧ links.length + 2 ^ 24 < PRef.invalid) → ∀ t', fail t') :
    (MemTable.storeSlots slots).wp (fun link t' => ∃ file more,
      t' = { t with linkFile := file } ∧ file.appender.Holds (links ++ more) ∧
        file.appender.file.file = t.linkFile.appender.file.file ∧
        link ≤ PRef.invalid ∧ storedSlots (links ++ more) link = some slots ∧
        (Linkable slots → more.length ≤ 2 ^ 24)) fail t := by
  unfold MemTable.storeSlots
  refine Method.wp_ite (fun hnil => ?_) fun _ => ?_
  · -- no slots are the invalid link
    refine ⟨t.linkFile, [], rfl, by rwa [List.append_nil], rfl, le_refl _, ?_, fun _ => ?_⟩
    · rw [hnil]
      rfl
    · exact Nat.zero_le _
  · by_cases hlinks : ∃ bytes, Link.fromSlots slots = .ok bytes
    · obtain ⟨bytes, hbytes⟩ := hlinks
      have hlength := Link.length_of_fromSlots hbytes
      have hfits : (Payload.link bytes).Fits := by
        show bytes.length < 2 ^ 31
        omega
      have hroom (hlinkable : Linkable slots) (hroom : links.length + 2 ^ 24 < PRef.invalid) :
          (Payload.link bytes).Room links.length := by
        have hle := hlinkable.1
        refine ⟨2 :: bytes, rfl, ?_, ?_⟩
        · rw [List.length_cons]
          omega
        · rw [List.length_cons]
          omega
      have hspec : (DataFile.appendPayload (.link bytes)).wp _
          (fun file => fail { t with linkFile := file }) t.linkFile :=
        DataFile.appendPayload_spec
          (fun hfull _ => hfail (fun hok => hfull (hroom hok.1 hok.2)) _) h hfits
      rw [hbytes]
      unfold MemTable.onLink
      rw [Method.wp_bind, Method.wp_lift_ok, Method.wp_on]
      refine Method.wp_mono hspec ?_ fun _ h => h
      rintro link file ⟨rfl, ⟨payload, hpayload, hlt, hholds⟩, hfile⟩
      have hvalid : PRef.IsValid links.length := h.valid
      refine ⟨file, envelopeBytes payload, rfl, hholds, hfile, Nat.le_of_lt hvalid, ?_, ?_⟩
      · unfold storedSlots
        rw [if_pos hvalid, DataFile.payloadAt_of_serialize hfits hpayload hlt]
        simp [Link.slots_fromSlots hbytes]
      · intro hlinkable
        have hle := hlinkable.1
        cases hpayload
        rw [length_envelopeBytes, List.length_cons]
        omega
    · -- some position of the slots has no six bytes
      refine Method.wp_lift_bind (fun bytes hbytes => absurd ⟨bytes, hbytes⟩ hlinks) ?_
      exact hfail (fun hok => hlinks hok.1.exists_fromSlots) t

/-- A bucket is settled: the table file has its link, and the link leads to its slots. -/
structure Settled (table links : Bytes) (n : Nat) (bucket : Bucket) : Prop where
  link : linkAt table n = bucket.stored
  slots : storedSlots links bucket.stored = some (bucket.slotsIn links)

/-- A settled bucket stays so when records are added. -/
theorem Settled.append {table table' links : Bytes} {n : Nat} {bucket : Bucket}
    (h : Settled table links n bucket) (hlink : linkAt table' n = linkAt table n) (more : Bytes) :
    Settled table' (links ++ more) n bucket := by
  refine ⟨hlink.trans h.link, ?_⟩
  rw [slotsIn_append (fun _ => by simp [h.slots]), storedSlots_append h.slots more]

namespace MemTable

variable {t t' t₀ : MemTable} {links links₀ data : Bytes} {n n₀ : Nat} {todo : List Nat}

/-- A bucket that has slots is settled, or it is dirty and in memory. A bucket that a split has
emptied is dirty, but it is not in memory and a flush leaves it out. -/
def Tracked (t : MemTable) (links : Bytes) : Prop :=
  ∀ n bucket, t.buckets[n]? = some bucket → bucket.slotsIn links ≠ [] →
    Settled t.tableFile.file.content links n bucket ∨
      (t.dirty.bits[n]? = some true ∧ ∃ slots, bucket.slots = some slots)

/-- **Edits** mark the buckets that they write. -/
theorem Edits.tracked (h : Edits links t t') (hready : Ready t links data)
    (htracked : Tracked t links) : Tracked t' links := by
  induction h with
  | refl => exact htracked
  | @resolve t' k hedits ih =>
    intro m bucket hbucket hne
    have hbucket' : (t'.buckets.modify k (Bucket.resolve links))[m]? = some bucket := hbucket
    rw [List.getElem?_modify] at hbucket'
    obtain ⟨before, hbefore, heq⟩ := Option.map_eq_some_iff.mp hbucket'
    split_ifs at heq with hm
    · subst heq
      rw [Bucket.slotsIn_resolve] at hne
      rcases ih m before hbefore hne with hset | ⟨hdirty, slots, hslots⟩
      · refine .inl ⟨?_, ?_⟩
        · rw [Bucket.stored_resolve]
          exact hset.link
        · rw [Bucket.stored_resolve, Bucket.slotsIn_resolve]
          exact hset.slots
      · refine .inr ⟨hdirty, slots, ?_⟩
        unfold Bucket.resolve
        rw [if_neg (by simp [hslots])]
        exact hslots
    · subst heq
      exact ih m _ hbefore hne
  | @edit t' k slots stored hk hstored hedits ih =>
    intro m bucket hbucket hne
    have hbucket' : (t'.buckets.set k ⟨stored, slots⟩)[m]? = some bucket := hbucket
    have hbits := (hready.edits hedits).bits
    show Settled t'.tableFile.file.content links m bucket ∨
      (t'.dirty.bits.set k true)[m]? = some true ∧ _
    by_cases hm : k = m
    · subst hm
      rw [List.getElem?_set_self hk] at hbucket'
      cases hbucket'
      cases slots with
      | none =>
        -- what was emptied has nothing to be settled
        rw [hstored rfl] at hne
        exact absurd Bucket.slotsIn_default hne
      | some slots => exact .inr ⟨List.getElem?_set_self (by omega), slots, rfl⟩
    · rw [List.getElem?_set_ne hm] at hbucket' ⊢
      exact ih m bucket hbucket' hne
  | @grown t' hstep hedits ih =>
    intro m bucket hbucket hne
    have hbucket' : (t'.buckets ++ [Bucket.default])[m]? = some bucket := hbucket
    rw [List.getElem?_append] at hbucket'
    split_ifs at hbucket' with hm
    · refine (ih m bucket hbucket' hne).imp_right fun hdirty => ⟨?_, hdirty.2⟩
      obtain ⟨hlt, hbit⟩ := List.getElem?_eq_some_iff.mp hdirty.1
      unfold MemTable.grown
      dsimp only
      split_ifs
      · rw [List.getElem?_append_left hlt]
        exact hdirty.1
      · by_cases heq : t'.dirty.used + 1 = m
        · rw [heq, List.getElem?_set_self hlt]
        · rw [List.getElem?_set_ne heq]
          exact hdirty.1
    · rw [List.mem_singleton.mp (List.mem_of_getElem? hbucket')] at hne
      exact absurd Bucket.slotsIn_default hne
  | forgotten k _ ih => exact ih

/-! ## Buckets that are written -/

/-- The links of the buckets can be written: their lengths are not cut. -/
def Small (t : MemTable) : Prop :=
  ∀ bucket ∈ t.buckets, ∀ slots, bucket.slots = some slots → slots.length < 2 ^ 27

/-- Nothing keeps a batch that has `n` buckets to write from returning: no write fails, there is
room in the files, and the slots of the buckets fit their records. -/
structure Writable (t : MemTable) (n : Nat) : Prop where
  log : t.logFile.file.file.left = none
  table : t.tableFile.file.left = none
  data : t.dataFile.Writable
  link : t.linkFile.appender.file.file.left = none
  room : t.linkFile.appender.pos + n * 2 ^ 24 + 2 * pageSize < PRef.invalid
  pages : t.tableFile.file.content.length ≤ 2 ^ 40
  slots : ∀ bucket ∈ t.buckets, ∀ slots, bucket.slots = some slots → Linkable slots

theorem Writable.mono {m : Nat} (h : Writable t n) (hle : m ≤ n) : Writable t m := by
  have hmul := Nat.mul_le_mul_right (2 ^ 24) hle
  have hsum : t.linkFile.appender.pos + m * 2 ^ 24 + 2 * pageSize ≤
      t.linkFile.appender.pos + n * 2 ^ 24 + 2 * pageSize :=
    Nat.add_le_add_right (Nat.add_le_add_left hmul _) _
  exact { h with room := hsum.trans_lt h.room }

/-- More records change no slots. -/
theorem Ready.slotsOf_append (h : Ready t links data) (more : Bytes) :
    t.slotsOf (links ++ more) = t.slotsOf links := by
  funext n
  unfold slotsOf
  cases hbucket : t.buckets[n]? with
  | none => rfl
  | some bucket => exact slotsIn_append (h.stored bucket (List.mem_of_getElem? hbucket)) more

theorem Ready.stored_append (h : Ready t links data) (more : Bytes) :
    ∀ bucket ∈ t.buckets, bucket.slots = none →
      (storedSlots (links ++ more) bucket.stored).isSome := by
  intro bucket hbucket hnone
  obtain ⟨slots, hslots⟩ := Option.isSome_iff_exists.mp (h.stored bucket hbucket hnone)
  rw [storedSlots_append hslots more]
  rfl

theorem Ready.length_le (h : Ready t links data) : t.buckets.length ≤ 2 ^ 33 := by
  obtain ⟨_, hhigh⟩ := h.level
  have hpow : 2 ^ (t.logMod + 1) ≤ 2 ^ 31 := Nat.pow_le_pow_right (by decide) (by omega)
  have hlen := h.count
  have hstep := h.step
  omega

/-- The page of a bucket is far below the last pref. -/
theorem bucketPage_le (hn : n < 2 ^ 33) : TableFile.bucketPage n + pageSize ≤ 2 ^ 40 := by
  have hplace := TableFile.bucket_place n
  have hsize : pageSize = 4096 := rfl
  rw [hsize] at hplace ⊢
  split_ifs at hplace <;> omega

/-- Some buckets are still to be written; all others that have slots are settled, and the slots
are as before. -/
structure Writing (t₀ : MemTable) (links₀ data : Bytes) (n₀ : Nat) (t : MemTable) (links : Bytes)
    (todo : List Nat) : Prop where
  frame : t = { t₀ with
    buckets := t.buckets, tableFile := t.tableFile, linkFile := t.linkFile }
  ready : Ready t links data
  count : t.buckets.length = t₀.buckets.length
  slots : t.slotsOf links = t₀.slotsOf links₀
  small : Small t
  pending : ∀ n bucket, t.buckets[n]? = some bucket → bucket.slotsIn links ≠ [] →
    Settled t.tableFile.file.content links n bucket ∨
      (n ∈ todo ∧ ∃ slots, bucket.slots = some slots)
  head : Head t.tableFile.file.content t.buckets.length t.step t.sip0 t.sip1
  writable : Writable t₀ n₀ → Writable t todo.length

/-- A bucket gets the link of its slots. -/
theorem Ready.setBucket (h : Ready t links data) {stored link : Nat} {slots : List Slot}
    (hbucket : t.buckets[n]? = some ⟨stored, some slots⟩) {file : DataFile} {more : Bytes}
    (hholds : file.appender.Holds (links ++ more)) {table : TableFile} (htable : table.Wf) :
    Ready { t with
      buckets := t.buckets.set n ⟨link, some slots⟩, linkFile := file, tableFile := table }
      (links ++ more) data ∧
    MemTable.slotsOf { t with
      buckets := t.buckets.set n ⟨link, some slots⟩, linkFile := file, tableFile := table }
      (links ++ more) = t.slotsOf links := by
  have hlength : (t.buckets.set n ⟨link, some slots⟩).length = t.buckets.length :=
    List.length_set
  have hn : n < t.buckets.length := (List.getElem?_eq_some_iff.mp hbucket).1
  refine ⟨⟨hholds, h.data, htable, ?_, ?_, ?_, ?_, h.level, h.step⟩, ?_⟩
  · intro bucket hmem hnone
    rcases List.mem_or_eq_of_mem_set hmem with hmem | rfl
    · exact h.stored_append more bucket hmem hnone
    · cases hnone
  · exact h.used.trans hlength.symm
  · show (t.buckets.set n _).length < _
    rw [hlength]
    exact h.bits
  · show (t.buckets.set n _).length = _
    rw [hlength]
    exact h.count
  · rw [← h.slotsOf_append more]
    funext m
    show (((t.buckets.set n ⟨link, some slots⟩)[m]?).map _).getD [] =
      ((t.buckets[m]?).map _).getD []
    by_cases hm : m = n
    · subst hm
      rw [List.getElem?_set_self hn, hbucket]
      rfl
    · rw [List.getElem?_set_ne (Ne.symm hm)]

/-- **A dirty bucket** is settled when it was written. -/
theorem Writing.flushBucket (h : Writing t₀ links₀ data n₀ t links (n :: todo))
    (hn : n < t.buckets.length) :
    (MemTable.flushBucket n).wp (fun _ t' => ∃ links', Writing t₀ links₀ data n₀ t' links' todo)
      (fun _ => ¬ Writable t₀ n₀) t := by
  have hdvd := dvd_bucketPage n
  have hinvalid : 2 ^ 40 ≤ PRef.invalid := by decide
  have hpage := bucketPage_le (Nat.lt_of_lt_of_le hn h.ready.length_le)
  obtain ⟨page, hread, hpref, hlinks, hcontent⟩ := pageOf_spec h.ready.table hdvd (by omega)
  have hread' : t.pageOf (PRef.thisPage (TableFile.tableOffset n)) = .ok page := hread
  obtain ⟨⟨stored, slots⟩, hbucket⟩ : ∃ bucket, t.buckets[n]? = some bucket :=
    ⟨_, List.getElem?_eq_getElem hn⟩
  unfold MemTable.flushBucket
  rw [Method.wp_bind, Method.wp_get]
  simp only [hbucket, hread', Method.wp_bind, Method.wp_lift_ok]
  cases slots with
  | none =>
    -- a bucket that is not in memory is settled already, if it has slots
    refine ⟨links, { h with
      pending := fun m bucket hm hne => ?_
      writable := fun hw => (h.writable hw).mono (Nat.le_succ _) }⟩
    refine (h.pending m bucket hm hne).imp_right fun hin => ⟨?_, hin.2⟩
    refine (List.mem_cons.mp hin.1).resolve_left fun heq => ?_
    obtain ⟨slots, hslots⟩ := hin.2
    rw [heq, hbucket] at hm
    cases hm
    cases hslots
  | some slots =>
    have hmem := List.mem_of_getElem? hbucket
    have hsmall := h.small _ hmem slots rfl
    show (flushSlots n page slots).wp _ _ t
    unfold flushSlots
    have hstore : (storeSlots slots).wp _ (fun _ => ¬ Writable t₀ n₀) t :=
      storeSlots_spec h.ready.link hsmall fun hnot _ hw => by
        have hroom := (h.writable hw).room
        rw [h.ready.link.pos, List.length_cons] at hroom
        exact hnot ⟨(h.writable hw).slots _ hmem slots rfl, by omega⟩
    refine Method.wp_seq hstore ?_
    rintro link _ ⟨file, more, rfl, hholds, hfile, hlink, hslots, hshort⟩
    have hpos := TableFile.bucketPos_le n
    obtain ⟨page', hwrite⟩ := page.exists_writePref (TableFile.bucketPos n)
      (show link < 256 ^ 6 by unfold PRef.invalid at hlink; omega)
      (by have hpayload : pagePayloadSize + 6 = pageSize := rfl; omega)
    have hwrite' : page.writePref (PRef.inPagePos (TableFile.tableOffset n)) link = .ok page' :=
      hwrite
    have hpref' : page'.pref = TableFile.bucketPage n := by
      rw [← hpref]
      exact Page.readPref_writePref_of_disjoint hwrite (.inr hpos)
    have hupdate : (TableFile.updatePage page').wp _ (fun _ => ¬ Writable t₀ n₀) t.tableFile :=
      h.ready.table.updatePage (hpref' ▸ hdvd) fun hsome _ hw => hsome (h.writable hw).table
    simp only [Method.wp_bind, Method.wp_modify, hwrite', Method.wp_lift_ok, onTable,
      Method.wp_on]
    refine Method.wp_mono hupdate ?_ fun _ h => h
    rintro _ tf ⟨hwf, hlength, hself, hothers, hlinks', hleft⟩
    rw [hpref'] at hlength hself hothers hlinks'
    -- the links of the other buckets are as before
    have hother (m : Nat) (hm : m ≠ n) :
        linkAt tf.file.content m = linkAt t.tableFile.file.content m := by
      rw [hlinks']
      split_ifs with hsame
      · rw [← hlinks m hsame]
        exact Page.readPref_writePref_of_disjoint hwrite (TableFile.bucketPos_disjoint hsame hm)
      · rfl
    have hread : linkAt tf.file.content n = link := by
      rw [hlinks', if_pos rfl]
      exact Page.readPref_writePref hwrite
    obtain ⟨hready, hslotsOf⟩ := @Ready.setBucket t links data n h.ready stored link slots hbucket
      file more hholds tf hwf
    refine ⟨links ++ more, ⟨by rw [h.frame]; rfl, hready, List.length_set.trans h.count,
      hslotsOf.trans h.slots, ?_, ?_, ?_, ?_⟩⟩
    · intro bucket hmem' slots' hslots'
      rcases List.mem_or_eq_of_mem_set hmem' with hmem' | rfl
      · exact h.small bucket hmem' slots' hslots'
      · cases hslots'
        exact hsmall
    · intro m bucket hm hne
      have hm' : (t.buckets.set n ⟨link, some slots⟩)[m]? = some bucket := hm
      by_cases heq : n = m
      · subst heq
        rw [List.getElem?_set_self hn] at hm'
        cases hm'
        exact .inl ⟨hread, hslots⟩
      · rw [List.getElem?_set_ne heq] at hm'
        rw [slotsIn_append (h.ready.stored bucket (List.mem_of_getElem? hm'))] at hne
        rcases h.pending m bucket hm' hne with hsettled | ⟨hin, hslots'⟩
        · exact .inl (hsettled.append (hother m (Ne.symm heq)) more)
        · exact .inr ⟨(List.mem_cons.mp hin).resolve_left (Ne.symm heq), hslots'⟩
    · have hin := h.head.length
      have hpart (bytes : Bytes) : slice bytes 0 firstPageHead =
          slice (slice bytes 0 pageSize) 0 firstPageHead := (slice_front bytes (by decide)).symm
      have hcount : (t.buckets.set n ⟨link, some slots⟩).length = t.buckets.length :=
        List.length_set
      show Head tf.file.content (t.buckets.set n ⟨link, some slots⟩).length t.step t.sip0 t.sip1
      rw [hcount]
      refine h.head.of_slice (by rw [hlength]; omega) ?_
      rw [hpart tf.file.content, hpart t.tableFile.file.content]
      by_cases hzero : TableFile.bucketPage n = 0
      · -- the links of the first page are behind the parameters
        have hbehind := TableFile.head_le_bucketPos hzero
        rw [hzero] at hself hcontent
        rw [hself, ← hcontent (by omega)]
        obtain ⟨_, hwritten⟩ := Page.writePref_eq_ok.mp hwrite
        exact Page.slice_write hwritten (.inl hbehind)
      · rw [hothers 0 (dvd_zero _) (by omega) (Ne.symm hzero)]
    · intro hw
      have hw := h.writable hw
      have hroom := hw.room
      have hmore := hshort (hw.slots _ hmem slots rfl)
      rw [h.ready.link.pos, List.length_cons] at hroom
      refine ⟨hw.log, hleft hw.table, hw.data, ?_, ?_, ?_, ?_⟩
      · show file.appender.file.file.left = none
        rw [hfile]
        exact hw.link
      · show file.appender.pos + _ + _ < _
        rw [hholds.pos, List.length_append]
        omega
      · show tf.file.content.length ≤ 2 ^ 40
        have hpages := hw.pages
        rw [hlength]
        omega
      · intro bucket hmem' slots' hslots'
        rcases List.mem_or_eq_of_mem_set hmem' with hmem' | rfl
        · exact hw.slots bucket hmem' slots' hslots'
        · cases hslots'
          exact hw.slots _ hmem slots rfl

/-- The numbers of the dirty buckets are those of the bits that are set. -/
theorem dirtyBuckets_spec {d : Dirty} (h : d.used ≤ d.bits.length) :
    ∃ ns, d.buckets = .ok ns ∧ ns.length ≤ d.used ∧
      ∀ n, n ∈ ns ↔ n < d.used ∧ d.bits[n]? = some true := by
  have hget : ∀ n ∈ List.range d.used, (do return (n, ← d.get n) : Outcome Error (Nat × Bool)) =
      .ok (n, d.bits[n]?.getD false) := by
    intro n hn
    have hlt := List.mem_range.mp hn
    unfold Dirty.get
    rw [List.getElem?_eq_getElem (by omega)]
    rfl
  unfold Dirty.buckets
  rw [Outcome.mapM_of_ok hget]
  refine ⟨_, rfl, ?_, fun n => ?_⟩
  · rw [List.length_map]
    refine (List.length_filter_le _ _).trans ?_
    rw [List.length_map, List.length_range]
  · simp only [List.mem_map, List.mem_filter, List.mem_range]
    constructor
    · intro hn
      obtain ⟨bit, ⟨⟨k, hk, rfl⟩, hbit⟩, rfl⟩ := hn
      refine ⟨hk, ?_⟩
      rw [List.getElem?_eq_getElem (by omega)] at hbit ⊢
      simpa using hbit
    · intro hn
      obtain ⟨hlt, hbit⟩ := hn
      exact ⟨_, ⟨⟨n, hlt, rfl⟩, by simp [hbit]⟩, rfl⟩

/-- **All dirty buckets** are settled when they were written. -/
theorem Writing.flushBuckets (h : Writing t₀ links₀ data n₀ t links todo)
    (htodo : ∀ n ∈ todo, n < t₀.buckets.length) :
    (todo.forM MemTable.flushBucket).wp
      (fun _ t' => ∃ links', Writing t₀ links₀ data n₀ t' links' [])
      (fun _ => ¬ Writable t₀ n₀) t := by
  induction todo generalizing t links with
  | nil => exact ⟨links, h⟩
  | cons n todo ih =>
    obtain ⟨hn, htodo⟩ := List.forall_mem_cons.mp htodo
    rw [List.forM_eq_forM, List.forM_cons]
    refine Method.wp_seq (h.flushBucket (h.count.symm ▸ hn)) ?_
    rintro _ t' ⟨links', h'⟩
    exact ih h' htodo

/-! ## A flush -/

/-- **The parameters** are written; then only dirty buckets are not settled. -/
theorem flushHead_spec (h : Ready t links data) (hsmall : Small t) (htracked : Tracked t links)
    (htodo : ∀ n, n < t.buckets.length → t.dirty.bits[n]? = some true → n ∈ todo) :
    flushHead.wp (fun _ t' => Writing t links data todo.length t' links todo)
      (fun _ => ¬ Writable t todo.length) t := by
  have hlevel : t.step ≤ 2 ^ 31 := by
    have hpow : 2 ^ (t.logMod + 1) ≤ 2 ^ 31 :=
      Nat.pow_le_pow_right (by decide) (by have hhigh := h.level.2; omega)
    exact h.step.trans hpow
  obtain ⟨page, hpage, hpref, hlinks, _⟩ :=
    pageOf_spec h.table (dvd_zero pageSize) (Nat.zero_le _)
  obtain ⟨page', hhead⟩ := exists_headPage h.length_le hlevel page
  obtain ⟨hparams, hbehind⟩ := headPage_spec hhead
  have hpref' : page'.pref = 0 := by
    rw [← hpref]
    unfold Page.pref Page.readPref
    rw [hbehind _ _ (by decide)]
  have hupdate : (TableFile.updatePage page').wp _ (fun _ => ¬ Writable t todo.length)
      t.tableFile :=
    h.table.updatePage (hpref' ▸ dvd_zero _) fun hsome _ hw => hsome hw.table
  unfold flushHead
  simp only [Method.wp_bind, Method.wp_get, hpage, Method.wp_lift_ok, hhead, onTable, Method.wp_on]
  refine Method.wp_mono hupdate ?_ fun _ h => h
  rintro _ tf ⟨hwf, hlength, hself, _, hlinks', hleft⟩
  rw [hpref'] at hlength hself hlinks'
  -- the links are behind the parameters
  have hsame (n : Nat) : linkAt tf.file.content n = linkAt t.tableFile.file.content n := by
    rw [hlinks']
    split_ifs with hzero
    · rw [← hlinks n hzero]
      unfold Page.readPref
      rw [hbehind _ _ (TableFile.head_le_bucketPos hzero)]
    · rfl
  refine ⟨rfl, { h with table := hwf }, rfl, rfl, hsmall, ?_, ?_, ?_⟩
  · intro n bucket hbucket hne
    rcases htracked n bucket hbucket hne with hset | ⟨hdirty, hslots⟩
    · have happend := hset.append (hsame n) []
      rw [List.append_nil] at happend
      exact .inl happend
    · exact .inr ⟨htodo n (List.getElem?_eq_some_iff.mp hbucket).1 hdirty, hslots⟩
  · refine hparams.of_slice (by rw [hlength]; omega) ?_
    have hin : slice tf.file.content 0 firstPageHead =
        slice (slice tf.file.content 0 pageSize) 0 firstPageHead :=
      (slice_front _ (by decide)).symm
    rw [hin, hself]
  · intro hw
    have hsize : pageSize ≤ 2 ^ 40 := by decide
    have hpages := hw.pages
    refine { hw with table := hleft hw.table, pages := ?_ }
    show tf.file.content.length ≤ 2 ^ 40
    rw [hlength]
    omega

theorem Writing.flushDirty (hbuckets : t₀.dirty.buckets = .ok todo)
    (htodo : ∀ n, n ∈ todo ↔ n < t₀.dirty.used ∧ t₀.dirty.bits[n]? = some true)
    (hused : t₀.dirty.used = t₀.buckets.length) (h : Writing t₀ links₀ data n₀ t links todo) :
    MemTable.flushDirty.wp (fun _ t' => ∃ links', Writing t₀ links₀ data n₀ t' links' [])
      (fun _ => ¬ Writable t₀ n₀) t := by
  have hdirty : t.dirty = t₀.dirty := by rw [h.frame]
  unfold MemTable.flushDirty
  rw [Method.wp_bind, Method.wp_get, hdirty]
  refine Method.wp_ite (fun _ => ?_) fun hclean => ?_
  · simp only [hbuckets, Method.wp_bind, Method.wp_lift_ok]
    exact h.flushBuckets fun n hn => hused ▸ ((htodo n).mp hn).1
  · -- without a bit that is set there is nothing to write
    have hnil : todo = [] := by
      apply List.eq_nil_iff_forall_not_mem.mpr
      intro n hn
      have hbit := ((htodo n).mp hn).2
      exact hclean (List.any_eq_true.mpr ⟨true, List.mem_of_getElem? hbit, rfl⟩)
    exact ⟨links, hnil ▸ h⟩

/-- What a flush leaves: all buckets that have slots are settled, and the link file is written to
its end. -/
structure Flushed (t₀ : MemTable) (links₀ data : Bytes) (t : MemTable) (links : Bytes) : Prop where
  frame : t = { t₀ with
    buckets := t.buckets, tableFile := t.tableFile, linkFile := t.linkFile
    dirty := t₀.dirty.clear }
  ready : Ready t links data
  slots : t.slotsOf links = t₀.slotsOf links₀
  settled : ∀ n bucket, t.buckets[n]? = some bucket → bucket.slotsIn links ≠ [] →
    Settled t.tableFile.file.content links n bucket
  head : Head t.tableFile.file.content t.buckets.length t.step t.sip0 t.sip1
  written : t.linkFile.appender.file.file.content = links
  writable : Writable t₀ t₀.buckets.length → t.linkFile.appender.file.file.left = none ∧
    t.tableFile.file.content.length ≤ 2 ^ 40

/-- **A flush** settles the buckets, or a write fails or there is no room. -/
theorem flush_spec (h : Ready t links data) (hsmall : Small t) (htracked : Tracked t links) :
    MemTable.flush.wp (fun _ t' => ∃ links', Flushed t links data t' links')
      (fun _ => ¬ Writable t t.buckets.length) t := by
  -- the dirty bits are those of at most all buckets
  obtain ⟨todo, hbuckets, hcount, htodo⟩ := dirtyBuckets_spec (d := t.dirty) (by
    rw [h.used]
    exact Nat.le_of_lt h.bits)
  rw [h.used] at hcount
  have hmono : ∀ _ : MemTable, ¬ Writable t todo.length → ¬ Writable t t.buckets.length :=
    fun _ hnot hw => hnot (hw.mono hcount)
  -- the head is written, then the dirty buckets, and last the link file
  unfold MemTable.flush
  refine Method.wp_seq (Method.wp_mono (flushHead_spec h hsmall htracked fun n hn hbit =>
    (htodo n).mpr ⟨h.used ▸ hn, hbit⟩) (fun _ _ h => h) hmono) fun _ t₁ h₁ => ?_
  refine Method.wp_seq (Method.wp_mono (h₁.flushDirty hbuckets htodo h.used)
    (fun _ _ h => h) hmono) ?_
  rintro _ t₂ ⟨links₂, h₂⟩
  simp only [Method.wp_bind, Method.wp_modify]
  have hspec : DataFile.flush.wp _ (fun _ => ¬ Writable t t.buckets.length) t₂.linkFile :=
    DataFile.flush_spec (fun hnot _ hw => by
      have hw₂ := h₂.writable (hw.mono hcount)
      have hroom := hw₂.room
      exact hnot ⟨hw₂.link, by simpa using hroom⟩) h₂.ready.link
  unfold onLink
  rw [Method.wp_on]
  refine Method.wp_mono hspec ?_ fun _ h => h
  rintro _ file ⟨hholds, _, hcontent, _, hleft⟩
  have hready := h₂.ready
  have hbits : t₂.buckets.length < t₂.dirty.clear.bits.length := by
    unfold Dirty.clear
    rw [List.length_replicate]
    exact hready.bits
  refine ⟨links₂ ++ DataFile.padRecord links₂.length, by rw [h₂.frame],
    ⟨hholds, hready.data, hready.table, hready.stored_append _, hready.used, hbits, hready.count,
      hready.level, hready.step⟩, ?_, ?_, h₂.head, hcontent, ?_⟩
  · rw [← h₂.slots]
    -- links are only appended, so that a settled bucket stays settled
    exact hready.slotsOf_append _
  · intro n bucket hbucket hne
    rw [slotsIn_append (hready.stored bucket (List.mem_of_getElem? hbucket))] at hne
    rcases h₂.pending n bucket hbucket hne with hset | ⟨hmem, _⟩
    · exact hset.append rfl _
    · cases hmem
  · intro hw
    have hw₂ := h₂.writable (hw.mono hcount)
    exact ⟨hleft hw₂.link, hw₂.pages⟩

end MemTable

/-! ## The log -/

namespace LogFile

variable {l : LogFile} {fail : LogFile → Prop}

theorem flush_spec (hfail : l.file.file.left ≠ none → ∀ l, fail l) :
    LogFile.flush.wp (fun _ l' => l.file.file.left = none → l'.file.file.left = none) fail l := by
  unfold LogFile.flush onFile
  rw [Method.wp_on]
  exact Method.wp_mono (AsyncFile.flush_spec fun hsome _ => hfail hsome _)
    (fun _ _ h => h.2.2.2) fun _ h => h

/-- The log begins again, where no write fails and the lengths fit their places. -/
theorem init_spec {dataLen tableLen linkLen : Nat}
    (hfail : ¬ (l.file.file.left = none ∧ dataLen < 256 ^ 6 ∧ tableLen < 256 ^ 6 ∧
      linkLen < 256 ^ 6) → ∀ l, fail l) :
    (LogFile.init dataLen tableLen linkLen).wp
      (fun _ l' => l.file.file.left = none → l'.file.file.left = none) fail l := by
  have hwrite {page : Page} {pos len : Nat} (hpos : pos + 6 ≤ pageSize) {f : Page → _}
      {ok : Unit → LogFile → Prop} {l' : LogFile}
      (hlen : ¬ len < 256 ^ 6 → fail l') (hok : ∀ page', (f page').wp ok fail l') :
      (Method.lift (page.writePref pos len) >>= f).wp ok fail l' := by
    by_cases hlt : len < 256 ^ 6
    · obtain ⟨page', hpage'⟩ := page.exists_writePref pos hlt hpos
      rw [hpage']
      exact Method.wp_bind.mpr (hok page')
    · refine Method.wp_lift_bind (fun page' hpage' => hok page') (hlen hlt)
  unfold LogFile.init
  rw [Method.wp_bind, onFile, Method.wp_on, AsyncFile.truncate, AsyncFile.onFile, Method.wp_on,
    File.truncate, if_neg (by decide)]
  refine File.wp_change (fun left hleft => ?_) fun hsome => hfail (fun hok => hsome hok.1) _
  refine hwrite (by decide) (fun hlen => hfail (fun hok => hlen hok.2.1) _) fun page₁ => ?_
  refine hwrite (by decide) (fun hlen => hfail (fun hok => hlen hok.2.2.1) _) fun page₂ => ?_
  refine hwrite (by decide) (fun hlen => hfail (fun hok => hlen hok.2.2.2) _) fun page₃ => ?_
  rw [Method.wp_bind, onFile, Method.wp_on, AsyncFile.appendPage, Method.wp_modify]
  refine Method.wp_mono (flush_spec fun hsome => hfail fun hok => hsome (hleft hok.1))
    (fun _ l' h hnone => h (hleft hnone)) fun _ h => h

end LogFile

/-! ## A batch -/

namespace MemTable

section Batch

variable {siphash : UInt64 → UInt64 → Bytes → UInt64} {t : MemTable} {links data : Bytes}
  {entries : Bytes → Option (Nat × Bytes)}

/-- The files of the operating system have all that the memtable has. -/
structure Written (t : MemTable) (links data : Bytes) : Prop where
  head : Head t.tableFile.file.content t.buckets.length t.step t.sip0 t.sip1
  settled : ∀ n bucket, t.buckets[n]? = some bucket → bucket.slotsIn links ≠ [] →
    Settled t.tableFile.file.content links n bucket
  links : t.linkFile.appender.file.file.content = links
  data : t.dataFile.appender.file.file.content = data

theorem Written.tracked (h : Written t links data) : Tracked t links :=
  fun n bucket hbucket hne => .inl (h.settled n bucket hbucket hne)

/-- **A batch** writes what the memtable has, and changes no entry. -/
theorem batch_spec (h : Has siphash t links data entries) (hsmall : Small t)
    (htracked : Tracked t links) :
    batch.wp (fun _ t' => ∃ links', Has siphash t' links' (data ++ DataFile.padRecord data.length)
        entries ∧ Written t' links' (data ++ DataFile.padRecord data.length) ∧
        DataFile.flush.run t.dataFile = (t'.dataFile, .ok ()) ∧
        (Writable t t.buckets.length → t'.linkFile.appender.file.file.left = none ∧
          t'.dataFile.appender.file.file.left = none))
      (fun _ => ¬ Writable t t.buckets.length) t := by
  have hready := h.ready
  unfold batch onLog onData
  -- first the log, so that it can be read back
  rw [Method.wp_bind, Method.wp_on]
  refine Method.wp_mono (LogFile.flush_spec fun hsome _ hw => hsome hw.log) ?_ fun _ h => h
  intro _ log₁ hlog₁
  have hready₁ : Ready { t with logFile := log₁ } links data := { hready with }
  have hmono₁ (hw : Writable t t.buckets.length) :
      Writable { t with logFile := log₁ } t.buckets.length := { hw with log := hlog₁ hw.log }
  -- then the table and the links
  refine Method.wp_seq (Method.wp_mono (flush_spec hready₁ hsmall htracked) (fun _ _ h => h)
    fun _ hnot hw => hnot (hmono₁ hw)) ?_
  rintro _ t₂ ⟨links₂, hflushed⟩
  obtain ⟨hframe, hready₂, hslots, hsettled, hhead, hwritten, hwritable⟩ := hflushed
  have hdata : t₂.dataFile = t.dataFile := by rw [hframe]
  have hlog₂ : t₂.logFile = log₁ := by rw [hframe]
  -- the slots are read from the same links, so that the entries are the same
  have hkeeps : Keeps (t₂.hash siphash) t₂.logMod t₂.step (data ++ DataFile.padRecord data.length)
      (t₂.slotsOf links₂) entries := by
    have hhash : t₂.hash siphash = t.hash siphash := by
      rw [hframe]
      rfl
    have hlogMod : t₂.logMod = t.logMod := by rw [hframe]
    have hstep : t₂.step = t.step := by rw [hframe]
    have hslots' : t₂.slotsOf links₂ = t.slotsOf links := hslots
    rw [hhash, hlogMod, hstep, hslots']
    exact h.keeps.append _
  -- then the data file
  have hspec : DataFile.flush.wp _ (fun _ => ¬ Writable t t.buckets.length) t₂.dataFile :=
    DataFile.flush_spec (fun hnot _ hw => hnot (hdata ▸ hw.data)) hready₂.data
  simp only [Method.wp_bind, Method.wp_modify, Method.wp_on]
  refine Method.wp_mono (Method.wp_run hspec) ?_ fun _ h => h
  rintro _ file ⟨⟨hholds, _, hcontent, _, hleft⟩, hrun⟩
  rw [hdata] at hrun hleft
  have hbits : t₂.buckets.length < t₂.dirty.clear.bits.length := by
    unfold Dirty.clear
    rw [List.length_replicate]
    exact hready₂.bits
  -- where nothing fails the lengths fit the places that the new log has for them
  have hlens (hw : Writable t t.buckets.length) : file.len < 256 ^ 6 ∧ t₂.tableFile.len < 256 ^ 6 ∧
      t₂.linkFile.len < 256 ^ 6 := by
    have hinvalid : PRef.invalid < 256 ^ 6 := by decide
    have hpages : t₂.tableFile.len ≤ 2 ^ 40 := (hwritable (hmono₁ hw)).2
    have hfile : file.len = (data ++ DataFile.padRecord data.length).length :=
      congrArg List.length hcontent
    have hlink : t₂.linkFile.len = links₂.length := congrArg List.length hwritten
    have hvalid := hholds.valid
    have hvalid' := hready₂.link.valid
    omega
  simp only [Method.wp_get, Method.wp_bind, Method.wp_modify, Method.wp_on]
  refine Method.wp_mono (LogFile.init_spec fun hnot _ hw => ?_) ?_ fun _ h => h
  · exact hnot ⟨(congrArg (fun l => l.file.file.left) hlog₂).trans (hlog₁ hw.log), hlens hw⟩
  intro _ log₃ hlog₃
  refine Method.wp_mono (LogFile.flush_spec fun hsome _ hw => ?_) ?_ fun _ h => h
  · exact hsome (hlog₃ ((congrArg (fun l => l.file.file.left) hlog₂).trans (hlog₁ hw.log)))
  intro _ log₄ _
  refine ⟨links₂, ⟨⟨hready₂.link, hholds, hready₂.table, hready₂.stored, hready₂.used, hbits,
    hready₂.count, hready₂.level, hready₂.step⟩, hkeeps⟩,
    ⟨hhead, hsettled, hwritten, hcontent⟩, hrun, fun hw => ?_⟩
  exact ⟨(hwritable (hmono₁ hw)).1, hleft hw.data.left⟩

end Batch

end MemTable

end Cashbox.Hammersbald
