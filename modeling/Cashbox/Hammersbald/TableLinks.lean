import Cashbox.Hammersbald.TableFile

/-!
# Links in the table file

A link that was written is read back, and the links of the other buckets are read as before. The
pages in front of a new one are made of links that are not valid.
-/

namespace Cashbox.Hammersbald

open Cashbox.Lib

/-! ## Places -/

namespace TableFile

/-- The page of a bucket. -/
def bucketPage (bucket : Nat) : Nat := PRef.thisPage (tableOffset bucket)

/-- The place of a bucket in its page. -/
def bucketPos (bucket : Nat) : Nat := PRef.inPagePos (tableOffset bucket)

theorem tableOffset_eq (bucket : Nat) : tableOffset bucket =
    if bucket < 677 then 28 + bucket * 6 + 0 * pageSize
    else bucket % 681 * 6 + ((bucket - 677) / 681 + 1) * pageSize := by
  unfold tableOffset
  show (if bucket < 677 then bucket * 6 + 28
    else ((bucket - 677) / 681 + 1) * pageSize + bucket % 681 * 6) = _
  split_ifs <;> omega

/-- A bucket has its place in the payload of a page, in the first one behind the parameters. -/
theorem bucket_place (bucket : Nat) :
    if bucket < 677 then bucketPage bucket = 0 ∧ bucketPos bucket = 28 + bucket * 6
    else bucketPage bucket = ((bucket - 677) / 681 + 1) * pageSize ∧
      bucketPos bucket = bucket % 681 * 6 := by
  have hoffset := tableOffset_eq bucket
  unfold bucketPage bucketPos
  have hsize : pageSize = 4096 := rfl
  split_ifs at hoffset ⊢ with h
  · have hin : 28 + bucket * 6 < pageSize := by omega
    have hsum : 0 + (28 + bucket * 6) = tableOffset bucket := by omega
    exact ⟨PRef.thisPage_eq (dvd_zero _) hin hsum, PRef.inPagePos_eq (dvd_zero _) hin hsum⟩
  · have hmod := Nat.mod_lt bucket (by decide : 0 < 681)
    have hin : bucket % 681 * 6 < pageSize := by omega
    have hdvd : pageSize ∣ ((bucket - 677) / 681 + 1) * pageSize := Nat.dvd_mul_left _ _
    have hsum : ((bucket - 677) / 681 + 1) * pageSize + bucket % 681 * 6 = tableOffset bucket := by
      rw [hoffset, Nat.add_comm]
    exact ⟨PRef.thisPage_eq hdvd hin hsum, PRef.inPagePos_eq hdvd hin hsum⟩

theorem bucketPos_le (bucket : Nat) : bucketPos bucket + 6 ≤ pagePayloadSize := by
  have hplace := bucket_place bucket
  have hpayload : pagePayloadSize = 4090 := rfl
  split_ifs at hplace
  · omega
  · have hmod := Nat.mod_lt bucket (by decide : 0 < 681)
    omega

/-- In the first page the parameters are in front of the links. -/
theorem head_le_bucketPos {bucket : Nat} (h : bucketPage bucket = 0) : 28 ≤ bucketPos bucket := by
  have hplace := bucket_place bucket
  have hpos := pageSize_pos
  split_ifs at hplace
  · omega
  · rw [h] at hplace
    have hzero := hplace.1
    have hlt : 0 < ((bucket - 677) / 681 + 1) * pageSize := Nat.mul_pos (Nat.succ_pos _) hpos
    omega

/-- **Two buckets** of one page do not share a byte. -/
theorem bucketPos_disjoint {m n : Nat} (hpage : bucketPage m = bucketPage n) (hne : m ≠ n) :
    bucketPos m + 6 ≤ bucketPos n ∨ bucketPos n + 6 ≤ bucketPos m := by
  have hm := bucket_place m
  have hn := bucket_place n
  have hpos := pageSize_pos
  have hnext (k : Nat) : 0 < ((k - 677) / 681 + 1) * pageSize := Nat.mul_pos (Nat.succ_pos _) hpos
  split_ifs at hm hn with hm' hn'
  · omega
  · have hlt := hnext n
    omega
  · have hlt := hnext m
    omega
  · -- the buckets of a page are 681 in a row, so they differ modulo 681
    rw [hm.1, hn.1] at hpage
    have hdiv := Nat.succ.inj (Nat.eq_of_mul_eq_mul_right hpos hpage)
    omega

end TableFile

/-! ## Pages of links -/

theorem writeInvalid_spec {positions : List Nat} {page : Page}
    (hfits : ∀ pos ∈ positions, pos + 6 ≤ pagePayloadSize)
    (hplaces : ∀ p ∈ positions, ∀ q ∈ positions, p = q ∨ p + 6 ≤ q ∨ q + 6 ≤ p) :
    ∃ page', writeInvalid page positions = .ok page' ∧ page'.pref = page.pref ∧
      (∀ pos ∈ positions, page'.readPref pos = PRef.invalid) ∧
      ∀ start, (∀ pos ∈ positions, start + 6 ≤ pos ∨ pos + 6 ≤ start) →
        page'.readPref start = page.readPref start := by
  induction positions generalizing page with
  | nil => exact ⟨page, rfl, rfl, by simp, fun _ _ => rfl⟩
  | cons pos positions ih =>
    obtain ⟨hpos, hfits⟩ := List.forall_mem_cons.mp hfits
    have hpayload : pagePayloadSize = 4090 := rfl
    have hsize : pageSize = 4096 := rfl
    have hwrite : ∃ next, page.writePref pos PRef.invalid = .ok next := by
      unfold Page.writePref Page.write
      rw [writeUint_of_lt (by decide), Outcome.ok_bind,
        dif_pos (by rw [beBytes_length]; omega)]
      exact ⟨_, rfl⟩
    obtain ⟨next, hnext⟩ := hwrite
    obtain ⟨page', hrest, hpref, hinvalid, hbeside⟩ := ih hfits fun p hp q hq =>
      hplaces p (List.mem_cons_of_mem _ hp) q (List.mem_cons_of_mem _ hq)
    refine ⟨page', ?_, ?_, ?_, ?_⟩
    · unfold writeInvalid
      rw [List.foldlM_cons, hnext, Outcome.ok_bind]
      exact hrest
    · rw [hpref]
      exact Page.readPref_writePref_of_disjoint hnext (by omega)
    · -- a place that is written again later gets the same link
      refine List.forall_mem_cons.mpr ⟨?_, hinvalid⟩
      by_cases hagain : pos ∈ positions
      · exact hinvalid pos hagain
      · rw [hbeside pos fun q hq => ?_, Page.readPref_writePref hnext]
        rcases hplaces pos List.mem_cons_self q (List.mem_cons_of_mem _ hq) with rfl | h | h
        · exact absurd hq hagain
        · exact .inl h
        · exact .inr h
    · intro start hstart
      obtain ⟨hfirst, hothers⟩ := List.forall_mem_cons.mp hstart
      rw [hbeside start hothers]
      exact Page.readPref_writePref_of_disjoint hnext hfirst

/-- The links of a page are written one behind the other. -/
theorem writeInvalid_range (page : Page) {head count : Nat}
    (h : head + count * 6 ≤ pagePayloadSize) :
    ∃ page', writeInvalid page ((List.range count).map fun o => head + o * 6) = .ok page' ∧
      page'.pref = page.pref ∧ ∀ o < count, page'.readPref (head + o * 6) = PRef.invalid := by
  have hfits : ∀ pos ∈ (List.range count).map fun o => head + o * 6, pos + 6 ≤ pagePayloadSize := by
    intro pos hpos
    obtain ⟨o, ho, rfl⟩ := List.mem_map.mp hpos
    have hlt := List.mem_range.mp ho
    omega
  have hplaces : ∀ p ∈ (List.range count).map fun o => head + o * 6,
      ∀ q ∈ (List.range count).map fun o => head + o * 6, p = q ∨ p + 6 ≤ q ∨ q + 6 ≤ p := by
    intro p hp q hq
    obtain ⟨o, _, rfl⟩ := List.mem_map.mp hp
    obtain ⟨o', _, rfl⟩ := List.mem_map.mp hq
    omega
  obtain ⟨page', hwrite, hpref, hinvalid, _⟩ := writeInvalid_spec hfits hplaces
  refine ⟨page', hwrite, hpref, fun o ho => hinvalid _ ?_⟩
  exact List.mem_map.mpr ⟨o, List.mem_range.mpr ho, rfl⟩

/-- A page that is empty but for its position. -/
theorem newTablePage_spec {pos : Nat} (hlt : pos ≤ PRef.invalid) :
    ∃ page, Page.newTablePage pos = .ok page ∧ page.pref = pos := by
  have hfits : pos < 256 ^ 6 := by
    unfold PRef.invalid at hlt
    omega
  have hwrite : ∃ page, Page.newTablePage pos = .ok page := by
    unfold Page.newTablePage Page.writePref Page.write
    rw [writeUint_of_lt hfits, Outcome.ok_bind, dif_pos (by rw [beBytes_length]; decide)]
    exact ⟨_, rfl⟩
  obtain ⟨page, hpage⟩ := hwrite
  exact ⟨page, hpage, Page.readPref_writePref hpage⟩

/-- **A new page** has its position and links that are not valid. -/
theorem invalidOffsetsPage_spec {pos : Nat} (hlt : pos ≤ PRef.invalid) :
    ∃ page, invalidOffsetsPage pos = .ok page ∧ page.pref = pos ∧
      ∀ bucket, TableFile.bucketPage bucket = pos →
        page.readPref (TableFile.bucketPos bucket) = PRef.invalid := by
  obtain ⟨page, hpage, hpref⟩ := newTablePage_spec hlt
  have hpos := pageSize_pos
  unfold invalidOffsetsPage
  rw [hpage, Outcome.ok_bind]
  by_cases hzero : pos = 0
  · obtain ⟨page', hwrite, hpref', hinvalid⟩ := writeInvalid_range page (by decide :
      28 + 677 * 6 ≤ pagePayloadSize)
    rw [if_pos hzero]
    refine ⟨page', hwrite, hpref'.trans hpref, fun bucket hbucket => ?_⟩
    have hplace := TableFile.bucket_place bucket
    split_ifs at hplace with hfirst
    · rw [hplace.2]
      exact hinvalid bucket hfirst
    · have hnext : 0 < ((bucket - 677) / 681 + 1) * pageSize := Nat.mul_pos (Nat.succ_pos _) hpos
      omega
  · obtain ⟨page', hwrite, hpref', hinvalid⟩ := writeInvalid_range page (by decide :
      0 + 681 * 6 ≤ pagePayloadSize)
    simp only [Nat.zero_add] at hwrite hinvalid
    rw [if_neg hzero]
    refine ⟨page', hwrite, hpref'.trans hpref, fun bucket hbucket => ?_⟩
    have hplace := TableFile.bucket_place bucket
    split_ifs at hplace with hfirst
    · omega
    · rw [hplace.2]
      exact hinvalid _ (Nat.mod_lt _ (by decide))

/-! ## Files of pages with positions -/

/-- The bytes are pages that end with their positions. -/
structure Paged (bytes : Bytes) : Prop where
  aligned : pageSize ∣ bytes.length
  prefs : ∀ p, pageSize ∣ p → p + pageSize ≤ bytes.length →
    ofBe (slice bytes (p + pagePayloadSize) 6) = p

/-- The link of a bucket, which is not valid where its page is not there. -/
def linkAt (bytes : Bytes) (bucket : Nat) : Nat :=
  if TableFile.bucketPage bucket + pageSize ≤ bytes.length then
    ofBe (slice bytes (TableFile.tableOffset bucket) 6)
  else PRef.invalid

theorem tableOffset_split (bucket : Nat) :
    TableFile.bucketPage bucket + TableFile.bucketPos bucket = TableFile.tableOffset bucket :=
  PRef.thisPage_add_inPagePos _

theorem dvd_bucketPage (bucket : Nat) : pageSize ∣ TableFile.bucketPage bucket :=
  PRef.dvd_thisPage _

theorem lt_of_dvd {p q : Nat} (hp : pageSize ∣ p) (hq : pageSize ∣ q) (h : p < q) :
    p + pageSize ≤ q := by
  obtain ⟨k, rfl⟩ := hp
  obtain ⟨m, rfl⟩ := hq
  rw [← Nat.mul_succ]
  exact Nat.mul_le_mul_left pageSize (Nat.lt_of_mul_lt_mul_left h)

/-- What is in one page is not in another one. -/
theorem page_disjoint {p q : Nat} (hp : pageSize ∣ p) (hq : pageSize ∣ q) (h : p ≠ q) :
    p + pageSize ≤ q ∨ q + pageSize ≤ p := by
  rcases Nat.lt_or_gt_of_ne h with hlt | hlt
  · exact .inl (lt_of_dvd hp hq hlt)
  · exact .inr (lt_of_dvd hq hp hlt)

section Write

variable {bytes : Bytes} {page : Page}

theorem length_writePage (hle : page.pref ≤ bytes.length) :
    (splice bytes page.pref page.content).length = max bytes.length (page.pref + pageSize) := by
  rw [length_splice hle, page.length_eq]

/-- **Another page** stays as it is. -/
theorem slice_writePage_of_ne (hle : page.pref ≤ bytes.length) (hdvd : pageSize ∣ page.pref)
    {p : Nat} (hp : pageSize ∣ p) (hne : p ≠ page.pref) :
    slice (splice bytes page.pref page.content) p pageSize = slice bytes p pageSize := by
  apply slice_splice_of_disjoint hle
  rw [page.length_eq]
  rcases page_disjoint hp hdvd hne with h | h
  · exact .inl h
  · exact .inr h

theorem slice_writePage_self (hle : page.pref ≤ bytes.length) :
    slice (splice bytes page.pref page.content) page.pref pageSize = page.content := by
  have hself : slice (splice bytes page.pref page.content) page.pref page.content.length = _ :=
    slice_splice_self hle
  rwa [page.length_eq] at hself

/-- **Pages** with positions stay such pages. -/
theorem Paged.write (h : Paged bytes) (hle : page.pref ≤ bytes.length)
    (hdvd : pageSize ∣ page.pref) : Paged (splice bytes page.pref page.content) := by
  have hpayload : pagePayloadSize + 6 = pageSize := rfl
  have hlength := length_writePage hle
  constructor
  · rw [hlength]
    rcases Nat.le_total (page.pref + pageSize) bytes.length with hin | hout
    · rw [Nat.max_eq_left hin]
      exact h.aligned
    · rw [Nat.max_eq_right hout]
      exact Nat.dvd_add hdvd (dvd_refl _)
  · intro p hp hin
    have hpart : slice (splice bytes page.pref page.content) (p + pagePayloadSize) 6 =
        slice (slice (splice bytes page.pref page.content) p pageSize) pagePayloadSize 6 :=
      (slice_slice (by omega)).symm
    rw [hpart]
    by_cases heq : p = page.pref
    · rw [heq, slice_writePage_self hle]
      rfl
    · rw [slice_writePage_of_ne hle hdvd hp heq, slice_slice (by omega)]
      apply h.prefs p hp
      -- a page behind the end would be the one that is written
      rw [hlength] at hin
      by_contra hout
      have hfar := h.aligned
      have hbehind : bytes.length ≤ p := by
        by_contra hlt
        exact hout (lt_of_dvd hp hfar (Nat.not_le.mp hlt))
      have hlast : page.pref + pageSize ≤ p := lt_of_dvd hdvd hp (by omega)
      omega

/-- **A link** of the page that is written is read from it, and the other links are as before. -/
theorem linkAt_write (h : Paged bytes) (hle : page.pref ≤ bytes.length)
    (hdvd : pageSize ∣ page.pref) (bucket : Nat) :
    linkAt (splice bytes page.pref page.content) bucket =
      if TableFile.bucketPage bucket = page.pref then page.readPref (TableFile.bucketPos bucket)
      else linkAt bytes bucket := by
  have hpayload : pagePayloadSize + 6 = pageSize := rfl
  have hpos := TableFile.bucketPos_le bucket
  have hlength := length_writePage hle
  have hpart (bytes : Bytes) : slice bytes (TableFile.tableOffset bucket) 6 =
      slice (slice bytes (TableFile.bucketPage bucket) pageSize)
        (TableFile.bucketPos bucket) 6 := by
    rw [slice_slice (by omega), tableOffset_split]
  unfold linkAt
  rw [hpart, hpart, hlength]
  by_cases heq : TableFile.bucketPage bucket = page.pref
  · rw [if_pos heq, if_pos (by omega), heq, slice_writePage_self hle]
    rfl
  · rw [if_neg heq, slice_writePage_of_ne hle hdvd (dvd_bucketPage bucket) heq]
    by_cases hin : TableFile.bucketPage bucket + pageSize ≤ bytes.length
    · rw [if_pos hin, if_pos (by omega)]
    · rw [if_neg hin, if_neg]
      have hbehind : bytes.length ≤ TableFile.bucketPage bucket := by
        by_contra hlt
        exact hin (lt_of_dvd (dvd_bucketPage bucket) h.aligned (Nat.not_le.mp hlt))
      have hlast : page.pref + pageSize ≤ TableFile.bucketPage bucket :=
        lt_of_dvd hdvd (dvd_bucketPage bucket) (by omega)
      omega

end Write

/-! ## Methods of the table file -/

namespace TableFile

/-- The table file has pages with positions, and knows how many. -/
structure Wf (t : TableFile) : Prop where
  paged : Paged t.file.content
  until_eq : t.initializedUntil = t.file.content.length

variable {t : TableFile}

/-- **A page** is read as it is. -/
theorem Wf.readPage (h : t.Wf) {p : Nat} (hp : pageSize ∣ p)
    (hin : p + pageSize ≤ t.file.content.length) :
    ∃ page, t.readPage p = .ok (some page) ∧ page.content = slice t.file.content p pageSize ∧
      page.pref = p := by
  have hpayload : pagePayloadSize + 6 = pageSize := rfl
  have hlt : p < t.file.len := by
    have hpos := pageSize_pos
    show p < t.file.content.length
    omega
  have hpref : (⟨slice t.file.content p pageSize, length_slice hin⟩ : Page).pref = p := by
    unfold Page.pref Page.readPref
    rw [slice_slice (by omega), h.paged.prefs p hp hin]
  refine ⟨⟨slice t.file.content p pageSize, length_slice hin⟩, ?_, rfl, hpref⟩
  unfold TableFile.readPage File.readPage
  rw [if_pos hlt, dif_pos hin, Outcome.ok_bind]
  exact if_neg (not_not.mpr hpref)

theorem Wf.readPage_of_le {p : Nat} (hout : t.file.content.length ≤ p) :
    t.readPage p = .ok none := by
  have hlen : ¬ p < t.file.len := Nat.not_lt.mpr hout
  unfold TableFile.readPage File.readPage
  rw [if_neg hlen]
  rfl

/-- **The iterator** reads the links of the pages that are there. -/
theorem Wf.link (h : t.Wf) (bucket : Nat) :
    t.link bucket = if bucketPage bucket + pageSize ≤ t.file.content.length then
      some (linkAt t.file.content bucket) else none := by
  have hpayload : pagePayloadSize + 6 = pageSize := rfl
  have hpos := bucketPos_le bucket
  unfold TableFile.link
  split_ifs with hin
  · obtain ⟨page, hpage, hcontent, _⟩ := h.readPage (dvd_bucketPage bucket) hin
    have hread : t.readPage (PRef.thisPage (tableOffset bucket)) = .ok (some page) := hpage
    have hpart : slice t.file.content (tableOffset bucket) 6 =
        slice page.content (bucketPos bucket) 6 := by
      rw [hcontent, slice_slice (by omega), tableOffset_split]
    rw [hread]
    unfold linkAt
    rw [if_pos hin, hpart]
    rfl
  · have hout : t.file.content.length ≤ bucketPage bucket := by
      by_contra hlt
      exact hin (lt_of_dvd (dvd_bucketPage bucket) h.paged.aligned (Nat.not_le.mp hlt))
    have hread : t.readPage (PRef.thisPage (tableOffset bucket)) = .ok none :=
      Wf.readPage_of_le hout
    rw [hread]

/-- A page is written where it belongs. -/
theorem wp_writePage {ok : Unit → File → Prop} {fail : File → Prop} {file : File} {page : Page}
    (hle : page.pref ≤ file.content.length)
    (hok : ∀ left, (file.left = none → left = none) →
      ok () ⟨splice file.content page.pref page.content, left⟩)
    (hfail : file.left ≠ none → fail file) : (File.updatePage page).wp ok fail file := by
  refine File.wp_change (fun left hleft => ?_) hfail
  rw [Nat.sub_eq_zero_of_le hle, List.replicate_zero, List.append_nil]
  exact hok left hleft

/-- **The pages** in front of a new one have no links. -/
theorem Wf.initializePages {fail : TableFile → Prop} {pref : Nat} (hpref : pageSize ∣ pref)
    (hlt : pref ≤ PRef.invalid) (h : t.Wf) (hfail : t.file.left ≠ none → ∀ t', fail t')
    (hle : t.initializedUntil ≤ pref) :
    (initializePages pref t.initializedUntil).wp
      (fun _ t' => t'.Wf ∧ t'.file.content.length = pref ∧ t.file.content <+: t'.file.content ∧
        (∀ bucket, linkAt t'.file.content bucket = linkAt t.file.content bucket) ∧
        (t.file.left = none → t'.file.left = none)) fail t := by
  -- the induction is on the bytes up to the new page
  induction hn : pref - t.initializedUntil using Nat.strong_induction_on generalizing t with
  | _ n ih =>
    unfold TableFile.initializePages
    split_ifs with hstart
    · obtain ⟨page, hpage, hposition, hinvalid⟩ :=
        invalidOffsetsPage_spec (show t.initializedUntil ≤ PRef.invalid by omega)
      have hpos := pageSize_pos
      have hdvd : pageSize ∣ t.initializedUntil := by
        rw [h.until_eq]
        exact h.paged.aligned
      have hend : page.pref = t.file.content.length := hposition.trans h.until_eq
      have hfits : page.pref ≤ t.file.content.length := Nat.le_of_eq hend
      have haligned : pageSize ∣ page.pref := hposition ▸ hdvd
      rw [hpage]
      simp only [Method.wp_bind, Method.wp_lift_ok, onFile, Method.wp_on, Method.wp_modify]
      refine wp_writePage hfits (fun left hleft => ?_) fun hsome => hfail hsome _
      have hlength := length_writePage hfits
      have hlonger : t.file.content <+: splice t.file.content page.pref page.content := by
        unfold splice
        rw [hend, List.take_length, List.append_assoc]
        exact List.prefix_append _ _
      have hwf : (⟨⟨splice t.file.content page.pref page.content, left⟩,
          t.initializedUntil + pageSize⟩ : TableFile).Wf := by
        refine ⟨h.paged.write hfits haligned, ?_⟩
        show t.initializedUntil + pageSize = (splice _ _ _).length
        rw [hlength]
        omega
      have hnext := lt_of_dvd hdvd hpref hstart
      have hshort : pref - (t.initializedUntil + pageSize) < n := by omega
      refine Method.wp_mono (ih _ hshort hwf (fun hsome => hfail fun hnone => hsome (hleft hnone))
        hnext rfl) ?_ fun _ h => h
      rintro _ t' ⟨hwf', hlength', hprefix, hlinks, hleft'⟩
      refine ⟨hwf', hlength', hlonger.trans hprefix, fun bucket => ?_,
        fun hnone => hleft' (hleft hnone)⟩
      · rw [hlinks bucket]
        show linkAt (splice t.file.content page.pref page.content) bucket = _
        rw [linkAt_write h.paged hfits haligned]
        split_ifs with hbucket
        · rw [hinvalid bucket (hbucket.trans hposition)]
          unfold linkAt
          rw [if_neg (by omega)]
        · rfl
    · have heq : t.initializedUntil = pref := by omega
      exact ⟨h, h.until_eq ▸ heq, List.prefix_rfl, fun _ => rfl, id⟩

/-- **A page** is written; the links of its buckets are those of the page, and the other links
are as before. -/
theorem Wf.updatePage {fail : TableFile → Prop} {page : Page} (hdvd : pageSize ∣ page.pref)
    (h : t.Wf) (hfail : t.file.left ≠ none → ∀ t', fail t') :
    (updatePage page).wp
      (fun _ t' => t'.Wf ∧
        t'.file.content.length = max t.file.content.length (page.pref + pageSize) ∧
        slice t'.file.content page.pref pageSize = page.content ∧
        (∀ p, pageSize ∣ p → p + pageSize ≤ t.file.content.length → p ≠ page.pref →
          slice t'.file.content p pageSize = slice t.file.content p pageSize) ∧
        (∀ bucket, linkAt t'.file.content bucket =
          if bucketPage bucket = page.pref then page.readPref (bucketPos bucket)
          else linkAt t.file.content bucket) ∧
        (t.file.left = none → t'.file.left = none)) fail t := by
  -- the position that a page carries has six bytes
  have hlt : page.pref ≤ PRef.invalid := by
    have hbytes := ofBe_lt (slice page.content pagePayloadSize 6)
    rw [length_slice (by rw [page.length_eq]; decide)] at hbytes
    unfold PRef.invalid Page.pref Page.readPref
    omega
  -- the pages in front of it are there, or are made now
  have hinit : (initializeUntil page.pref).wp
      (fun _ t' => t'.Wf ∧ page.pref ≤ t'.file.content.length ∧
        t'.file.content.length = max t.file.content.length page.pref ∧
        t.file.content <+: t'.file.content ∧
        (∀ bucket, linkAt t'.file.content bucket = linkAt t.file.content bucket) ∧
        (t.file.left = none → t'.file.left = none)) fail t := by
    unfold initializeUntil
    rw [Method.wp_bind, Method.wp_get]
    apply Method.wp_ite
    · intro hle
      have hle' : t.file.content.length ≤ page.pref := hle
      refine Method.wp_mono (h.initializePages hdvd hlt hfail (h.until_eq ▸ hle')) ?_ fun _ h => h
      rintro _ t' ⟨hwf, hlength, hprefix, hlinks, hleft⟩
      exact ⟨hwf, Nat.le_of_eq hlength.symm, by omega, hprefix, hlinks, hleft⟩
    · intro hle
      have hle' : page.pref < t.file.content.length := Nat.not_le.mp hle
      exact ⟨h, Nat.le_of_lt hle', by omega, List.prefix_rfl, fun _ => rfl, id⟩
  unfold TableFile.updatePage
  refine Method.wp_seq hinit ?_
  rintro _ t' ⟨hwf, hfits, hlength, ⟨more, hmore⟩, hlinks, hleft⟩
  simp only [Method.wp_bind, Method.wp_modify, onFile, Method.wp_on]
  refine wp_writePage hfits (fun left hleft' => ?_) fun hsome =>
    hfail (fun hnone => hsome (hleft hnone)) _
  have hlength' := length_writePage hfits
  refine ⟨⟨hwf.paged.write hfits hdvd, ?_⟩, ?_, slice_writePage_self hfits, ?_, ?_,
    fun hnone => hleft' (hleft hnone)⟩
  · show max t'.initializedUntil _ = (splice _ _ _).length
    rw [hlength', hwf.until_eq]
  · show (splice _ _ _).length = _
    rw [hlength', hlength]
    omega
  · intro p hp hin hne
    show slice (splice _ _ _) p pageSize = _
    rw [slice_writePage_of_ne hfits hdvd hp hne, ← hmore, slice_append hin]
  · intro bucket
    show linkAt (splice _ _ _) bucket = _
    rw [linkAt_write hwf.paged hfits hdvd, hlinks]

end TableFile

end Cashbox.Hammersbald
