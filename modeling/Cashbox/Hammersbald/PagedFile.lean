import Cashbox.Hammersbald.File

/-!
# Files that are appended to

An appender puts bytes behind those of a file. The last page is kept in memory until it is full.
What was appended is read back, from the file or from memory, whatever is appended behind it.
-/

namespace Cashbox.Hammersbald

open Cashbox.Lib

/-- A file that is read and appended to at any position in a page. -/
structure PagedFileAppender where
  file : AsyncFile
  pos : Nat
  page : Option Page

namespace PagedFileAppender

def new (file : AsyncFile) (pos : Nat) : PagedFileAppender := ⟨file, pos, none⟩

def onFile {α : Type} (m : Method AsyncFile Error α) : Method PagedFileAppender Error α :=
  m.on PagedFileAppender.file fun a file => { a with file := file }

/-- How many of `len` bytes fit the page of the position. -/
def space (pos : Nat) (len : Nat) : Nat := min (pageSize - PRef.inPagePos pos) len

theorem space_pos {pos : Nat} {len : Nat} (h : 0 < len) : 0 < space pos len := by
  have hlt := PRef.inPagePos_lt pos
  unfold space
  omega

/-- A page that is full goes to the file. -/
def appendFull (len : Nat) (page : Page) : Method PagedFileAppender Error Unit := do
  let a ← Method.get
  if PRef.inPagePos a.pos + len = pageSize then onFile (AsyncFile.appendPage page) else pure ()

/-- One round of the loop of `append`, for the bytes that fit the page. -/
def appendPart (part : Bytes) : Method PagedFileAppender Error Unit := do
  let a ← Method.get
  let page ← Method.lift ((a.page.getD Page.new).write (PRef.inPagePos a.pos) part)
  Method.modify fun a => { a with page := some page }
  appendFull part.length page
  let pos ← Method.lift (PRef.addAssign a.pos part.length)
  Method.modify fun a => { a with pos := pos }
  Method.modify fun a => if PRef.inPagePos a.pos = 0 then { a with page := none } else a

/-- The loop of `append`, from the position `pos` on. -/
def append.loop (pos : Nat) (buf : Bytes) : Method PagedFileAppender Error Unit :=
  if _h : buf = [] then pure ()
  else do
    appendPart (buf.take (space pos buf.length))
    append.loop (pos + space pos buf.length) (buf.drop (space pos buf.length))
termination_by buf.length
decreasing_by
  have hlen := List.length_pos_iff.mpr _h
  have hpos := @space_pos pos _ hlen
  rw [List.length_drop]
  omega

def append (buf : Bytes) : Method PagedFileAppender Error Nat := do
  let a ← Method.get
  append.loop a.pos buf
  let a ← Method.get
  return a.pos

/-- The last page is read from memory. -/
def readPage (a : PagedFileAppender) (pref : Nat) : Outcome Error (Option Page) :=
  match a.page with
  | some page =>
    if PRef.thisPage pref = PRef.thisPage a.pos then .ok (some page) else a.file.readPage pref
  | none => a.file.readPage pref

/-- Reads `len` bytes page by page; returns the position behind them, too. -/
def read (a : PagedFileAppender) (pos : Nat) (len : Nat) : Outcome Error (Nat × Bytes) :=
  if _h : len = 0 then .ok (pos, [])
  else do
    match ← a.readPage (PRef.thisPage pos) with
    | some page =>
      let part ← page.read (PRef.inPagePos pos) (space pos len)
      let next ← PRef.addAssign pos (space pos len)
      let (behind, rest) ← a.read next (len - space pos len)
      return (behind, part ++ rest)
    | none => .err .io
termination_by len
decreasing_by
  have hpos := @space_pos pos _ (Nat.pos_of_ne_zero _h)
  omega

def truncate (len : Nat) : Method PagedFileAppender Error Unit := do
  Method.modify fun a => { a with pos := len }
  onFile (AsyncFile.truncate len)

/-- The first part of `flush`: the page in memory is appended to the file. -/
def flushPage : Method PagedFileAppender Error Unit := do
  let a ← Method.get
  match a.page with
  | some page =>
    if 0 < PRef.inPagePos a.pos then
      onFile (AsyncFile.appendPage page)
      let pos ← Method.lift (PRef.addAssign a.pos (pageSize - PRef.inPagePos a.pos))
      Method.modify fun a => { a with pos := pos }
    else pure ()
  | none => pure ()

def flush : Method PagedFileAppender Error Unit := do
  flushPage
  Method.modify fun a => { a with page := none }
  onFile AsyncFile.flush

end PagedFileAppender

/-! ## What was appended -/

namespace AsyncFile

theorem content_appendPage (a : AsyncFile) (page : Page) :
    ({ a with queue := a.queue ++ [page] } : AsyncFile).content = a.content ++ page.content := by
  simp [content, queued]

end AsyncFile

namespace PagedFileAppender

/-- The appender has these bytes: the full pages are in the file, and the rest is in the page in
memory, which has zeros behind it. -/
structure Holds (a : PagedFileAppender) (bytes : Bytes) : Prop where
  pos : a.pos = bytes.length
  valid : bytes.length < PRef.invalid
  aligned : pageSize ∣ a.file.file.len
  content : a.file.content = bytes.take (PRef.thisPage bytes.length)
  page : (a.page = none ∧ PRef.inPagePos bytes.length = 0) ∨
    ∃ page, a.page = some page ∧ page.content = bytes.drop (PRef.thisPage bytes.length) ++
      List.replicate (pageSize - PRef.inPagePos bytes.length) 0

variable {a : PagedFileAppender} {bytes : Bytes}

theorem length_drop_thisPage (bytes : Bytes) :
    (bytes.drop (PRef.thisPage bytes.length)).length = PRef.inPagePos bytes.length := by
  have hsplit := PRef.thisPage_add_inPagePos bytes.length
  rw [List.length_drop]
  omega

/-- The page that is written to, which may be a new one. -/
theorem Holds.getD_page (h : a.Holds bytes) :
    (a.page.getD Page.new).content = bytes.drop (PRef.thisPage bytes.length) ++
      List.replicate (pageSize - PRef.inPagePos bytes.length) 0 := by
  rcases h.page with ⟨hnone, hzero⟩ | ⟨page, hsome, hpage⟩
  · have hnil : bytes.drop (PRef.thisPage bytes.length) = [] := by
      apply List.eq_nil_of_length_eq_zero
      rw [length_drop_thisPage, hzero]
    rw [hnone, hnil, hzero]
    rfl
  · rw [hsome]
    exact hpage

/-- Zeros are written over from the front. -/
theorem splice_zeros (front part : Bytes) (n : Nat) :
    splice (front ++ List.replicate n 0) front.length part =
      front ++ part ++ List.replicate (n - part.length) 0 := by
  unfold splice
  rw [List.take_left, List.drop_length_add_append, List.drop_replicate]

/-- A pref is moved, or there is no room behind it. -/
theorem wp_addAssign_bind {σ β : Type} {pref n : Nat} {f : Nat → Method σ Error β}
    {ok : β → σ → Prop} {fail : σ → Prop} {s : σ}
    (hok : pref + n < PRef.invalid → (f (pref + n)).wp ok fail s)
    (hfail : PRef.invalid ≤ pref + n → fail s) :
    (Method.lift (PRef.addAssign pref n) >>= f).wp ok fail s := by
  by_cases hlt : pref + n < PRef.invalid
  · rw [PRef.addAssign_of_lt hlt]
    exact Method.wp_bind.mpr (hok hlt)
  · refine Method.wp_lift_bind (fun pos hadd => ?_) (hfail (Nat.not_lt.mp hlt))
    exact absurd (PRef.addAssign_eq_ok.mp hadd).1 hlt

/-- **One round** appends its part, if there is room for it. -/
theorem Holds.appendPart {part : Bytes} {fail : PagedFileAppender → Prop} (h : a.Holds bytes)
    (hpart : part ≠ []) (hfits : PRef.inPagePos bytes.length + part.length ≤ pageSize)
    (hfail : PRef.invalid ≤ bytes.length + part.length → ∀ a, fail a) :
    (appendPart part).wp (fun _ a' => a'.Holds (bytes ++ part)) fail a := by
  have hpos := List.length_pos_iff.mpr hpart
  have hsplit := PRef.thisPage_add_inPagePos bytes.length
  have hdvd := PRef.dvd_thisPage bytes.length
  have hrest := length_drop_thisPage bytes
  obtain ⟨page, hwrite, hpage⟩ : ∃ page,
      (a.page.getD Page.new).write (PRef.inPagePos a.pos) part = .ok page ∧
        page.content = bytes.drop (PRef.thisPage bytes.length) ++ part ++
          List.replicate (pageSize - PRef.inPagePos bytes.length - part.length) 0 := by
    -- behind the open page there are only zeros, over which the part is written
    have hsplice := splice_zeros (bytes.drop (PRef.thisPage bytes.length)) part
      (pageSize - PRef.inPagePos bytes.length)
    rw [hrest] at hsplice
    unfold Page.write
    rw [h.pos, dif_pos hfits]
    refine ⟨_, rfl, ?_⟩
    show splice (a.page.getD Page.new).content _ part = _
    rw [h.getD_page, hsplice]
  have hfront : bytes.take (PRef.thisPage bytes.length) ++
      (bytes.drop (PRef.thisPage bytes.length) ++ part) = bytes ++ part := by
    rw [← List.append_assoc, List.take_append_drop]
  unfold PagedFileAppender.appendPart appendFull
  simp only [Method.wp_bind, Method.wp_get, hwrite, Method.wp_lift_ok, Method.wp_modify]
  rw [h.pos]
  by_cases hfull : PRef.inPagePos bytes.length + part.length = pageSize
  · -- the page is full and goes to the file
    have hlength : PRef.thisPage bytes.length + pageSize = (bytes ++ part).length := by
      rw [List.length_append]
      omega
    have hdvd' : pageSize ∣ (bytes ++ part).length := by
      rw [← hlength]
      exact Nat.dvd_add hdvd (dvd_refl _)
    have hzero : PRef.inPagePos (bytes ++ part).length = 0 := Nat.mod_eq_zero_of_dvd hdvd'
    have hthis : PRef.thisPage (bytes ++ part).length = (bytes ++ part).length :=
      PRef.thisPage_eq hdvd' pageSize_pos (Nat.add_zero _)
    have hnone : pageSize - PRef.inPagePos bytes.length - part.length = 0 := by omega
    rw [hnone, List.replicate_zero, List.append_nil] at hpage
    rw [if_pos hfull]
    simp only [onFile, AsyncFile.appendPage, Method.wp_on, Method.wp_modify]
    refine wp_addAssign_bind (fun hlt => ?_) fun hroom => hfail hroom _
    rw [← List.length_append] at hlt ⊢
    simp only [Method.wp_bind, Method.wp_modify]
    rw [if_pos hzero]
    refine ⟨rfl, hlt, h.aligned, ?_, .inl ⟨rfl, hzero⟩⟩
    rw [AsyncFile.content_appendPage, h.content, hpage, hfront, hthis, List.take_length]
  · -- the page stays open
    have hlt' : PRef.inPagePos bytes.length + part.length < pageSize := by omega
    have hlength : PRef.thisPage bytes.length + (PRef.inPagePos bytes.length + part.length) =
        (bytes ++ part).length := by
      rw [List.length_append]
      omega
    have hin : PRef.inPagePos (bytes ++ part).length =
        PRef.inPagePos bytes.length + part.length := PRef.inPagePos_eq hdvd hlt' hlength
    have hthis : PRef.thisPage (bytes ++ part).length = PRef.thisPage bytes.length :=
      PRef.thisPage_eq hdvd hlt' hlength
    have hle := PRef.thisPage_le bytes.length
    rw [if_neg hfull, Method.wp_pure]
    refine wp_addAssign_bind (fun hlt => ?_) fun hroom => hfail hroom _
    rw [← List.length_append] at hlt ⊢
    simp only [Method.wp_bind, Method.wp_modify]
    rw [if_neg (by rw [hin]; omega)]
    refine ⟨rfl, hlt, h.aligned, ?_, .inr ⟨page, rfl, ?_⟩⟩
    · rw [hthis, List.take_append_of_le_length hle]
      exact h.content
    · rw [hthis, hin, List.drop_append_of_le_length hle, hpage, Nat.sub_sub]

/-- **Appending** puts the bytes behind those that are there, if there is room for them. -/
theorem Holds.append_loop {fail : PagedFileAppender → Prop} {buf : Bytes}
    (hfail : PRef.invalid ≤ bytes.length + buf.length → ∀ a, fail a) (h : a.Holds bytes) :
    (append.loop bytes.length buf).wp (fun _ a' => a'.Holds (bytes ++ buf)) fail a := by
  -- the induction is on the bytes that are left
  induction hn : buf.length using Nat.strong_induction_on generalizing a bytes buf with
  | _ n ih =>
    unfold append.loop
    split_ifs with hnil
    · rw [hnil, List.append_nil]
      exact h
    · have hpos := List.length_pos_iff.mpr hnil
      have hspace := @space_pos bytes.length _ hpos
      have hin := PRef.inPagePos_lt bytes.length
      have hle : space bytes.length buf.length ≤ buf.length := Nat.min_le_right _ _
      have hlength : (buf.take (space bytes.length buf.length)).length =
          space bytes.length buf.length := by
        rw [List.length_take]
        omega
      refine Method.wp_seq (h.appendPart ?_ ?_ fun hroom => hfail (by omega)) fun _ a' ha' => ?_
      · apply List.length_pos_iff.mp
        omega
      · rw [hlength]
        unfold space
        omega
      · have hshort : (buf.drop (space bytes.length buf.length)).length < n := by
          rw [List.length_drop]
          omega
        have hfail' : PRef.invalid ≤ (bytes ++ buf.take (space bytes.length buf.length)).length +
            (buf.drop (space bytes.length buf.length)).length → ∀ a, fail a := fun hroom =>
          hfail (by rw [List.length_append, List.length_take, List.length_drop] at hroom; omega)
        have hrest := ih _ hshort hfail' ha' rfl
        rw [List.length_append, hlength, List.append_assoc, List.take_append_drop] at hrest
        exact hrest

theorem Holds.append {fail : PagedFileAppender → Prop} {buf : Bytes}
    (hfail : PRef.invalid ≤ bytes.length + buf.length → ∀ a, fail a) (h : a.Holds bytes) :
    (append buf).wp (fun _ a' => a'.Holds (bytes ++ buf)) fail a := by
  unfold PagedFileAppender.append
  rw [Method.wp_bind, Method.wp_get, h.pos]
  refine Method.wp_seq (h.append_loop hfail) fun _ a' ha' => ?_
  rw [Method.wp_bind, Method.wp_get, Method.wp_pure]
  exact ha'

/-- Appending does not touch the file of the operating system. -/
theorem keeps_appendPart (part : Bytes) :
    Method.Keeps (fun a => a.file.file) (PagedFileAppender.appendPart part) := by
  unfold PagedFileAppender.appendPart appendFull
  refine .bind (fun _ => rfl) fun a => .bind (.lift _) fun page => .bind (fun _ => rfl) fun _ => ?_
  refine .bind (.bind (fun _ => rfl) fun a => .ite (fun _ => rfl) (.pure ())) fun _ => ?_
  refine .bind (.lift _) fun pos => .bind (fun _ => rfl) fun _ => fun a => ?_
  show (ite _ _ _ : PagedFileAppender).file.file = _
  split_ifs <;> rfl

theorem keeps_append_loop (pos : Nat) (buf : Bytes) :
    Method.Keeps (fun a => a.file.file) (append.loop pos buf) := by
  -- the induction is on the bytes that are left
  induction hn : buf.length using Nat.strong_induction_on generalizing pos buf with
  | _ n ih =>
    unfold append.loop
    split_ifs with hnil
    · exact .pure ()
    · have hpos := List.length_pos_iff.mpr hnil
      have hspace := @space_pos pos _ hpos
      refine .bind (keeps_appendPart _) fun _ => ih _ ?_ _ _ rfl
      rw [List.length_drop]
      omega

theorem keeps_append (buf : Bytes) : Method.Keeps (fun a => a.file.file) (append buf) :=
  .bind (fun _ => rfl) fun _ => .bind (keeps_append_loop _ _) fun _ =>
    .bind (fun _ => rfl) fun _ => .pure _

/-! ### Reading -/

/-- **A page** that has a byte which was appended is read, from the file or from memory. -/
theorem Holds.readPage (h : a.Holds bytes) {p : Nat} (hp : p < bytes.length) :
    ∃ page, a.readPage (PRef.thisPage p) = .ok (some page) ∧
      ∀ len, PRef.inPagePos p + len ≤ pageSize → p + len ≤ bytes.length →
        slice page.content (PRef.inPagePos p) len = slice bytes p len := by
  have hsplit := PRef.thisPage_add_inPagePos p
  have hfull := PRef.thisPage_add_inPagePos bytes.length
  have hdvd := PRef.dvd_thisPage p
  have hthis : PRef.thisPage (PRef.thisPage p) = PRef.thisPage p :=
    PRef.thisPage_eq hdvd pageSize_pos (Nat.add_zero _)
  have hmono : PRef.thisPage p ≤ PRef.thisPage bytes.length :=
    PRef.thisPage_mono (Nat.le_of_lt hp)
  have hfile : PRef.thisPage p < PRef.thisPage bytes.length →
      ∃ page, a.file.readPage (PRef.thisPage p) = .ok (some page) ∧
        ∀ len, PRef.inPagePos p + len ≤ pageSize → p + len ≤ bytes.length →
          slice page.content (PRef.inPagePos p) len = slice bytes p len := by
    intro hlt
    have hle := PRef.thisPage_add_le hlt
    have hlength : a.file.content.length = PRef.thisPage bytes.length := by
      rw [h.content, List.length_take]
      omega
    obtain ⟨page, hread, hcontent⟩ :=
      AsyncFile.readPage_of_le h.aligned hdvd (by rw [hlength]; exact hle)
    refine ⟨page, hread, fun len hlen _ => ?_⟩
    rw [hcontent, h.content, slice_slice hlen, hsplit, slice_take (by omega)]
  unfold PagedFileAppender.readPage
  rcases h.page with ⟨hnone, hzero⟩ | ⟨page, hsome, hpage⟩
  · rw [hnone]
    refine hfile (Nat.lt_of_le_of_ne hmono fun heq => ?_)
    -- without a page in memory the bytes end with a page
    have hle := PRef.thisPage_le p
    omega
  · rw [hsome]
    simp only [hthis, h.pos]
    by_cases heq : PRef.thisPage p = PRef.thisPage bytes.length
    · rw [if_pos heq]
      refine ⟨page, rfl, fun len _ hle => ?_⟩
      have hrest := length_drop_thisPage bytes
      rw [hpage, slice_append (by omega)]
      unfold slice
      rw [List.drop_drop, ← heq, hsplit]
    · rw [if_neg heq]
      exact hfile (Nat.lt_of_le_of_ne hmono heq)

/-- **Reading** gives back what was appended. -/
theorem Holds.read (h : a.Holds bytes) {p len : Nat} (hle : p + len ≤ bytes.length) :
    a.read p len = .ok (p + len, slice bytes p len) := by
  -- the induction is on the bytes that are left to read
  induction len using Nat.strong_induction_on generalizing p with
  | _ len ih =>
    unfold PagedFileAppender.read
    split_ifs with hzero
    · rw [hzero]
      rfl
    · have hspace := @space_pos p len (by omega)
      have hmin : space p len ≤ len := Nat.min_le_right _ _
      have hin : PRef.inPagePos p + space p len ≤ pageSize := by
        have hlt := PRef.inPagePos_lt p
        unfold space
        omega
      obtain ⟨page, hpage, hslice⟩ := h.readPage (p := p) (by omega)
      have hvalid := h.valid
      have hrest := ih (len - space p len) (by omega) (p := p + space p len) (by omega)
      have hsum : p + space p len + (len - space p len) = p + len := by omega
      rw [hpage, Outcome.ok_bind]
      simp only [Page.read_of_le hin, Outcome.ok_bind, PRef.addAssign_of_lt (by omega :
        p + space p len < PRef.invalid), hrest, hslice _ hin (by omega), hsum]
      have hadd := slice_add bytes p (space p len) (len - space p len)
      rw [Nat.add_sub_cancel' hmin] at hadd
      rw [hadd]
      rfl

/-! ### Flushing -/

/-- Where the bytes end with a page a flush writes all of them. -/
theorem Holds.flush {fail : PagedFileAppender → Prop}
    (hfail : a.file.file.left ≠ none → ∀ a, fail a) (h : a.Holds bytes)
    (hzero : PRef.inPagePos bytes.length = 0) :
    PagedFileAppender.flush.wp
      (fun _ a' => a'.Holds bytes ∧ a'.page = none ∧ a'.file.file.content = bytes ∧
        a'.file.queue = [] ∧ (a.file.file.left = none → a'.file.file.left = none)) fail a := by
  have hthis : PRef.thisPage bytes.length = bytes.length := by
    have hsplit := PRef.thisPage_add_inPagePos bytes.length
    omega
  have hpage : flushPage.wp (fun _ a' => a' = a) fail a := by
    unfold flushPage
    rw [Method.wp_bind, Method.wp_get]
    cases hpage : a.page with
    | none => rfl
    | some page =>
      simp only [h.pos, hzero]
      rfl
  unfold PagedFileAppender.flush
  refine Method.wp_seq hpage ?_
  rintro _ _ rfl
  simp only [onFile, Method.wp_bind, Method.wp_modify, Method.wp_on]
  refine Method.wp_mono (AsyncFile.flush_spec fun hleft _ => hfail hleft _) ?_ fun _ h => h
  rintro _ file ⟨hcontent, hqueue, haligned, hleft⟩
  have hbytes : file.content = bytes := by
    rw [hcontent, h.content, hthis, List.take_length]
  refine ⟨⟨h.pos, h.valid, haligned h.aligned, ?_, .inl ⟨rfl, hzero⟩⟩, trivial, ?_, hqueue, hleft⟩
  · rw [hthis, List.take_length]
    exact hbytes
  · unfold AsyncFile.content at hbytes
    rw [hqueue] at hbytes
    simpa [AsyncFile.queued] using hbytes

end PagedFileAppender

end Cashbox.Hammersbald
