import Cashbox.Lib.Bytes
import Cashbox.Lib.Splice
import Cashbox.Lib.Wp

/-!
# Files of pages

The store reads and writes its files by pages of 4096 bytes. A write to a file of the operating
system may fail, and then it fails at any time: the number of writes that are left before that is
part of the file, or there is no such number. Files that are only appended to are written in the
background: the pages that were not written yet are in a queue.
-/

namespace Cashbox.Hammersbald

open Cashbox.Lib

/-- Errors returned by this library. -/
inductive Error where
  | corrupted (msg : String)
  | keyTooLong
  /-- An error of the operating system. -/
  | io
  deriving DecidableEq, Repr

/-! ## Bytes -/

/-- `&bytes[pos..pos + len]` -/
def index (bytes : Bytes) (pos len : Nat) : Outcome Error Bytes :=
  if pos + len ≤ bytes.length then .ok (slice bytes pos len) else .panic .indexOutOfBounds

/-- `BigEndian::write_uint`, which asserts that the number fits `k` bytes. -/
def writeUint (k n : Nat) : Outcome Error Bytes :=
  if n < 256 ^ k then .ok (beBytes k n) else .panic .assertFailed

theorem index_of_le {bytes : Bytes} {pos len : Nat} (h : pos + len ≤ bytes.length) :
    index bytes pos len = .ok (slice bytes pos len) := if_pos h

theorem writeUint_of_lt {k n : Nat} (h : n < 256 ^ k) : writeUint k n = .ok (beBytes k n) :=
  if_pos h

theorem writeUint_eq_ok {k n : Nat} {bytes : Bytes} :
    writeUint k n = .ok bytes ↔ n < 256 ^ k ∧ beBytes k n = bytes := by
  unfold writeUint
  split_ifs with h <;> simp [h]

/-! ## References -/

def pageSize : Nat := 4096

def pagePayloadSize : Nat := 4090

theorem pageSize_pos : 0 < pageSize := by decide

/-! A pref is a pointer to persistent data, the number of a byte of a file. -/

namespace PRef

def invalid : Nat := 0xffffffffffff

/-- Is this a valid pref? -/
def IsValid (pref : Nat) : Prop := pref < invalid

instance (pref : Nat) : Decidable (IsValid pref) := inferInstanceAs (Decidable (pref < invalid))

/-- `+=`, which checks that the pref stays valid in a build with debug assertions. -/
def addAssign (pref n : Nat) : Outcome Error Nat :=
  if pref + n < invalid then .ok (pref + n) else .panic .explicit

/-- Pref of the page of this pref. -/
def thisPage (pref : Nat) : Nat := pref / pageSize * pageSize

/-- Position within the pref's page. -/
def inPagePos (pref : Nat) : Nat := pref % pageSize

theorem thisPage_add_inPagePos (pref : Nat) : thisPage pref + inPagePos pref = pref :=
  Nat.div_add_mod' pref pageSize

theorem inPagePos_lt (pref : Nat) : inPagePos pref < pageSize := Nat.mod_lt _ pageSize_pos

theorem inPagePos_eq {pref start pos : Nat} (hstart : pageSize ∣ start) (hlt : pos < pageSize)
    (h : start + pos = pref) : inPagePos pref = pos := by
  obtain ⟨k, rfl⟩ := hstart
  unfold inPagePos
  rw [← h, Nat.mul_add_mod, Nat.mod_eq_of_lt hlt]

theorem thisPage_eq {pref start pos : Nat} (hstart : pageSize ∣ start) (hlt : pos < pageSize)
    (h : start + pos = pref) : thisPage pref = start := by
  have hsplit := thisPage_add_inPagePos pref
  rw [inPagePos_eq hstart hlt h] at hsplit
  omega

theorem dvd_thisPage (pref : Nat) : pageSize ∣ thisPage pref := Nat.dvd_mul_left _ _

theorem thisPage_le (pref : Nat) : thisPage pref ≤ pref := Nat.div_mul_le_self _ _

/-- A page that begins before another one ends before it. -/
theorem thisPage_add_le {pref pref' : Nat} (h : thisPage pref < thisPage pref') :
    thisPage pref + pageSize ≤ thisPage pref' := by
  unfold thisPage at h ⊢
  have hlt := Nat.lt_of_mul_lt_mul_right h
  rw [← Nat.succ_mul]
  exact Nat.mul_le_mul_right pageSize hlt

theorem thisPage_mono {pref pref' : Nat} (h : pref ≤ pref') : thisPage pref ≤ thisPage pref' :=
  Nat.mul_le_mul_right pageSize (Nat.div_le_div_right h)

theorem addAssign_of_lt {pref n : Nat} (h : pref + n < invalid) :
    addAssign pref n = .ok (pref + n) := if_pos h

theorem addAssign_eq_ok {pref pref' n : Nat} :
    addAssign pref n = .ok pref' ↔ pref + n < invalid ∧ pref + n = pref' := by
  unfold addAssign
  split_ifs with h <;> simp [h]

end PRef

/-! ## Pages -/

/-- A page of the persistent files. -/
structure Page where
  content : Bytes
  length_eq : content.length = pageSize
  deriving DecidableEq

namespace Page

/-- Create an empty page. -/
def new : Page := ⟨List.replicate pageSize 0, List.length_replicate⟩

/-- Write slice at a position. -/
def write (page : Page) (pos : Nat) (bytes : Bytes) : Outcome Error Page :=
  if h : pos + bytes.length ≤ pageSize then
    .ok ⟨splice page.content pos bytes,
      (length_splice_of_le (page.length_eq ▸ h)).trans page.length_eq⟩
  else .panic .indexOutOfBounds

/-- Read at position. -/
def read (page : Page) (pos len : Nat) : Outcome Error Bytes := index page.content pos len

def writePref (page : Page) (pos : Nat) (pref : Nat) : Outcome Error Page := do
  let buf ← writeUint 6 pref
  page.write pos buf

/-- Read a pref at a page position. -/
def readPref (page : Page) (pos : Nat) : Nat := ofBe (slice page.content pos 6)

def writeU64 (page : Page) (pos : Nat) (n : UInt64) : Outcome Error Page :=
  page.write pos (beBytes 8 n.toNat)

def readU64 (page : Page) (pos : Nat) : UInt64 := UInt64.ofNat (ofBe (slice page.content pos 8))

/-- Interpret the last 6 bytes as a pref. -/
def pref (page : Page) : Nat := page.readPref pagePayloadSize

/-- Create an empty page for a position in the table file. -/
def newTablePage (pref : Nat) : Outcome Error Page := new.writePref pagePayloadSize pref

variable {page page' : Page} {pos start len : Nat} {bytes : Bytes}

theorem write_eq_ok : page.write pos bytes = .ok page' ↔
    pos + bytes.length ≤ pageSize ∧ page'.content = splice page.content pos bytes := by
  unfold write
  cases page'
  split_ifs with h
  · simp [h, eq_comm]
  · simp [h]

theorem read_of_le (h : pos + len ≤ pageSize) :
    page.read pos len = .ok (slice page.content pos len) :=
  index_of_le (page.length_eq ▸ h)

theorem writePref_eq_ok {pref : Nat} : page.writePref pos pref = .ok page' ↔
    pref < 256 ^ 6 ∧ page.write pos (beBytes 6 pref) = .ok page' := by
  unfold writePref
  rw [Outcome.bind_eq_ok]
  constructor
  · rintro ⟨buf, hbuf, hwrite⟩
    obtain ⟨hlt, rfl⟩ := writeUint_eq_ok.mp hbuf
    exact ⟨hlt, hwrite⟩
  · intro h
    exact ⟨_, writeUint_of_lt h.1, h.2⟩

/-- What is beside the part that was written is read as before. -/
theorem slice_write (h : page.write pos bytes = .ok page')
    (hbeside : start + len ≤ pos ∨ pos + bytes.length ≤ start) :
    slice page'.content start len = slice page.content start len := by
  obtain ⟨hle, hcontent⟩ := write_eq_ok.mp h
  rw [hcontent, slice_splice_of_disjoint _ hbeside]
  have hlength := page.length_eq
  omega

/-- What was written is read back. -/
theorem slice_write_self (h : page.write pos bytes = .ok page') :
    slice page'.content pos bytes.length = bytes := by
  obtain ⟨hle, hcontent⟩ := write_eq_ok.mp h
  have hlength := page.length_eq
  rw [hcontent, slice_splice_self (by omega)]

/-- A pref that was written is read back. -/
theorem readPref_writePref {pref : Nat} (h : page.writePref pos pref = .ok page') :
    page'.readPref pos = pref := by
  obtain ⟨hlt, hwrite⟩ := writePref_eq_ok.mp h
  have hself := slice_write_self hwrite
  rw [beBytes_length] at hself
  unfold readPref
  rw [hself, ofBe_beBytes 6 pref hlt]

/-- A pref beside it is read as before. -/
theorem readPref_writePref_of_disjoint {pref : Nat} (h : page.writePref pos pref = .ok page')
    (hbeside : start + 6 ≤ pos ∨ pos + 6 ≤ start) : page'.readPref start = page.readPref start := by
  obtain ⟨_, hwrite⟩ := writePref_eq_ok.mp h
  unfold readPref
  rw [slice_write hwrite (by rw [beBytes_length]; exact hbeside)]

theorem readU64_writeU64 {n : UInt64} (h : page.writeU64 pos n = .ok page') :
    page'.readU64 pos = n := by
  have hself := slice_write_self h
  rw [beBytes_length] at hself
  unfold readU64
  rw [hself, ofBe_beBytes 8 n.toNat n.toNat_lt]
  exact UInt64.ofNat_toNat

end Page

/-! ## Files -/

/-- A file of the operating system. -/
structure File where
  content : Bytes
  left : Option Nat
  deriving DecidableEq

namespace File

def len (file : File) : Nat := file.content.length

/-- A change of the file, if there is a write left. -/
def change (f : Bytes → Bytes) : Method File Error Unit where
  run file :=
    match file.left with
    | some 0 => (file, .err .io)
    | some (n + 1) => (⟨f file.content, some n⟩, .ok ())
    | none => (⟨f file.content, none⟩, .ok ())

/-- The page at a pref, if the file is as long. -/
def readPage (file : File) (pref : Nat) : Outcome Error (Option Page) :=
  if pref < file.len then
    if h : pref + pageSize ≤ file.content.length then
      .ok (some ⟨slice file.content pref pageSize, length_slice h⟩)
    else .err .io
  else .ok none

def appendPage (page : Page) : Method File Error Unit := change (· ++ page.content)

/-- Writes a page at its pref; a gap in front of it is filled with zeros. -/
def updatePage (page : Page) : Method File Error Unit :=
  change fun content =>
    splice (content ++ List.replicate (page.pref - content.length) 0) page.pref page.content

/-- Cuts the file, or fills it up with zeros. -/
def truncate (len : Nat) : Method File Error Unit :=
  if len % pageSize ≠ 0 then
    Method.lift (.err (.corrupted s!"truncate not to page boundary {len}"))
  else change fun content => content.take len ++ List.replicate (len - content.length) 0

/-- A change is made, or the file stays as it is. It is made where no write fails. -/
theorem wp_change {f : Bytes → Bytes} {ok : Unit → File → Prop} {fail : File → Prop} {file : File}
    (hok : ∀ left, (file.left = none → left = none) → ok () ⟨f file.content, left⟩)
    (hfail : file.left ≠ none → fail file) : (change f).wp ok fail file := by
  rcases file with ⟨content, _ | _ | n⟩
  · exact hok none fun _ => rfl
  · exact hfail (Option.some_ne_none 0)
  · exact hok (some n) fun h => absurd h (Option.some_ne_none (n + 1))

end File

/-! ## Files that are written in the background -/

/-- An append only file written in background. -/
structure AsyncFile where
  file : File
  queue : List Page
  deriving DecidableEq

namespace AsyncFile

def onFile {α : Type} (m : Method File Error α) : Method AsyncFile Error α :=
  m.on AsyncFile.file fun a file => { a with file := file }

def new (file : File) : AsyncFile := ⟨file, []⟩

def readInQueue (a : AsyncFile) (pref : Nat) : Option Page :=
  if a.file.len ≤ pref then a.queue[(pref - a.file.len) / pageSize]? else none

def readPage (a : AsyncFile) (pref : Nat) : Outcome Error (Option Page) :=
  match a.readInQueue pref with
  | some page => .ok (some page)
  | none => a.file.readPage pref

/-- The length without the pages of the queue. -/
def len (a : AsyncFile) : Nat := a.file.len

def truncate (len : Nat) : Method AsyncFile Error Unit := onFile (File.truncate len)

def appendPage (page : Page) : Method AsyncFile Error Unit :=
  Method.modify fun a => { a with queue := a.queue ++ [page] }

/-- The loop of `background` over the queue; where a page can not be written the thread ends with
a panic. -/
def writeQueue : List Page → Method AsyncFile Error Unit
  | [] => pure ()
  | page :: queue => do
    match ← (onFile (File.appendPage page)).attempt with
    | .ok _ =>
      Method.modify fun a => { a with queue := queue }
      writeQueue queue
    | .error _ => Method.lift (.panic .unwrapFailed)

/-- The background writes the pages of the queue. -/
def background : Method AsyncFile Error Unit := do
  let a ← Method.get
  writeQueue a.queue

/-- Waits until the background has written the queue. -/
def flush : Method AsyncFile Error Unit := background

/-! ### Contents -/

/-- The pages of the queue as bytes. -/
def queued (pages : List Page) : Bytes := (pages.map Page.content).flatten

/-- What a reader of the file sees. -/
def content (a : AsyncFile) : Bytes := a.file.content ++ queued a.queue

theorem length_queued (pages : List Page) :
    (queued pages).length = pages.length * pageSize := by
  unfold queued
  rw [length_flatten_of_forall (List.forall_mem_map.mpr fun page _ => page.length_eq),
    List.length_map]

/-- The pages of the queue are the blocks of its bytes. -/
theorem slice_queued {pages : List Page} {i : Nat} {page : Page} (h : pages[i]? = some page) :
    slice (queued pages) (i * pageSize) pageSize = page.content := by
  apply slice_flatten (List.forall_mem_map.mpr fun page _ => page.length_eq)
  rw [List.getElem?_map, h]
  rfl

/-- A page is read from the file or from the queue. -/
theorem readPage_of_le {a : AsyncFile} {pref : Nat} (haligned : pageSize ∣ a.file.len)
    (hpref : pageSize ∣ pref) (h : pref + pageSize ≤ a.content.length) :
    ∃ page, a.readPage pref = .ok (some page) ∧ page.content = slice a.content pref pageSize := by
  obtain ⟨k, hk⟩ := haligned
  obtain ⟨p, rfl⟩ := hpref
  have hpos := pageSize_pos
  have hlen : a.content.length = a.file.len + a.queue.length * pageSize := by
    rw [content, List.length_append, length_queued]
    rfl
  unfold readPage readInQueue
  by_cases hfile : a.file.len ≤ pageSize * p
  · -- the page is in the queue
    have hkp : k ≤ p := Nat.le_of_mul_le_mul_left (hk ▸ hfile) hpos
    have hindex : (pageSize * p - a.file.len) / pageSize = p - k := by
      rw [hk, ← Nat.mul_sub, Nat.mul_div_cancel_left _ hpos]
    have hlt : p - k < a.queue.length := by
      rw [hlen, hk] at h
      have hle : pageSize * (p + 1) ≤ pageSize * (k + a.queue.length) := by
        rw [Nat.mul_add, Nat.mul_add, Nat.mul_one, Nat.mul_comm pageSize a.queue.length]
        exact h
      have hle := Nat.le_of_mul_le_mul_left hle hpos
      omega
    rw [if_pos hfile, hindex, List.getElem?_eq_getElem hlt]
    refine ⟨_, rfl, ?_⟩
    rw [← slice_queued (List.getElem?_eq_getElem hlt)]
    have hsub : pageSize * p = a.file.content.length + (p - k) * pageSize := by
      have hk' : a.file.content.length = pageSize * k := hk
      rw [hk', Nat.mul_comm _ pageSize, ← Nat.mul_add]
      congr 1
      omega
    unfold slice content
    rw [hsub, List.drop_length_add_append]
  · -- the page is in the file
    have hkp : p < k := by
      by_contra hle
      exact hfile (hk ▸ Nat.mul_le_mul_left pageSize (Nat.not_lt.mp hle))
    have hin : pageSize * p + pageSize ≤ a.file.content.length := by
      have hk' : a.file.content.length = pageSize * k := hk
      rw [hk', ← Nat.mul_succ]
      exact Nat.mul_le_mul_left pageSize hkp
    have hlt : pageSize * p < a.file.len := Nat.not_le.mp hfile
    rw [if_neg hfile]
    unfold File.readPage
    rw [if_pos hlt, dif_pos hin]
    exact ⟨_, rfl, (slice_append hin).symm⟩

/-- Behind the last page there is none. -/
theorem readPage_of_length_le {a : AsyncFile} {pref : Nat} (haligned : pageSize ∣ a.file.len)
    (hpref : pageSize ∣ pref) (h : a.content.length ≤ pref) : a.readPage pref = .ok none := by
  obtain ⟨k, hk⟩ := haligned
  obtain ⟨p, rfl⟩ := hpref
  have hlen : a.content.length = pageSize * k + a.queue.length * pageSize := by
    rw [content, List.length_append, length_queued, ← hk]
    rfl
  have hle : pageSize * (k + a.queue.length) ≤ pageSize * p := by
    rw [Nat.mul_add, Nat.mul_comm pageSize a.queue.length, ← hlen]
    exact h
  have hkp := Nat.le_of_mul_le_mul_left hle pageSize_pos
  have hindex : (pageSize * p - a.file.len) / pageSize = p - k := by
    rw [hk, ← Nat.mul_sub, Nat.mul_div_cancel_left _ pageSize_pos]
  have hfile : a.file.len ≤ pageSize * p := by
    rw [hk]
    exact Nat.mul_le_mul_left pageSize (by omega)
  unfold readPage readInQueue
  rw [if_pos hfile, hindex, List.getElem?_eq_none (by omega)]
  exact if_neg (Nat.not_lt.mpr hfile)

/-! ### Writing the queue -/

/-- What a reader sees does not depend on the background. -/
theorem writeQueue_spec {fail : AsyncFile → Prop} (queue : List Page) {a : AsyncFile}
    (hfail : a.file.left ≠ none → ∀ a, fail a) (hqueue : a.queue = queue) :
    (writeQueue queue).wp
      (fun _ a' => a'.content = a.content ∧ a'.queue = [] ∧
        (pageSize ∣ a.file.len → pageSize ∣ a'.file.len) ∧
        (a.file.left = none → a'.file.left = none)) fail a := by
  induction queue generalizing a with
  | nil => exact ⟨rfl, hqueue, id, id⟩
  | cons page queue ih =>
    have hlen (haligned : pageSize ∣ a.file.len) :
        pageSize ∣ (a.file.content ++ page.content).length := by
      rw [List.length_append, page.length_eq]
      exact Nat.dvd_add haligned (dvd_refl _)
    have hcontent : a.content = a.file.content ++ page.content ++ queued queue := by
      unfold content
      rw [hqueue]
      simp [queued]
    unfold writeQueue
    rw [Method.wp_bind]
    apply Method.wp_attempt
    unfold onFile File.appendPage
    rw [Method.wp_on]
    refine File.wp_change (fun left hleft => ?_) fun hleft =>
      ⟨fun e => hfail hleft _, hfail hleft _⟩
    rw [hcontent]
    refine Method.wp_mono (ih (fun hsome => hfail fun hnone => hsome (hleft hnone)) rfl) ?_
      fun _ h => h
    rintro _ a' ⟨hcontent', hqueue', haligned', hleft'⟩
    exact ⟨hcontent', hqueue', fun haligned => haligned' (hlen haligned),
      fun hnone => hleft' (hleft hnone)⟩

/-- **The queue** is empty after a flush. -/
theorem flush_spec {fail : AsyncFile → Prop} {a : AsyncFile}
    (hfail : a.file.left ≠ none → ∀ a, fail a) :
    flush.wp (fun _ a' => a'.content = a.content ∧ a'.queue = [] ∧
      (pageSize ∣ a.file.len → pageSize ∣ a'.file.len) ∧
      (a.file.left = none → a'.file.left = none)) fail a := by
  unfold flush background
  rw [Method.wp_bind, Method.wp_get]
  exact writeQueue_spec a.queue hfail rfl

end AsyncFile

end Cashbox.Hammersbald
