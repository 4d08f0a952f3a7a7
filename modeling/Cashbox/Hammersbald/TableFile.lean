import Cashbox.Hammersbald.File

/-!
# The table file and the log file

The table file has the links of the buckets, 681 in a page; in the first page the parameters of
the table are in front of them. Each page ends with its own position. The log file keeps the
pages of the table file as they were when the batch began.
-/

namespace Cashbox.Hammersbald

open Cashbox.Lib

def firstPageHead : Nat := 28

def bucketSize : Nat := 6

def bucketsPerPage : Nat := pagePayloadSize / bucketSize

def bucketsFirstPage : Nat := (pagePayloadSize - firstPageHead) / bucketSize

/-- The loop of `invalid_offsets_page`. -/
def writeInvalid (page : Page) (positions : List Nat) : Outcome Error Page :=
  positions.foldlM (fun page pos => page.writePref pos PRef.invalid) page

/-- A page of links that are not valid. -/
def invalidOffsetsPage (pos : Nat) : Outcome Error Page := do
  let page ← Page.newTablePage pos
  if pos = 0 then
    writeInvalid page ((List.range bucketsFirstPage).map fun o => firstPageHead + o * bucketSize)
  else writeInvalid page ((List.range bucketsPerPage).map fun o => o * bucketSize)

/-! ## The table file -/

/-- The key file. -/
structure TableFile where
  file : File
  initializedUntil : Nat

namespace TableFile

def onFile {α : Type} (m : Method File Error α) : Method TableFile Error α :=
  m.on TableFile.file fun t file => { t with file := file }

def new (file : File) : TableFile := ⟨file, file.len⟩

def len (t : TableFile) : Nat := t.file.len

/-- Where the link of a bucket is. -/
def tableOffset (bucket : Nat) : Nat :=
  if bucket < bucketsFirstPage then bucket * bucketSize + firstPageHead
  else ((bucket - bucketsFirstPage) / bucketsPerPage + 1) * pageSize +
    bucket % bucketsPerPage * bucketSize

def readPage (t : TableFile) (pref : Nat) : Outcome Error (Option Page) := do
  match ← t.file.readPage pref with
  | some page =>
    if page.pref ≠ pref then
      .err (.corrupted s!"table page {pref} does not have the pref of its position")
    else .ok (some page)
  | none => .ok none

def truncate (len : Nat) : Method TableFile Error Unit := do
  Method.modify fun t => { t with initializedUntil := len }
  onFile (File.truncate len)

/-- The loop of `update_page` over the pages that are not there, from `start` up to `pref`. -/
def initializePages (pref start : Nat) : Method TableFile Error Unit :=
  if start < pref then do
    let page ← Method.lift (invalidOffsetsPage start)
    onFile (File.updatePage page)
    Method.modify fun t => { t with initializedUntil := start + pageSize }
    initializePages pref (start + pageSize)
  else pure ()
termination_by pref - start
decreasing_by
  have hpos := pageSize_pos
  omega

/-- The first part of `update_page`. -/
def initializeUntil (pref : Nat) : Method TableFile Error Unit := do
  let t ← Method.get
  if t.len ≤ pref then initializePages pref t.initializedUntil else pure ()

def updatePage (page : Page) : Method TableFile Error Unit := do
  initializeUntil page.pref
  Method.modify fun t =>
    { t with initializedUntil := max t.initializedUntil (page.pref + pageSize) }
  onFile (File.updatePage page)

/-- `BucketIterator::next`: the link of a bucket, if its page is there. -/
def link (t : TableFile) (bucket : Nat) : Option Nat :=
  match t.readPage (PRef.thisPage (tableOffset bucket)) with
  | .ok (some page) => some (page.readPref (PRef.inPagePos (tableOffset bucket)))
  | _ => none

end TableFile

/-! ## The log file -/

structure LogFile where
  file : AsyncFile
  logged : List Nat
  sourceLen : Nat

namespace LogFile

def onFile {α : Type} (m : Method AsyncFile Error α) : Method LogFile Error α :=
  m.on LogFile.file fun l file => { l with file := file }

def new (file : AsyncFile) : LogFile := ⟨file, [], 0⟩

def flush : Method LogFile Error Unit := onFile AsyncFile.flush

/-- The log begins again, with the lengths of the other files. -/
def init (dataLen tableLen linkLen : Nat) : Method LogFile Error Unit := do
  onFile (AsyncFile.truncate 0)
  let first ← Method.lift (Page.new.writePref 0 dataLen)
  let first ← Method.lift (first.writePref 6 tableLen)
  let first ← Method.lift (first.writePref 12 linkLen)
  onFile (AsyncFile.appendPage first)
  flush

/-- A page of the source is logged once, if it was there when the batch began. -/
def logPage (pref : Nat) (source : TableFile) : Method LogFile Error Unit := do
  let l ← Method.get
  if pref < l.sourceLen ∧ pref ∉ l.logged then
    Method.modify fun l => { l with logged := pref :: l.logged }
    match ← Method.lift (source.readPage pref) with
    | some page => onFile (AsyncFile.appendPage page)
    | none => pure ()
  else pure ()

def reset (len : Nat) (l : LogFile) : LogFile := { l with sourceLen := len, logged := [] }

/-- `PagedFileIterator::next` again and again, from page `number` on, `n` times at most. -/
def pagesFrom (l : LogFile) : Nat → Nat → List Page
  | 0, _ => []
  | n + 1, number =>
    match l.file.readPage (number * pageSize) with
    | .ok (some page) => page :: l.pagesFrom n (number + 1)
    | _ => []

/-- The pages that the iterator returns: not more than to 2 ^ 35. -/
def pages (l : LogFile) : List Page := l.pagesFrom (2 ^ 35 / pageSize + 1) 0

end LogFile

end Cashbox.Hammersbald
