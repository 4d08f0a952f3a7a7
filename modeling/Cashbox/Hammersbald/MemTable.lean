import Cashbox.Hammersbald.DataFile
import Cashbox.Hammersbald.TableFile
import Cashbox.Lib.LinearHash

/-!
# The memtable

The hash table of the store. Its buckets have the slots of the keys; the slots of a bucket are
read from the link file when they are needed, and written to it at the end of a batch. The table
grows by one bucket at a time, and the bucket that is split moves what no longer belongs to it.
-/

namespace Cashbox.Hammersbald

open Cashbox.Lib

/-! ## Data -/

structure Bucket where
  stored : Nat
  slots : Option (List Slot)
  deriving DecidableEq

def Bucket.default : Bucket := ⟨PRef.invalid, none⟩

/-- The buckets that were modified in the batch: bits in words of 64. -/
structure Dirty where
  bits : List Bool
  used : Nat

namespace Dirty

def new (n : Nat) : Dirty := ⟨List.replicate ((n / 64 + 1) * 64) false, n⟩

def set (d : Dirty) (n : Nat) : Outcome Error Dirty :=
  if n < d.bits.length then .ok { d with bits := d.bits.set n true }
  else .panic .indexOutOfBounds

def get (d : Dirty) (n : Nat) : Outcome Error Bool :=
  match d.bits[n]? with
  | some bit => .ok bit
  | none => .panic .indexOutOfBounds

def clear (d : Dirty) : Dirty := { d with bits := List.replicate d.bits.length false }

def isDirty (d : Dirty) : Bool := d.bits.any id

def append (d : Dirty) : Outcome Error Dirty :=
  if d.bits.length ≤ d.used + 1 then
    .ok ⟨d.bits ++ (true :: List.replicate 63 false), d.used + 1⟩
  else ({ d with used := d.used + 1 } : Dirty).set (d.used + 1)

/-- The numbers of the dirty buckets. -/
def buckets (d : Dirty) : Outcome Error (List Nat) := do
  let bits ← (List.range d.used).mapM fun n => do return (n, ← d.get n)
  return (bits.filter Prod.snd).map Prod.fst

end Dirty

structure MemTable where
  step : Nat
  forgotten : Nat
  logMod : Nat
  sip0 : UInt64
  sip1 : UInt64
  buckets : List Bucket
  dirty : Dirty
  logFile : LogFile
  dataFile : DataFile
  tableFile : TableFile
  linkFile : DataFile
  bucketFillTarget : Nat

def initBuckets : Nat := 512

def initLogmod : Nat := 8

namespace MemTable

def new (sip0 sip1 : UInt64) (logFile : LogFile) (tableFile : TableFile) (dataFile : DataFile)
    (linkFile : DataFile) (bucketFillTarget : Nat) : MemTable where
  step := 0
  forgotten := 0
  logMod := initLogmod
  sip0 := sip0
  sip1 := sip1
  buckets := List.replicate initBuckets Bucket.default
  dirty := Dirty.new initBuckets
  logFile := logFile
  dataFile := dataFile
  tableFile := tableFile
  linkFile := linkFile
  bucketFillTarget := max (min bucketFillTarget 128) 1

section Fields

variable {α : Type}

def onLog (m : Method LogFile Error α) : Method MemTable Error α :=
  m.on MemTable.logFile fun t file => { t with logFile := file }

def onData (m : Method DataFile Error α) : Method MemTable Error α :=
  m.on MemTable.dataFile fun t file => { t with dataFile := file }

def onTable (m : Method TableFile Error α) : Method MemTable Error α :=
  m.on MemTable.tableFile fun t file => { t with tableFile := file }

def onLink (m : Method DataFile Error α) : Method MemTable Error α :=
  m.on MemTable.linkFile fun t file => { t with linkFile := file }

def setBucket (n : Nat) (bucket : Bucket) (t : MemTable) : MemTable :=
  { t with buckets := t.buckets.set n bucket }

end Fields

/-! ## Addresses -/

/-- `!0u32 >> (32 - bits)` -/
def mask (bits : Nat) : Nat := 0xffffffff >>> (32 - bits)

def bucketForHash (t : MemTable) (hash : UInt32) : Nat :=
  let bucket := hash.toNat &&& mask t.logMod -- hash % 2^(log_mod)
  if bucket < t.step then hash.toNat &&& mask (t.logMod + 1) -- hash % 2^(log_mod + 1)
  else bucket

/-! ## Buckets -/

/-- The slots of a bucket are read when they are needed. -/
def resolveBucket (n : Nat) : Method MemTable Error Unit := do
  let t ← Method.get
  match t.buckets[n]? with
  | some ⟨stored, none⟩ =>
    if PRef.IsValid stored then do
      let envelope ← Method.lift (t.linkFile.getEnvelope stored)
      match Payload.deserialize envelope with
      | .ok (.link links) => Method.modify (setBucket n ⟨stored, some (Link.slots links)⟩)
      | .panic why => Method.lift (.panic why)
      | _ => pure ()
    else pure ()
  | _ => pure ()

/-- The page of a bucket in the table file, as `modify_bucket` computes it. -/
def pageOfBucket (n : Nat) : Nat :=
  if n < bucketsFirstPage then 0 else ((n - bucketsFirstPage) / bucketsPerPage + 1) * pageSize

def modifyBucket (n : Nat) : Method MemTable Error Unit := do
  let t ← Method.get
  let dirty ← Method.lift (t.dirty.set n)
  Method.modify fun t => { t with dirty := dirty }
  onLog (LogFile.logPage (pageOfBucket n) t.tableFile)

/-- The place of the first slot of the key, the loop of `remove_duplicate`. -/
def findKey (d : DataFile) (key : Bytes) (hash : UInt32) :
    List Slot → Nat → Outcome Error (Option Nat)
  | [], _ => .ok none
  | (h, pref) :: slots, n =>
    if h = hash then do
      let envelope ← d.getEnvelope pref
      match ← Payload.deserialize envelope with
      | .indexed k _ => if k = key then .ok (some n) else findKey d key hash slots (n + 1)
      | _ => findKey d key hash slots (n + 1)
    else findKey d key hash slots (n + 1)

/-- A slot is removed from a bucket. -/
def removeSlot (n r : Nat) : Method MemTable Error Unit := do
  let t ← Method.get
  match t.buckets[n]? with
  | some ⟨stored, some slots⟩ =>
    Method.modify (setBucket n ⟨stored, some (slots.eraseIdx r)⟩)
  | _ => pure ()

/-- Where the slot of a key is in a bucket. -/
def duplicate (t : MemTable) (key : Bytes) (hash : UInt32) (n : Nat) :
    Outcome Error (Option Nat) :=
  match t.buckets[n]? with
  | some ⟨_, some slots⟩ => findKey t.dataFile key hash slots 0
  | _ => .ok none

def removeDuplicate (key : Bytes) (hash : UInt32) (n : Nat) : Method MemTable Error Bool := do
  resolveBucket n
  let t ← Method.get
  match ← Method.lift (t.duplicate key hash n) with
  | some r =>
    removeSlot n r
    modifyBucket n
    return true
  | none => return false

/-- A slot is added to a bucket. -/
def pushSlot (n : Nat) (slot : Slot) : Method MemTable Error Unit := do
  let t ← Method.get
  match t.buckets[n]? with
  | some ⟨stored, slots⟩ =>
    Method.modify (setBucket n ⟨stored, some (slots.getD [] ++ [slot])⟩)
  | none => Method.lift (.err (.corrupted s!"memtable does not have the bucket {n}"))

def storeToBucket (n : Nat) (hash : UInt32) (pref : Nat) : Method MemTable Error Unit := do
  resolveBucket n
  pushSlot n (hash, pref)
  modifyBucket n

/-- The bucket of a slot in the next level: `hash % 2^(log_mod + 1)`. -/
def newBucket (logMod : Nat) (slot : Slot) : Nat := slot.1.toNat &&& mask (logMod + 1)

/-- `moves.entry(new_bucket).or_insert(Vec::new()).push(slot)` -/
def pushMove (n : Nat) (slot : Slot) : List (Nat × List Slot) → List (Nat × List Slot)
  | [] => [(n, [slot])]
  | (k, slots) :: moves =>
    if k = n then (k, slots ++ [slot]) :: moves else (k, slots) :: pushMove n slot moves

/-- The slots that leave a bucket, by their new buckets. -/
def movesOf (logMod n : Nat) (slots : List Slot) : List (Nat × List Slot) :=
  (slots.filter fun slot => newBucket logMod slot ≠ n).foldl
    (fun moves slot => pushMove (newBucket logMod slot) slot moves) []

/-- What is left of a bucket: no slots where all of them leave. -/
def newBucketStore (logMod n : Nat) (slots : List Slot) : Bucket :=
  match slots.filter fun slot => newBucket logMod slot = n with
  | [] => Bucket.default
  | stays => { Bucket.default with slots := some stays }

/-- A bucket is split. The order of the moves is that of a hash map. -/
def rehashBucket (order : List (Nat × List Slot) → List (Nat × List Slot)) (n : Nat) :
    Method MemTable Error Unit := do
  resolveBucket n
  let t ← Method.get
  match t.buckets[n]? with
  | some ⟨_, slots⟩ =>
    let slots := slots.getD []
    if movesOf t.logMod n slots = [] then pure ()
    else do
      (order (movesOf t.logMod n slots)).forM fun move =>
        move.2.forM fun slot => storeToBucket move.1 slot.1 slot.2
      Method.modify (setBucket n (newBucketStore t.logMod n slots))
      modifyBucket n
  | none => Method.lift (.err (.corrupted s!"does not have bucket {n} for rehash"))

/-! ## Keys -/

section Keys

variable (siphash : UInt64 → UInt64 → Bytes → UInt64)
  (order : List (Nat × List Slot) → List (Nat × List Slot))

def hash (t : MemTable) (key : Bytes) : UInt32 := (siphash t.sip0 t.sip1 key).toUInt32

/-- The next bucket is split, unless all buckets of the level are. -/
def splitNext : Method MemTable Error Unit := do
  let t ← Method.get
  if t.step < 2 ^ t.logMod then rehashBucket order t.step else pure ()

/-- The step is counted, and after the last one the next level begins. -/
def nextStep (t : MemTable) : MemTable :=
  if 2 ^ (t.logMod + 1) < t.step + 1 then { t with logMod := t.logMod + 1, step := 0 }
  else { t with step := t.step + 1 }

/-- The table grows by a bucket. -/
def grow : Method MemTable Error Unit := do
  splitNext order
  Method.modify nextStep
  Method.modify fun t => { t with buckets := t.buckets ++ [Bucket.default] }
  let t ← Method.get
  let dirty ← Method.lift t.dirty.append
  Method.modify fun t => { t with dirty := dirty }

/-- Growth is due for some hashes, if no key was forgotten before. -/
def growIfDue (hash : UInt32) : Method MemTable Error Unit := do
  let t ← Method.get
  if t.forgotten = 0 then
    if hash.toNat % t.bucketFillTarget = 0 ∧ t.step < 2 ^ 31 then grow order else pure ()
  else Method.modify fun t => { t with forgotten := t.forgotten - 1 }

def put (key : Bytes) (dataOffset : Nat) : Method MemTable Error Unit := do
  let t ← Method.get
  let hash := t.hash siphash key
  let bucket := t.bucketForHash hash
  let _ ← removeDuplicate key hash bucket
  storeToBucket bucket hash dataOffset
  growIfDue order hash

def forget (key : Bytes) : Method MemTable Error Unit := do
  let t ← Method.get
  let hash := t.hash siphash key
  let removed ← removeDuplicate key hash (t.bucketForHash hash)
  if removed then Method.modify fun t => { t with forgotten := t.forgotten + 1 } else pure ()

/-- The slots of a bucket that was resolved. -/
def bucketSlots (t : MemTable) (n : Nat) : Outcome Error (List Slot) :=
  match t.buckets[n]? with
  | some ⟨_, slots⟩ => .ok (slots.getD [])
  | none => .err (.corrupted s!"bucket {n} should exist")

def mayHaveKey (key : Bytes) : Method MemTable Error Bool := do
  let t ← Method.get
  let hash := t.hash siphash key
  let n := t.bucketForHash hash
  resolveBucket n
  let t ← Method.get
  let slots ← Method.lift (t.bucketSlots n)
  return slots.any fun slot => slot.1 = hash

/-- The loop of `get` over the slots of a bucket. -/
def findData (d : DataFile) (key : Bytes) (hash : UInt32) :
    List Slot → Outcome Error (Option (Nat × Bytes))
  | [] => .ok none
  | (h, pref) :: slots =>
    if h = hash then do
      let envelope ← d.getEnvelope pref
      match ← Payload.deserialize envelope with
      | .indexed k data => if k = key then .ok (some (pref, data)) else findData d key hash slots
      | _ => .err (.corrupted "pref should point to indexed data")
    else findData d key hash slots

/-- Get the data last associated with the key. -/
def get (key : Bytes) : Method MemTable Error (Option (Nat × Bytes)) := do
  let t ← Method.get
  let hash := t.hash siphash key
  let n := t.bucketForHash hash
  resolveBucket n
  let t ← Method.get
  let slots ← Method.lift (t.bucketSlots n)
  Method.lift (findData t.dataFile key hash slots)

end Keys

/-! ## Batches -/

/-- A page of the table file, or a new one. -/
def pageOf (t : MemTable) (pref : Nat) : Outcome Error Page := do
  match ← t.tableFile.readPage pref with
  | some page => return page
  | none => invalidOffsetsPage pref

/-- The parameters of the table, as the first page has them. -/
def headPage (t : MemTable) (page : Page) : Outcome Error Page := do
  let page ← page.writePref 0 t.buckets.length
  let page ← page.writePref 6 t.step
  let page ← page.writeU64 12 t.sip0
  page.writeU64 20 t.sip1

/-- The first page of the table file gets the parameters. -/
def flushHead : Method MemTable Error Unit := do
  let t ← Method.get
  let page ← Method.lift (t.pageOf 0)
  let page ← Method.lift (t.headPage page)
  onTable (TableFile.updatePage page)

/-- The link of some slots. -/
def storeSlots (slots : List Slot) : Method MemTable Error Nat :=
  if slots = [] then pure PRef.invalid
  else do
    let links ← Method.lift (Link.fromSlots slots)
    onLink (DataFile.appendLink links)

/-- The slots of a bucket are written to the link file, and their link to the table file. -/
def flushSlots (n : Nat) (page : Page) (slots : List Slot) : Method MemTable Error Unit := do
  let link ← storeSlots slots
  Method.modify (setBucket n ⟨link, some slots⟩)
  let page ← Method.lift (page.writePref (PRef.inPagePos (TableFile.tableOffset n)) link)
  onTable (TableFile.updatePage page)

/-- A dirty bucket is written, if it has slots. -/
def flushBucket (n : Nat) : Method MemTable Error Unit := do
  let t ← Method.get
  match t.buckets[n]? with
  | some ⟨_, slots⟩ => do
    let page ← Method.lift (t.pageOf (PRef.thisPage (TableFile.tableOffset n)))
    match slots with
    | some slots => flushSlots n page slots
    | none => pure ()
  | none => pure ()

/-- The dirty buckets are written. -/
def flushDirty : Method MemTable Error Unit := do
  let t ← Method.get
  if t.dirty.isDirty then do
    let dirty ← Method.lift t.dirty.buckets
    dirty.forM flushBucket
  else pure ()

def flush : Method MemTable Error Unit := do
  flushHead
  flushDirty
  Method.modify fun t => { t with dirty := t.dirty.clear }
  onLink DataFile.flush

/-- End current batch and start a new batch. -/
def batch : Method MemTable Error Unit := do
  onLog LogFile.flush
  flush
  Method.modify fun t => { t with dirty := t.dirty.clear }
  onData DataFile.flush
  let t ← Method.get
  Method.modify fun t => { t with logFile := t.logFile.reset t.tableFile.len }
  onLog (LogFile.init t.dataFile.len t.tableFile.len t.linkFile.len)
  onLog LogFile.flush

/-! ## Opening -/

/-- The files get the lengths that they had when the batch began. -/
def truncateFiles (dataLen tableLen linkLen : Nat) : Method MemTable Error Unit := do
  onTable (TableFile.truncate tableLen)
  onData (DataFile.truncate dataLen)
  onLink (DataFile.truncate linkLen)

/-- The pages of the log are put back. -/
def restorePages (dataLen tableLen linkLen : Nat) : Method MemTable Error Unit := do
  let t ← Method.get
  if pageSize < t.logFile.file.len then do
    (t.logFile.pages.drop 1).forM fun page => onTable (TableFile.updatePage page)
    onLog (LogFile.init dataLen tableLen linkLen)
    onLog LogFile.flush
  else pure ()

/-- What a batch that did not end has written is undone. -/
def recover : Method MemTable Error Unit := do
  let t ← Method.get
  match ← Method.lift (t.logFile.file.readPage 0) with
  | some page => do
    truncateFiles (page.readPref 0) (page.readPref 6) (page.readPref 12)
    restorePages (page.readPref 0) (page.readPref 6) (page.readPref 12)
  | none => restorePages 0 0 0

/-- The parameters of the table are read from the first page. -/
def loadHead (first : Page) (t : MemTable) : Outcome Error MemTable := do
  let nBuckets := first.readPref 0 % 2 ^ 32
  let logMod ← checkedSub (Nat.size nBuckets) 2 -- `(32 - n_buckets.leading_zeros()) - 2`
  return { t with
    buckets := List.replicate nBuckets Bucket.default
    dirty := Dirty.new nBuckets
    step := first.readPref 6
    logMod := logMod
    sip0 := first.readU64 12
    sip1 := first.readU64 20 }

/-- The loop of `load` over the links of the table file. -/
def loadLinks (file : TableFile) : List Bucket → Nat → List Bucket
  | [], _ => []
  | bucket :: buckets, n =>
    match file.link n with
    | some link => { bucket with stored := link } :: loadLinks file buckets (n + 1)
    | none => bucket :: buckets

def load : Method MemTable Error Unit := do
  let t ← Method.get
  match ← Method.lift (t.tableFile.readPage 0) with
  | some first => do
    let t ← Method.lift (loadHead first t)
    Method.modify fun _ => t
    Method.modify fun t => { t with buckets := loadLinks t.tableFile t.buckets 0 }
  | none => Method.modify fun t => { t with buckets := loadLinks t.tableFile t.buckets 0 }

end MemTable

end Cashbox.Hammersbald
