import Mathlib.Data.Char
import Mathlib.Data.List.Lex
import Cashbox.Lib.Run
import Cashbox.Lib.Text
import Cashbox.Lib.Window
import Cashbox.Btc.BlockHeader

/-!
# Counting the scans of a header

`fetch_scan_header` selects the headers to scan with one statement and counts the scan with
another. Both are cut at a thousand rows, but the one takes the headers later than a
timestamp and the other those not earlier than it. The columns `scanned` and `timestamp` are
texts, and are compared as texts.
-/

namespace Cashbox.Btc

open Cashbox.Lib

/-! ## Data model -/

/-- A row of `m_block_header`. The hash stands for its hexadecimal text, and the counter for
its decimal text. -/
structure MBlockHeader where
  rowid : Nat
  header : Sha256dHash
  scanned : Nat
  timestamp : Text
  deriving DecidableEq

/-- The chain database: its rows in the order of their row ids. -/
structure ChainSqlite where
  blockHeader : List MBlockHeader
  ordered : blockHeader.Pairwise fun r r' => r.rowid < r'.rowid

/-- A call of `fetch_scan_header`, with the timestamp of the scan progress, and which of the
two statements fail. -/
structure FetchScanHeader where
  timestamp : UInt32
  scanFlag : Bool
  selectFails : Bool
  updateFails : Bool

/-! ## The two statements -/

def limit : Nat := 1000

/-- `timestamp > … and scanned < 6` -/
def MBlockHeader.isSelected (timestamp : UInt32) (r : MBlockHeader) : Bool :=
  decide (Text.decimal timestamp.toNat < r.timestamp) &&
    decide (Text.decimal r.scanned < Text.decimal 6)

/-- `timestamp >= … AND scanned <= 5` -/
def MBlockHeader.isCounted (timestamp : UInt32) (r : MBlockHeader) : Bool :=
  decide (Text.decimal timestamp.toNat ≤ r.timestamp) &&
    decide (Text.decimal r.scanned ≤ Text.decimal 5)

/-- The first page of the headers to scan; without an order the rows come as they are stored. -/
def selectedRows (timestamp : UInt32) (rows : List MBlockHeader) : List MBlockHeader :=
  (rows.filter (MBlockHeader.isSelected timestamp)).take limit

/-- The rows of the inner select, `ORDER BY rowid ASC LIMIT 0, 1000`. -/
def countedRows (timestamp : UInt32) (rows : List MBlockHeader) : List MBlockHeader :=
  (rows.filter (MBlockHeader.isCounted timestamp)).take limit

/-- `SET scanned = scanned+1` -/
def MBlockHeader.count (r : MBlockHeader) : MBlockHeader := { r with scanned := r.scanned + 1 }

@[simp] theorem MBlockHeader.rowid_count (r : MBlockHeader) : r.count.rowid = r.rowid := rfl

namespace ChainSqlite

/-- The update of the rows whose row ids are in the inner select. -/
def updateScanned (rowids : List Nat) (db : ChainSqlite) : ChainSqlite where
  blockHeader := db.blockHeader.map fun r => if r.rowid ∈ rowids then r.count else r
  ordered := by
    refine db.ordered.map _ ?_
    intro r r' h
    split_ifs <;> exact h

/-- The rows that a call requests: none if the select fails. -/
def requested (call : FetchScanHeader) (db : ChainSqlite) : List MBlockHeader :=
  if call.selectFails then [] else selectedRows call.timestamp db.blockHeader

/-- fetch header which needed scan -/
def fetchScanHeader (call : FetchScanHeader) (db : ChainSqlite) :
    ChainSqlite × List Sha256dHash :=
  let headers := (db.requested call).map MBlockHeader.header
  if call.scanFlag then
    -- a failed update is only printed
    if call.updateFails then (db, headers)
    else
      (db.updateScanned ((countedRows call.timestamp db.blockHeader).map MBlockHeader.rowid),
        headers)
  else
    (db, headers)

/-! ## Accounting -/

/-- The call counts the rows that it returns, and no others. -/
structure CountsRequested (call : FetchScanHeader) (db : ChainSqlite) : Prop where
  returns : (db.fetchScanHeader call).2 = (db.requested call).map MBlockHeader.header
  counts : call.scanFlag = true → (db.fetchScanHeader call).1.blockHeader =
    db.blockHeader.map fun r => if r ∈ db.requested call then r.count else r
  keeps : call.scanFlag = false → (db.fetchScanHeader call).1 = db

def step (db : ChainSqlite) (call : FetchScanHeader) : ChainSqlite := (db.fetchScanHeader call).1

/-- How often a row was requested with the flag set. -/
def requests : ChainSqlite → List FetchScanHeader → Nat → Nat
  | _, [], _ => 0
  | db, call :: calls, rowid =>
    (if call.scanFlag = true ∧ rowid ∈ (db.requested call).map MBlockHeader.rowid then 1 else 0) +
      requests (db.step call) calls rowid

/-- Every counter went up by the number of requests. -/
def CountersRight (db : ChainSqlite) (calls : List FetchScanHeader) : Prop :=
  (run step db calls).blockHeader =
    db.blockHeader.map fun r => { r with scanned := r.scanned + db.requests calls r.rowid }

/-- Every call of a run counts what it returns, and so the counters are right after every part
of it. -/
structure Accounted (db : ChainSqlite) (calls : List FetchScanHeader) : Prop where
  each : Guarded step (fun db call => CountsRequested call db) db calls
  counters : ∀ calls', calls' <+: calls → CountersRight db calls'

/-- The two statements of a call find the same rows: none of the first thousand rows not
earlier than the timestamp has this timestamp, and none of the first thousand rows later than
it has a counter between the texts of five and six. A statement that fails would have found
none. -/
def StatementsAgree (call : FetchScanHeader) (db : ChainSqlite) : Prop :=
  call.scanFlag = true →
    match call.selectFails, call.updateFails with
    | true, true => True
    | true, false => ∀ r ∈ db.blockHeader, r.isCounted call.timestamp = false
    | false, true => ∀ r ∈ db.blockHeader, r.isSelected call.timestamp = false
    | false, false =>
      (∀ r ∈ countedRows call.timestamp db.blockHeader,
          r.timestamp ≠ Text.decimal call.timestamp.toNat) ∧
        ∀ r ∈ selectedRows call.timestamp db.blockHeader,
          Text.decimal r.scanned ≤ Text.decimal 5

/-! ## One call -/

section Call

variable {db : ChainSqlite} {call : FetchScanHeader}

/-- Rows are told apart by their row ids. -/
theorem eq_of_rowid_eq {r r' : MBlockHeader} (hr : r ∈ db.blockHeader)
    (hr' : r' ∈ db.blockHeader) (h : r.rowid = r'.rowid) : r = r' := by
  have hnodup : (db.blockHeader.map MBlockHeader.rowid).Nodup :=
    (List.pairwise_map.mpr db.ordered).imp Nat.ne_of_lt
  exact List.inj_on_of_nodup_map hnodup hr hr' h

theorem requested_subset {r : MBlockHeader} (h : r ∈ db.requested call) : r ∈ db.blockHeader := by
  unfold requested at h
  split_ifs at h with hfails
  · cases h
  · exact mem_of_mem_take_filter h

/-- A counter that goes up is not what it was. -/
theorem count_ne (r : MBlockHeader) : r.count ≠ r := fun h =>
  Nat.succ_ne_self r.scanned (congrArg MBlockHeader.scanned h)

/-- A set of rows is counted exactly if its row ids are those of the update. -/
theorem updateScanned_eq_iff {rows counted : List MBlockHeader}
    (hcounted : ∀ r ∈ counted, r ∈ db.blockHeader) :
    (db.updateScanned (counted.map MBlockHeader.rowid)).blockHeader =
        db.blockHeader.map (fun r => if r ∈ rows then r.count else r) ↔
      ∀ r ∈ db.blockHeader, r ∈ counted ↔ r ∈ rows := by
  have hmem : ∀ r ∈ db.blockHeader, r.rowid ∈ counted.map MBlockHeader.rowid ↔ r ∈ counted := by
    intro r hr
    constructor
    · intro h
      obtain ⟨r', hr', heq⟩ := List.mem_map.mp h
      rwa [eq_of_rowid_eq hr (hcounted r' hr') heq.symm]
    · exact List.mem_map_of_mem
  show db.blockHeader.map _ = _ ↔ _
  rw [List.map_inj_left]
  refine forall₂_congr fun r hr => ?_
  simp only [hmem r hr]
  by_cases h : r ∈ counted <;> by_cases h' : r ∈ rows <;> simp [h, h', count_ne, (count_ne r).symm]

/-- A header is in the page of the one statement and meets the condition of the other unless
it has the timestamp itself. -/
theorem isSelected_iff_of_isCounted {r : MBlockHeader} {timestamp : UInt32}
    (h : r.isCounted timestamp = true) :
    r.isSelected timestamp = true ↔ r.timestamp ≠ Text.decimal timestamp.toNat := by
  simp only [MBlockHeader.isCounted, MBlockHeader.isSelected, Bool.and_eq_true,
    decide_eq_true_eq] at h ⊢
  have hfive : Text.decimal 5 < Text.decimal 6 := by decide
  have hscanned : Text.decimal r.scanned < Text.decimal 6 := lt_of_le_of_lt h.2 hfive
  constructor
  · rintro ⟨hlt, _⟩
    exact (ne_of_lt hlt).symm
  · intro hne
    exact ⟨lt_of_le_of_ne h.1 hne.symm, hscanned⟩

theorem isCounted_iff_of_isSelected {r : MBlockHeader} {timestamp : UInt32}
    (h : r.isSelected timestamp = true) :
    r.isCounted timestamp = true ↔ Text.decimal r.scanned ≤ Text.decimal 5 := by
  simp only [MBlockHeader.isCounted, MBlockHeader.isSelected, Bool.and_eq_true,
    decide_eq_true_eq] at h ⊢
  exact ⟨fun h' => h'.2, fun h' => ⟨le_of_lt h.1, h'⟩⟩

/-- The rows that a call counts: none if the update fails. -/
def counted (call : FetchScanHeader) (db : ChainSqlite) : List MBlockHeader :=
  if call.updateFails then [] else countedRows call.timestamp db.blockHeader

theorem counted_subset {r : MBlockHeader} (h : r ∈ db.counted call) : r ∈ db.blockHeader := by
  unfold counted at h
  split_ifs at h with hfails
  · cases h
  · exact mem_of_mem_take_filter h

theorem updateScanned_nil : db.updateScanned [] = db := by
  obtain ⟨rows, hordered⟩ := db
  simp [updateScanned]

/-- With the flag set, the rows that a call counts are those of its update. -/
theorem fetchScanHeader_of_scanFlag (h : call.scanFlag = true) :
    (db.fetchScanHeader call).1 =
      db.updateScanned ((db.counted call).map MBlockHeader.rowid) := by
  unfold fetchScanHeader counted
  rw [if_pos h]
  split_ifs with hfails
  · exact updateScanned_nil.symm
  · rfl

theorem fetchScanHeader_of_not_scanFlag (h : call.scanFlag = false) :
    (db.fetchScanHeader call).1 = db := by
  unfold fetchScanHeader
  rw [if_neg (by simp [h])]

theorem fetchScanHeader_snd :
    (db.fetchScanHeader call).2 = (db.requested call).map MBlockHeader.header := by
  unfold fetchScanHeader
  split_ifs <;> rfl

/-- A page of rows is empty exactly if no row meets its condition. -/
theorem take_limit_eq_nil_iff {p : MBlockHeader → Bool} {rows : List MBlockHeader} :
    (rows.filter p).take limit = [] ↔ ∀ r ∈ rows, p r = false := by
  rw [List.take_eq_nil_iff, List.filter_eq_nil_iff]
  simp [limit]

/-- The statements of a call with the flag set find the same rows exactly if they agree. -/
theorem mem_counted_iff (hflag : call.scanFlag = true) :
    (∀ r ∈ db.blockHeader, r ∈ db.counted call ↔ r ∈ db.requested call) ↔
      StatementsAgree call db := by
  have hall : (∀ r ∈ db.blockHeader, r ∈ db.counted call ↔ r ∈ db.requested call) ↔
      ∀ r, r ∈ db.counted call ↔ r ∈ db.requested call :=
    ⟨fun h r => ⟨fun hr => (h r (counted_subset hr)).mp hr,
      fun hr => (h r (requested_subset hr)).mpr hr⟩, fun h r _ => h r⟩
  rw [hall]
  unfold StatementsAgree counted requested
  cases call.selectFails <;> cases call.updateFails
  · -- both get through: each finds only what the other asks for
    simp only [Bool.false_eq_true, if_false, hflag, forall_const]
    unfold countedRows selectedRows
    rw [mem_take_filter_iff]
    refine and_congr (forall₂_congr fun r hr => ?_) (forall₂_congr fun r hr => ?_)
    · exact isSelected_iff_of_isCounted (of_mem_take_filter hr)
    · exact isCounted_iff_of_isSelected (of_mem_take_filter hr)
  · simp only [if_true, Bool.false_eq_true, if_false, hflag, forall_const]
    unfold selectedRows
    rw [← take_limit_eq_nil_iff, List.eq_nil_iff_forall_not_mem]
    simp
  · simp only [if_true, Bool.false_eq_true, if_false, hflag, forall_const]
    unfold countedRows
    rw [← take_limit_eq_nil_iff, List.eq_nil_iff_forall_not_mem]
    simp
  · simp

/-- A call counts what it returns exactly if its statements agree. -/
theorem countsRequested_iff : CountsRequested call db ↔ StatementsAgree call db := by
  by_cases hflag : call.scanFlag = true
  · have hcounts : (db.fetchScanHeader call).1.blockHeader =
        db.blockHeader.map (fun r => if r ∈ db.requested call then r.count else r) ↔
          StatementsAgree call db := by
      rw [fetchScanHeader_of_scanFlag hflag, updateScanned_eq_iff fun r hr => counted_subset hr]
      exact mem_counted_iff hflag
    constructor
    · intro h
      exact hcounts.mp (h.counts hflag)
    · intro h
      refine ⟨fetchScanHeader_snd, fun _ => hcounts.mpr h, fun hflag' => ?_⟩
      rw [hflag] at hflag'
      cases hflag'
  · constructor
    · intro _ hflag'
      exact absurd hflag' hflag
    · intro _
      exact ⟨fetchScanHeader_snd, fun hflag' => absurd hflag' hflag,
        fun hflag' => fetchScanHeader_of_not_scanFlag hflag'⟩

end Call

/-! ## Runs -/

section Runs

variable {db : ChainSqlite}

/-- A call that counts what it returns adds its requests to the counters. -/
theorem CountsRequested.blockHeader {call : FetchScanHeader} (h : CountsRequested call db) :
    (db.step call).blockHeader = db.blockHeader.map fun r =>
      { r with scanned := r.scanned +
          if call.scanFlag = true ∧ r.rowid ∈ (db.requested call).map MBlockHeader.rowid
          then 1 else 0 } := by
  by_cases hflag : call.scanFlag = true
  · show (db.fetchScanHeader call).1.blockHeader = _
    rw [h.counts hflag]
    refine List.map_congr_left fun r hr => ?_
    have hmem : r.rowid ∈ (db.requested call).map MBlockHeader.rowid ↔ r ∈ db.requested call := by
      constructor
      · intro hid
        obtain ⟨r', hr', heq⟩ := List.mem_map.mp hid
        rwa [eq_of_rowid_eq hr (requested_subset hr') heq.symm]
      · exact List.mem_map_of_mem
    simp only [hmem, hflag, true_and]
    split_ifs <;> rfl
  · show (db.fetchScanHeader call).1.blockHeader = _
    rw [h.keeps (Bool.eq_false_iff.mpr hflag)]
    simp [hflag]

/-- In a run of such calls the counters are right. -/
theorem countersRight_of_guarded {calls : List FetchScanHeader}
    (h : Guarded step (fun db call => CountsRequested call db) db calls) :
    CountersRight db calls := by
  induction calls generalizing db with
  | nil => simp [CountersRight, requests]
  | cons call calls ih =>
    have hrest : (run step (db.step call) calls).blockHeader = _ := ih h.2
    show (run step (db.step call) calls).blockHeader = _
    rw [hrest, h.1.blockHeader, List.map_map]
    refine List.map_congr_left fun r _ => ?_
    simp [requests, Nat.add_assoc]

/-- **Scanned-header accounting**: in a run of calls every call counts exactly the headers
that it returns, and every counter is the number of requests, if and only if the two
statements of every call agree. -/
theorem accounted_iff (db : ChainSqlite) (calls : List FetchScanHeader) :
    Accounted db calls ↔ Guarded step (fun db call => StatementsAgree call db) db calls := by
  rw [← guarded_congr fun db call => countsRequested_iff]
  constructor
  · exact Accounted.each
  · intro h
    refine ⟨h, ?_⟩
    rintro calls' ⟨rest, rfl⟩
    exact countersRight_of_guarded (guarded_append.mp h).1

end Runs

/-- A header with the timestamp of the progress is counted and not returned. -/
theorem not_accounted_of_equal_timestamp :
    ¬ Accounted ⟨[⟨1, 7, 0, "1231006506".toList⟩], List.pairwise_singleton _ _⟩
      [⟨1231006506, true, false, false⟩] := by
  intro h
  have hcounts := h.each.1.counts rfl
  revert hcounts
  decide

end ChainSqlite

end Cashbox.Btc
