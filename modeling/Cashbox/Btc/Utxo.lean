import Cashbox.Lib.Database
import Cashbox.Lib.Run
import Cashbox.Btc.Consensus
import Cashbox.Btc.GetData

/-!
# The UTXO table

`DetailSqlite::utxo` computes the table of the wallet's outputs, spent or not, from the
tables of recorded outputs and inputs. It saves a new row for each output every time, and
the table takes one row for each transaction hash: the row of the first call stays. What the
table says of an output is what was recorded of it when a call first saw it.
-/

namespace Cashbox.Btc

open Cashbox.Lib

/-! ## Data model -/

inductive BtcTxState where
  | unknown
  | spent
  | unspent
  | locked
  deriving DecidableEq, Repr

/-- A row of `m_btc_utxo`. -/
structure MBtcUtxo where
  fee : Option UInt64
  state : BtcTxState
  btcTxHash : Sha256dHash
  idx : UInt32
  btcTxHexbytes : Bytes
  value : UInt64
  spentValue : Option Nat
  deriving DecidableEq, Repr

/-- The tables that `utxo` reads and writes. -/
structure DetailSqlite where
  btcOutputTx : List MBtcOutputTx
  btcInputTx : List MBtcInputTx
  btcUtxo : List MBtcUtxo
  deriving DecidableEq, Repr

namespace DetailSqlite

def empty : DetailSqlite := ⟨[], [], []⟩

/-! ## The code -/

/-- `consensus::deserialize`: the data have to be consumed entirely. -/
def deserialize {α : Type} (decode : Decode α) (data : Bytes) : Outcome EncodeError α :=
  match decode.parse data with
  | some (.ok a, rest) =>
    if rest = [] then .ok a
    else .err (.parseFailed "data not consumed entirely when explicitly deserializing")
  | some (.err e, _) => .err e
  | some (.panic p, _) => .panic p
  | none => .err .eof

/-- `kit::hex_to_tx`, of the bytes that the hex text stands for. -/
def hexToTx (hexbytes : Bytes) : Outcome EncodeError Transaction :=
  deserialize Transaction.consensusDecode hexbytes

/-- The sum over all outputs of the transaction that spends, zero if it does not decode. -/
def spentValue (input : MBtcInputTx) : Outcome Error Nat :=
  match hexToTx input.btcTxHexbytes with
  | .ok tx => checkedSum 64 (tx.output.map fun o => o.value.toNat)
  | .err _ => .ok 0
  | .panic p => .panic p

/-- The input row refers to the outpoint. -/
def Refers (hash : Sha256dHash) (idx : UInt32) (input : MBtcInputTx) : Prop :=
  input.txId = hash ∧ input.vout = idx

instance (hash : Sha256dHash) (idx : UInt32) (input : MBtcInputTx) :
    Decidable (Refers hash idx input) := by
  unfold Refers
  infer_instance

/-- `fetch_btc_input_tx`: an error counts as no row. -/
def fetchBtcInputTx (inputs : List MBtcInputTx) (hash : Sha256dHash) (idx : UInt32) :
    Option MBtcInputTx :=
  match fetchOne Error.rbatis (inputs.filter fun input => Refers hash idx input) with
  | .ok found => found
  | _ => none

/-- The row that `utxo` saves for an output. -/
def utxoRow (inputs : List MBtcInputTx) (output : MBtcOutputTx) : Outcome Error MBtcUtxo :=
  match fetchBtcInputTx inputs output.btcTxHash output.idx with
  | none =>
    .ok { fee := none, state := .unspent, btcTxHash := output.btcTxHash, idx := output.idx,
          btcTxHexbytes := output.btcTxHexbytes, value := output.value, spentValue := none }
  | some input => do
    let value ← spentValue input
    return { fee := none, state := .spent, btcTxHash := output.btcTxHash, idx := output.idx,
             btcTxHexbytes := output.btcTxHexbytes, value := output.value,
             spentValue := some value }

/-- The loop over the outputs. A row whose hash is taken is refused, which is only logged. -/
def utxoLoop : List MBtcOutputTx → Method DetailSqlite Error Unit
  | [] => pure ()
  | output :: outputs => do
    let s ← Method.get
    let row ← Method.lift (utxoRow s.btcInputTx output)
    Method.modify fun s => { s with btcUtxo := insertUnique MBtcUtxo.btcTxHash row s.btcUtxo }
    utxoLoop outputs

/-- Get the unspent outputs from `m_btc_output_tx` and `m_btc_input_tx`. -/
def utxo : Method DetailSqlite Error Unit := do
  let s ← Method.get
  utxoLoop s.btcOutputTx

/-- A recorded output, a recorded input or a call of `utxo`. -/
inductive Op where
  | saveBtcOutputTx (row : MBtcOutputTx)
  | saveBtcInputTx (row : MBtcInputTx)
  | utxo
  deriving DecidableEq, Repr

def step (s : DetailSqlite) : Op → DetailSqlite
  | .saveBtcOutputTx row =>
    { s with btcOutputTx := insertUnique MBtcOutputTx.btcTxHash row s.btcOutputTx }
  | .saveBtcInputTx row =>
    { s with btcInputTx := insertUnique MBtcInputTx.btcTxHash row s.btcInputTx }
  | .utxo => (utxo.run s).1

/-! ## What is wanted -/

/-- Some recorded input refers to the outpoint. -/
def Spends (inputs : List MBtcInputTx) (hash : Sha256dHash) (idx : UInt32) : Prop :=
  ∃ input ∈ inputs, Refers hash idx input

instance (inputs : List MBtcInputTx) (hash : Sha256dHash) (idx : UInt32) :
    Decidable (Spends inputs hash idx) := by
  unfold Spends
  infer_instance

/-- The UTXO table mirrors the recorded inputs and outputs. -/
structure Mirrors (s : DetailSqlite) : Prop where
  /-- No outpoint has two rows. -/
  nodup : (s.btcUtxo.map fun row => (row.btcTxHash, row.idx)).Nodup
  /-- Every recorded output has a row, with its value and its state. -/
  each : ∀ output ∈ s.btcOutputTx, ∃ row ∈ s.btcUtxo, row.btcTxHash = output.btcTxHash ∧
    row.idx = output.idx ∧ row.value = output.value ∧
    row.state = if Spends s.btcInputTx output.btcTxHash output.idx then .spent else .unspent
  /-- Every row is that of a recorded output. -/
  only : ∀ row ∈ s.btcUtxo, ∃ output ∈ s.btcOutputTx,
    output.btcTxHash = row.btcTxHash ∧ output.idx = row.idx

/-- What the tables have to be before a call, for the table to be right after it. -/
structure Fresh (s : DetailSqlite) : Prop where
  /-- No output was spent since it was entered as unspent. -/
  current : ∀ row ∈ s.btcUtxo, row.state = .unspent →
    ¬ Spends s.btcInputTx row.btcTxHash row.idx
  /-- An output that is not entered yet is spent at most once. -/
  once : ∀ output ∈ s.btcOutputTx, output.btcTxHash ∉ s.btcUtxo.map MBtcUtxo.btcTxHash →
    (s.btcInputTx.filter fun input => Refers output.btcTxHash output.idx input).length ≤ 1
  /-- The outputs of a transaction that spends add up to 64 bits. -/
  sums : ∀ output ∈ s.btcOutputTx, ∀ input,
    fetchBtcInputTx s.btcInputTx output.btcTxHash output.idx = some input →
    ∃ value, spentValue input = .ok value

/-! ## One call -/

variable {s : DetailSqlite} {inputs : List MBtcInputTx} {output : MBtcOutputTx}

/-- The row names the output; it says spent exactly if one input refers to it. -/
theorem utxoRow_of_ok {row : MBtcUtxo} (h : utxoRow inputs output = .ok row) :
    row.btcTxHash = output.btcTxHash ∧ row.idx = output.idx ∧ row.value = output.value ∧
      row.state =
        if (inputs.filter fun input => Refers output.btcTxHash output.idx input).length = 1
        then .spent else .unspent := by
  unfold utxoRow fetchBtcInputTx at h
  rcases hfound : inputs.filter (fun input => Refers output.btcTxHash output.idx input) with
    _ | ⟨input, _ | ⟨input', rest⟩⟩
  · rw [hfound] at h
    cases h
    exact ⟨rfl, rfl, rfl, rfl⟩
  · rw [hfound] at h
    obtain ⟨value, _, hrow⟩ := Outcome.bind_eq_ok.mp h
    cases hrow
    exact ⟨rfl, rfl, rfl, rfl⟩
  · -- several inputs are an error, and an error is no input
    rw [hfound] at h
    cases h
    exact ⟨rfl, rfl, rfl, by simp⟩

/-- A row is computed unless the sum over the outputs panics. -/
theorem exists_utxoRow_iff :
    (∃ row, utxoRow inputs output = .ok row) ↔
      ∀ input, fetchBtcInputTx inputs output.btcTxHash output.idx = some input →
        ∃ value, spentValue input = .ok value := by
  unfold utxoRow
  cases fetchBtcInputTx inputs output.btcTxHash output.idx with
  | none => simp
  | some input =>
    constructor
    · rintro ⟨row, hrow⟩ input' hinput'
      cases hinput'
      obtain ⟨value, hvalue, _⟩ := Outcome.bind_eq_ok.mp hrow
      exact ⟨value, hvalue⟩
    · intro h
      obtain ⟨value, hvalue⟩ := h input rfl
      exact ⟨_, by simp only [hvalue, Outcome.ok_bind, Outcome.pure_eq_ok]; rfl⟩

/-- The loop saves the rows of the outputs, in order, when all are computed. -/
theorem run_utxoLoop {outputs : List MBtcOutputTx}
    (h : ∀ output ∈ outputs, ∃ row, utxoRow s.btcInputTx output = .ok row) :
    ∃ rows, List.Forall₂ (fun output row => utxoRow s.btcInputTx output = .ok row) outputs rows ∧
      (utxoLoop outputs).run s =
        ({ s with btcUtxo := insertAll MBtcUtxo.btcTxHash rows s.btcUtxo }, .ok ()) := by
  induction outputs generalizing s with
  | nil => exact ⟨[], .nil, rfl⟩
  | cons output outputs ih =>
    obtain ⟨row, hrow⟩ := h output List.mem_cons_self
    obtain ⟨rows, hrows, hrun⟩ := @ih
      { s with btcUtxo := insertUnique MBtcUtxo.btcTxHash row s.btcUtxo }
      (fun output' houtput' => h output' (List.mem_cons_of_mem _ houtput'))
    refine ⟨row :: rows, .cons hrow hrows, ?_⟩
    unfold utxoLoop
    rw [Method.run_bind_of_ok (Method.run_get s), Method.run_lift_bind_of_ok hrow,
      Method.run_bind_of_ok (Method.run_modify _ s), hrun]
    rfl

/-- The loop returns only when every row is computed. -/
theorem utxoRow_of_run_ok {outputs : List MBtcOutputTx}
    (h : ((utxoLoop outputs).run s).2 = .ok ()) :
    ∀ output ∈ outputs, ∃ row, utxoRow s.btcInputTx output = .ok row := by
  induction outputs generalizing s with
  | nil =>
    intro output houtput
    cases houtput
  | cons output outputs ih =>
    unfold utxoLoop at h
    rw [Method.run_bind_of_ok (Method.run_get s)] at h
    cases hrow : utxoRow s.btcInputTx output with
    | ok row =>
      rw [Method.run_lift_bind_of_ok hrow, Method.run_bind_of_ok (Method.run_modify _ s)] at h
      have hrest := ih h
      intro output' houtput'
      rcases List.mem_cons.mp houtput' with rfl | houtput'
      · exact ⟨row, hrow⟩
      · exact hrest output' houtput'
    | err e =>
      rw [Method.run_bind, Method.run_lift, hrow] at h
      cases h
    | panic p =>
      rw [Method.run_bind, Method.run_lift, hrow] at h
      cases h

/-! ## The invariant -/

/-- What holds of the tables whatever was recorded and called: rows are entered once, for
recorded outputs, and none says spent without an input. -/
structure Inv (s : DetailSqlite) : Prop where
  outputs : (s.btcOutputTx.map MBtcOutputTx.btcTxHash).Nodup
  rows : (s.btcUtxo.map MBtcUtxo.btcTxHash).Nodup
  only : ∀ row ∈ s.btcUtxo, ∃ output ∈ s.btcOutputTx, output.btcTxHash = row.btcTxHash ∧
    output.idx = row.idx ∧ output.value = row.value
  states : ∀ row ∈ s.btcUtxo, row.state = .unspent ∨
    row.state = .spent ∧ Spends s.btcInputTx row.btcTxHash row.idx

theorem Inv.empty : Inv empty := by
  refine ⟨List.nodup_nil, List.nodup_nil, ?_, ?_⟩
  · intro row hrow
    cases hrow
  · intro row hrow
    cases hrow

/-- One input that refers to the output is an input that spends it. -/
theorem spends_of_length {hash : Sha256dHash} {idx : UInt32}
    (h : 0 < (inputs.filter fun input => Refers hash idx input).length) :
    Spends inputs hash idx := by
  obtain ⟨input, hinput⟩ := List.exists_mem_of_length_pos h
  obtain ⟨hmem, hrefers⟩ := List.mem_filter.mp hinput
  exact ⟨input, hmem, of_decide_eq_true hrefers⟩

theorem length_of_spends {hash : Sha256dHash} {idx : UInt32} (h : Spends inputs hash idx) :
    0 < (inputs.filter fun input => Refers hash idx input).length := by
  obtain ⟨input, hmem, hrefers⟩ := h
  exact List.length_pos_of_mem (List.mem_filter.mpr ⟨hmem, decide_eq_true hrefers⟩)

/-- Saving the row of a recorded output keeps the invariant. -/
theorem Inv.insert (h : Inv s) (houtput : output ∈ s.btcOutputTx) {row : MBtcUtxo}
    (hrow : utxoRow s.btcInputTx output = .ok row) :
    Inv { s with btcUtxo := insertUnique MBtcUtxo.btcTxHash row s.btcUtxo } := by
  obtain ⟨hhash, hidx, hvalue, hstate⟩ := utxoRow_of_ok hrow
  refine ⟨h.outputs, insertUnique_nodup h.rows, ?_, ?_⟩
  · intro row' hrow'
    rcases mem_insertUnique.mp hrow' with hold | ⟨rfl, _⟩
    · exact h.only row' hold
    · exact ⟨output, houtput, hhash.symm, hidx.symm, hvalue.symm⟩
  · intro row' hrow'
    rcases mem_insertUnique.mp hrow' with hold | ⟨rfl, _⟩
    · exact h.states row' hold
    · rw [hstate, hhash, hidx]
      split_ifs with hone
      · have hspends : Spends s.btcInputTx output.btcTxHash output.idx :=
          spends_of_length (by omega)
        exact .inr ⟨rfl, hspends⟩
      · exact .inl rfl

/-- The loop keeps the invariant, also where it panics on the way. -/
theorem Inv.utxoLoop (h : Inv s) {outputs : List MBtcOutputTx} (hsub : outputs ⊆ s.btcOutputTx) :
    Inv ((DetailSqlite.utxoLoop outputs).run s).1 := by
  induction outputs generalizing s with
  | nil => exact h
  | cons output outputs ih =>
    unfold DetailSqlite.utxoLoop
    rw [Method.run_bind_of_ok (Method.run_get s)]
    cases hrow : utxoRow s.btcInputTx output with
    | ok row =>
      rw [Method.run_lift_bind_of_ok rfl, Method.run_bind_of_ok (Method.run_modify _ s)]
      exact ih (h.insert (hsub List.mem_cons_self) hrow)
        fun output' houtput' => hsub (List.mem_cons_of_mem _ houtput')
    | err e => exact h
    | panic p => exact h

theorem Inv.step (h : Inv s) (op : Op) : Inv (s.step op) := by
  cases op with
  | saveBtcOutputTx row =>
    refine ⟨insertUnique_nodup h.outputs, h.rows, ?_, h.states⟩
    intro row' hrow'
    obtain ⟨output, houtput, hnames⟩ := h.only row' hrow'
    exact ⟨output, mem_insertUnique.mpr (.inl houtput), hnames⟩
  | saveBtcInputTx row =>
    refine ⟨h.outputs, h.rows, h.only, ?_⟩
    intro row' hrow'
    rcases h.states row' hrow' with hunspent | ⟨hspent, input, hinput, hrefers⟩
    · exact .inl hunspent
    · -- recorded inputs stay recorded
      exact .inr ⟨hspent, input, mem_insertUnique.mpr (.inl hinput), hrefers⟩
  | utxo => exact h.utxoLoop (List.Subset.refl _)

theorem Inv.run (h : Inv s) (ops : List Op) : Inv (Lib.run DetailSqlite.step s ops) := by
  induction ops generalizing s with
  | nil => exact h
  | cons op ops ih => exact ih (h.step op)

/-! ## The table after a call -/

/-- The rows computed for the outputs have their hashes. -/
theorem map_hash_eq {outputs : List MBtcOutputTx} {rows : List MBtcUtxo}
    (h : List.Forall₂ (fun output row => utxoRow inputs output = .ok row) outputs rows) :
    rows.map MBtcUtxo.btcTxHash = outputs.map MBtcOutputTx.btcTxHash := by
  induction h with
  | nil => rfl
  | cons hrow _ ih => rw [List.map_cons, List.map_cons, ih, (utxoRow_of_ok hrow).1]

/-- The row that stands for an output after the call: the one it had, or the one computed. -/
theorem exists_row (h : Inv s) {rows : List MBtcUtxo}
    (hrows : List.Forall₂ (fun output row => utxoRow s.btcInputTx output = .ok row)
      s.btcOutputTx rows) (houtput : output ∈ s.btcOutputTx) :
    ∃ row ∈ insertAll MBtcUtxo.btcTxHash rows s.btcUtxo, row.btcTxHash = output.btcTxHash ∧
      row.idx = output.idx ∧ row.value = output.value ∧
      (row ∈ s.btcUtxo ∨ output.btcTxHash ∉ s.btcUtxo.map MBtcUtxo.btcTxHash ∧
        utxoRow s.btcInputTx output = .ok row) := by
  by_cases htaken : output.btcTxHash ∈ s.btcUtxo.map MBtcUtxo.btcTxHash
  · obtain ⟨row, hrow, hhash⟩ := List.mem_map.mp htaken
    obtain ⟨output', houtput', hhash', hidx, hvalue⟩ := h.only row hrow
    -- the output that the row was entered for has the same hash
    obtain rfl : output' = output :=
      List.inj_on_of_nodup_map h.outputs houtput' houtput (hhash'.trans hhash)
    exact ⟨row, mem_insertAll_of_mem hrow, hhash, hidx.symm, hvalue.symm, .inl hrow⟩
  · obtain ⟨n, hn, rfl⟩ := List.mem_iff_getElem.mp houtput
    have hlen : n < rows.length := hrows.length_eq ▸ hn
    have hrow : utxoRow s.btcInputTx s.btcOutputTx[n] = .ok rows[n] := hrows.get hn hlen
    obtain ⟨hhash, hidx, hvalue, _⟩ := utxoRow_of_ok hrow
    have hnodup : (rows.map MBtcUtxo.btcTxHash).Nodup := by
      rw [map_hash_eq hrows]
      exact h.outputs
    have hfilter := @filter_insertAll _ _ _ MBtcUtxo.btcTxHash rows s.btcUtxo
      s.btcOutputTx[n].btcTxHash
    rw [if_neg htaken, ← hhash, head?_filter_key hnodup (List.getElem_mem hlen)] at hfilter
    have hmem : rows[n] ∈ (insertAll MBtcUtxo.btcTxHash rows s.btcUtxo).filter
        (fun r => r.btcTxHash = rows[n].btcTxHash) := by
      rw [hfilter]
      exact List.mem_singleton_self _
    exact ⟨rows[n], (List.mem_filter.mp hmem).1, hhash, hidx, hvalue, .inr ⟨htaken, hrow⟩⟩

/-- **One call**: the table mirrors the recorded inputs and outputs exactly if the tables
were fresh before. -/
theorem Inv.mirrors_iff (h : Inv s) :
    ((utxo.run s).2 = .ok () ∧ Mirrors (utxo.run s).1) ↔ Fresh s := by
  have hkeep : Inv (utxo.run s).1 := h.utxoLoop (List.Subset.refl _)
  constructor
  · rintro ⟨hok, hmirrors⟩
    have hall := utxoRow_of_run_ok hok
    obtain ⟨rows, hrows, hrun⟩ := run_utxoLoop hall
    have hrun' : utxo.run s =
        ({ s with btcUtxo := insertAll MBtcUtxo.btcTxHash rows s.btcUtxo }, .ok ()) := hrun
    rw [hrun'] at hmirrors hkeep
    -- the row of an output is the only one with its hash
    have hstate : ∀ output ∈ s.btcOutputTx,
        ∀ row ∈ insertAll MBtcUtxo.btcTxHash rows s.btcUtxo, row.btcTxHash = output.btcTxHash →
        row.state = if Spends s.btcInputTx output.btcTxHash output.idx then .spent
          else .unspent := by
      intro output houtput row hrow hhash
      obtain ⟨row', hrow', hhash', _, _, hstate'⟩ := hmirrors.each output houtput
      have hsame : row = row' := List.inj_on_of_nodup_map hkeep.rows hrow hrow'
        (hhash.trans hhash'.symm)
      rw [hsame]
      exact hstate'
    refine ⟨?_, ?_, ?_⟩
    · intro row hrow hunspent hspends
      obtain ⟨output, houtput, hhash, hidx, _⟩ := h.only row hrow
      have hrow' : row ∈ insertAll MBtcUtxo.btcTxHash rows s.btcUtxo := mem_insertAll_of_mem hrow
      have hsays := hstate output houtput row hrow' hhash.symm
      rw [hhash, hidx, if_pos hspends, hunspent] at hsays
      cases hsays
    · intro output houtput hnew
      by_contra hmany
      obtain ⟨row, hrow, hhash, _, _, hcase⟩ := exists_row h hrows houtput
      have hsays := hstate output houtput row hrow hhash
      rw [if_pos (spends_of_length (by omega))] at hsays
      rcases hcase with hold | ⟨_, hcomputed⟩
      · exact hnew (List.mem_map.mpr ⟨row, hold, hhash⟩)
      · -- it was entered as unspent, for several inputs refer to it
        obtain ⟨_, _, _, hcount⟩ := utxoRow_of_ok hcomputed
        rw [if_neg (by omega), hsays] at hcount
        cases hcount
    · intro output houtput
      exact exists_utxoRow_iff.mp (hall output houtput)
  · rintro ⟨hcurrent, honce, hsums⟩
    obtain ⟨rows, hrows, hrun⟩ := run_utxoLoop fun output houtput =>
      exists_utxoRow_iff.mpr (hsums output houtput)
    have hrun' : utxo.run s =
        ({ s with btcUtxo := insertAll MBtcUtxo.btcTxHash rows s.btcUtxo }, .ok ()) := hrun
    rw [hrun'] at hkeep ⊢
    refine ⟨rfl, ?_, ?_, ?_⟩
    · -- a hash occurs once, and so does an outpoint
      have hhashes : ((insertAll MBtcUtxo.btcTxHash rows s.btcUtxo).map fun row =>
          (row.btcTxHash, row.idx)).map Prod.fst =
          (insertAll MBtcUtxo.btcTxHash rows s.btcUtxo).map MBtcUtxo.btcTxHash := by
        rw [List.map_map]
        rfl
      exact List.Nodup.of_map Prod.fst (hhashes ▸ hkeep.rows)
    · intro output houtput
      obtain ⟨row, hrow, hhash, hidx, hvalue, hcase⟩ := exists_row h hrows houtput
      refine ⟨row, hrow, hhash, hidx, hvalue, ?_⟩
      rcases hcase with hold | ⟨hnew, hcomputed⟩
      · rw [← hhash, ← hidx]
        rcases h.states row hold with hunspent | ⟨hspent, hspends⟩
        · rw [hunspent, if_neg (hcurrent row hold hunspent)]
        · rw [hspent, if_pos hspends]
      · obtain ⟨_, _, _, hcount⟩ := utxoRow_of_ok hcomputed
        have hle := honce output houtput hnew
        rw [hcount]
        by_cases hspends : Spends s.btcInputTx output.btcTxHash output.idx
        · have hpos := length_of_spends hspends
          rw [if_pos hspends, if_pos (by omega)]
        · rw [if_neg hspends, if_neg]
          intro hone
          exact hspends (spends_of_length (by omega))
    · intro row hrow
      obtain ⟨output, houtput, hhash, hidx, _⟩ := hkeep.only row hrow
      exact ⟨output, houtput, hhash, hidx⟩

/-! ## Runs -/

/-- **The UTXO table in every run.** After any recorded outputs, recorded inputs and calls of
`utxo`, a further call returns and leaves a table that mirrors them exactly if the tables
were fresh: no output was spent after it was entered as unspent, or more than once before it
was entered. -/
theorem mirrors_run_iff (ops : List Op) :
    ((utxo.run (run step empty ops)).2 = .ok () ∧ Mirrors (utxo.run (run step empty ops)).1) ↔
      Fresh (run step empty ops) :=
  (Inv.empty.run ops).mirrors_iff

/-- An output of 900 in the transaction with hash 1. -/
def unitOutput : MBtcOutputTx where
  value := 900
  pkScript := []
  idx := 0
  btcTxHash := 1
  btcTxHexbytes := []

/-- The input of the transaction with hash 2 that spends it. -/
def unitInput : MBtcInputTx where
  txId := 1
  vout := 0
  sigScript := []
  sequence := 0
  idx := 0
  btcTxHash := 2
  btcTxHexbytes := []

/-- An output that was entered as unspent stays unspent: its second row is refused. -/
theorem not_mirrors_of_spent_later :
    ¬ Mirrors (run step empty [.saveBtcOutputTx unitOutput, .utxo, .saveBtcInputTx unitInput,
      .utxo]) := by
  intro h
  obtain ⟨row, hrow, _, _, _, hstate⟩ := h.each unitOutput (by decide +kernel)
  have hunspent : ∀ row ∈ (run step empty [.saveBtcOutputTx unitOutput, .utxo,
      .saveBtcInputTx unitInput, .utxo]).btcUtxo, row.state = .unspent := by decide +kernel
  rw [hunspent row hrow, if_pos (by decide +kernel)] at hstate
  cases hstate

end DetailSqlite

end Cashbox.Btc
