import Cashbox.Lib.Outcome
import Cashbox.Lib.UniqueTable
import Cashbox.Btc.Transaction

/-!
# Recording the wallet's transactions

`GetData::tx` writes what a delivered transaction pays to the wallet and what it
spends of the wallet into two tables. Both have one column `btc_tx_hash` that is
`UNIQUE`: of several rows for one transaction the first stays, the inserts of
the others fail and are only logged. Balances are computed from the tables
through a map keyed by that hash.

The double SHA-256 and the hash of the wallet's public key are parameters.
-/

namespace Cashbox.Btc

open Cashbox.Lib

/-! ## Tables -/

/-- A row of `m_btc_output_tx`; the script stands for its `asm` text. -/
structure MBtcOutputTx where
  value : UInt64
  pkScript : Script
  idx : UInt32
  btcTxHash : Sha256dHash
  btcTxHexbytes : Bytes
  deriving DecidableEq, Repr, Inhabited

/-- A row of `m_btc_input_tx`; the script stands for its `asm` text. -/
structure MBtcInputTx where
  txId : Sha256dHash
  vout : UInt32
  sigScript : Script
  sequence : UInt32
  idx : UInt32
  btcTxHash : Sha256dHash
  btcTxHexbytes : Bytes
  deriving DecidableEq, Repr

/-- The tables of the detail database that the wallet's transactions are in. -/
structure DetailTables where
  btcOutputTx : List MBtcOutputTx
  btcInputTx : List MBtcInputTx
  deriving DecidableEq, Repr

namespace DetailTables

def empty : DetailTables := ⟨[], []⟩

def saveBtcOutputTx (t : DetailTables) (rows : List MBtcOutputTx) : DetailTables :=
  { t with btcOutputTx := insertAll MBtcOutputTx.btcTxHash rows t.btcOutputTx }

def saveBtcInputTx (t : DetailTables) (rows : List MBtcInputTx) : DetailTables :=
  { t with btcInputTx := insertAll MBtcInputTx.btcTxHash rows t.btcInputTx }

/-- The map from transaction hash to output index that `GetData::tx` builds. -/
def outputMap (t : DetailTables) : List (Sha256dHash × UInt32) :=
  hashMapOf (t.btcOutputTx.map fun output => (output.btcTxHash, output.idx))

/-- The outpoint is a recorded output: `output_map` has its index under its hash. -/
def isRecorded (t : DetailTables) (o : OutPoint) : Bool :=
  t.outputMap.lookup o.txid == some o.vout

/-- The unspent outputs by transaction hash, in no particular order. -/
def balanceHelper (t : DetailTables) : List (Sha256dHash × MBtcOutputTx) :=
  (hashMapOf (t.btcOutputTx.map fun output => (output.btcTxHash, output))).filter
    fun x => x.1 ∉ t.btcInputTx.map MBtcInputTx.txId

end DetailTables

structure BtcBalance where
  balance : Nat
  height : Nat
  deriving DecidableEq, Repr

/-- `load_balance`; the height is that of the scan progress in the block header
table. -/
def loadBalance (t : DetailTables) (height : Except Error Nat) : Outcome Error BtcBalance := do
  let value ← checkedSum 64 (t.balanceHelper.map fun x => x.2.value.toNat)
  let height ← Outcome.ofExcept height
  return ⟨value, height⟩

/-! ## One transaction -/

section Tx

variable (sha256d : Bytes → Sha256dHash) (verify : Bytes)

/-- The output is a p2pkh output whose key hash is the wallet's. -/
def paysWallet (vout : TxOut) : Bool :=
  vout.scriptPubkey.isP2pkh && vout.scriptPubkey.keyHash == verify

/-- The rows that the loop over the outputs saves, in order. -/
def outputRows (tx : Transaction) : List MBtcOutputTx :=
  tx.output.zipIdx.filterMap fun (vout, index) =>
    if paysWallet verify vout then
      some { value := vout.value, pkScript := vout.scriptPubkey, idx := UInt32.ofNat index,
             btcTxHash := tx.bitcoinHash sha256d, btcTxHexbytes := tx.consensusEncode }
    else none

/-- The rows that the loop over the inputs saves, in order. -/
def inputRows (recorded : OutPoint → Bool) (tx : Transaction) : List MBtcInputTx :=
  tx.input.zipIdx.filterMap fun (txin, index) =>
    if recorded txin.previousOutput then
      some { txId := txin.previousOutput.txid, vout := txin.previousOutput.vout,
             sigScript := txin.scriptSig, sequence := txin.sequence, idx := UInt32.ofNat index,
             btcTxHash := tx.bitcoinHash sha256d, btcTxHexbytes := tx.consensusEncode }
    else none

/-- `GetData::tx`: handle a delivered transaction. -/
def getDataTx (t : DetailTables) (tx : Transaction) : DetailTables :=
  let t := t.saveBtcOutputTx (outputRows sha256d verify tx)
  t.saveBtcInputTx (inputRows sha256d t.isRecorded tx)

/-- The tables after a sequence of deliveries, from empty tables. -/
def record (txs : List Transaction) : DetailTables :=
  txs.foldl (getDataTx sha256d verify) DetailTables.empty

theorem record_concat (txs : List Transaction) (tx : Transaction) :
    record sha256d verify (txs ++ [tx]) =
      getDataTx sha256d verify (record sha256d verify txs) tx := by
  simp [record]

/-! ## Rows of a transaction -/

/-- The row that records what a transaction pays to the wallet. -/
def Pays (tx : Transaction) (row : MBtcOutputTx) : Prop :=
  (outputRows sha256d verify tx).head? = some row

/-- The outpoint under which the wallet records what a transaction pays to it. -/
def Records (tx : Transaction) (o : OutPoint) : Prop :=
  ∃ row, Pays sha256d verify tx row ∧ o = ⟨row.btcTxHash, row.idx⟩

/-- The transactions are told apart by their hashes. -/
def HashesDiffer (txs : List Transaction) : Prop :=
  ∀ t ∈ txs, ∀ t' ∈ txs, t.bitcoinHash sha256d = t'.bitcoinHash sha256d → t = t'

variable {sha256d verify}

theorem HashesDiffer.subset {txs txs' : List Transaction} (h : HashesDiffer sha256d txs)
    (hsub : txs' ⊆ txs) : HashesDiffer sha256d txs' :=
  fun t ht t' ht' => h t (hsub ht) t' (hsub ht')

theorem btcTxHash_of_mem_outputRows {tx : Transaction} {row : MBtcOutputTx}
    (h : row ∈ outputRows sha256d verify tx) : row.btcTxHash = tx.bitcoinHash sha256d := by
  simp only [outputRows, List.mem_filterMap] at h
  obtain ⟨⟨vout, index⟩, _, hrow⟩ := h
  split_ifs at hrow
  cases hrow
  rfl

/-- A transaction pays the wallet by one row. -/
theorem Pays.unique {tx : Transaction} {row row' : MBtcOutputTx} (h : Pays sha256d verify tx row)
    (h' : Pays sha256d verify tx row') : row = row' :=
  Option.some.inj (h.symm.trans h')

theorem Pays.btcTxHash {tx : Transaction} {row : MBtcOutputTx} (h : Pays sha256d verify tx row) :
    row.btcTxHash = tx.bitcoinHash sha256d :=
  btcTxHash_of_mem_outputRows (List.mem_of_head? h)

theorem Records.txid {tx : Transaction} {o : OutPoint} (h : Records sha256d verify tx o) :
    o.txid = tx.bitcoinHash sha256d := by
  obtain ⟨row, hpays, rfl⟩ := h
  exact hpays.btcTxHash

/-- An input row belongs to an input whose outpoint is recorded. -/
theorem mem_inputRows {recorded : OutPoint → Bool} {tx : Transaction} {row : MBtcInputTx}
    (h : row ∈ inputRows sha256d recorded tx) :
    row.btcTxHash = tx.bitcoinHash sha256d ∧ ∃ i ∈ tx.input, recorded i.previousOutput ∧
      row.txId = i.previousOutput.txid ∧ row.vout = i.previousOutput.vout := by
  simp only [inputRows, List.mem_filterMap] at h
  obtain ⟨⟨txin, index⟩, hmem, hrow⟩ := h
  split_ifs at hrow with hrec
  cases hrow
  exact ⟨rfl, txin, List.fst_mem_of_mem_zipIdx hmem, hrec, rfl, rfl⟩

/-- Every input with a recorded outpoint has a row. -/
theorem exists_inputRow {recorded : OutPoint → Bool} {tx : Transaction} {i : TxIn}
    (hi : i ∈ tx.input) (hrec : recorded i.previousOutput) :
    ∃ row ∈ inputRows sha256d recorded tx,
      row.txId = i.previousOutput.txid ∧ row.vout = i.previousOutput.vout := by
  obtain ⟨n, hn⟩ := List.mem_iff_getElem?.mp hi
  have hmem : (i, n) ∈ tx.input.zipIdx := List.mk_mem_zipIdx_iff_getElem?.mpr hn
  exact ⟨_, List.mem_filterMap.mpr ⟨(i, n), hmem, if_pos hrec⟩, rfl, rfl⟩

/-- Only the transaction's own outpoints matter for its input rows. -/
theorem inputRows_congr {recorded recorded' : OutPoint → Bool} {tx : Transaction}
    (h : ∀ i ∈ tx.input, recorded i.previousOutput = recorded' i.previousOutput) :
    inputRows sha256d recorded tx = inputRows sha256d recorded' tx := by
  apply List.filterMap_congr
  rintro ⟨txin, index⟩ hmem
  simp only [h txin (List.fst_mem_of_mem_zipIdx hmem)]

/-! ## The tables of a run -/

/-- The output table is filled batch by batch, one for each delivery. -/
theorem record_btcOutputTx (txs : List Transaction) :
    (record sha256d verify txs).btcOutputTx =
      insertBatches MBtcOutputTx.btcTxHash (outputRows sha256d verify) txs := by
  induction txs using List.reverseRecOn with
  | nil => rfl
  | append_singleton txs tx ih =>
    rw [record_concat, insertBatches_concat, ← ih]
    rfl

theorem record_btcOutputTx_nodup (txs : List Transaction) :
    ((record sha256d verify txs).btcOutputTx.map MBtcOutputTx.btcTxHash).Nodup := by
  rw [record_btcOutputTx]
  exact insertBatches_nodup txs

/-- The recorded outputs: the first wallet output of every delivered transaction. -/
theorem mem_record_btcOutputTx {txs : List Transaction} (hdiff : HashesDiffer sha256d txs)
    {row : MBtcOutputTx} :
    row ∈ (record sha256d verify txs).btcOutputTx ↔ ∃ t ∈ txs, Pays sha256d verify t row := by
  rw [record_btcOutputTx]
  exact mem_insertBatches (fun t r hr => btcTxHash_of_mem_outputRows hr) hdiff

/-- The tables after a delivery: the inputs are looked up among the outputs that
include the delivered transaction's own. -/
theorem record_concat_btcInputTx (txs : List Transaction) (tx : Transaction) :
    (record sha256d verify (txs ++ [tx])).btcInputTx =
      insertAll MBtcInputTx.btcTxHash
        (inputRows sha256d (record sha256d verify (txs ++ [tx])).isRecorded tx)
        (record sha256d verify txs).btcInputTx := by
  rw [record_concat]
  rfl

/-- The recorded outpoints of a run. -/
theorem isRecorded_record {txs : List Transaction} (hdiff : HashesDiffer sha256d txs)
    {o : OutPoint} :
    (record sha256d verify txs).isRecorded o ↔ ∃ t ∈ txs, Records sha256d verify t o := by
  have hnodup : ((record sha256d verify txs).btcOutputTx.map MBtcOutputTx.btcTxHash).Nodup :=
    record_btcOutputTx_nodup txs
  have hkeys : (((record sha256d verify txs).btcOutputTx.map
      fun output => (output.btcTxHash, output.idx)).map Prod.fst).Nodup := by
    rw [List.map_map]
    exact hnodup
  rw [DetailTables.isRecorded, DetailTables.outputMap, hashMapOf_of_nodup hkeys, beq_iff_eq,
    lookup_eq_some_iff hkeys, List.mem_map]
  constructor
  · rintro ⟨row, hrow, heq⟩
    obtain ⟨t, ht, hpays⟩ := (mem_record_btcOutputTx hdiff).mp hrow
    obtain ⟨hash, vout⟩ := o
    cases heq
    exact ⟨t, ht, row, hpays, rfl⟩
  · rintro ⟨t, ht, row, hpays, rfl⟩
    exact ⟨row, (mem_record_btcOutputTx hdiff).mpr ⟨t, ht, hpays⟩, rfl⟩

/-- The unspent outputs: the recorded ones whose hash no recorded spend names. -/
theorem mem_balanceHelper {t : DetailTables}
    (hnodup : (t.btcOutputTx.map MBtcOutputTx.btcTxHash).Nodup)
    {e : Sha256dHash × MBtcOutputTx} :
    e ∈ t.balanceHelper ↔ e.2 ∈ t.btcOutputTx ∧ e.1 = e.2.btcTxHash ∧
      ∀ i ∈ t.btcInputTx, i.txId ≠ e.1 := by
  have hkeys :
      ((t.btcOutputTx.map fun output => (output.btcTxHash, output)).map Prod.fst).Nodup := by
    rw [List.map_map]
    exact hnodup
  obtain ⟨h, row⟩ := e
  rw [DetailTables.balanceHelper, hashMapOf_of_nodup hkeys, List.mem_filter, List.mem_map]
  simp only [Prod.mk.injEq, decide_eq_true_eq, List.mem_map, not_exists, not_and]
  constructor
  · rintro ⟨⟨row', hrow, rfl, rfl⟩, hspent⟩
    exact ⟨hrow, rfl, hspent⟩
  · rintro ⟨hrow, rfl, hspent⟩
    exact ⟨⟨row, hrow, rfl, rfl⟩, hspent⟩

end Tx

end Cashbox.Btc
