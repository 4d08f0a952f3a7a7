import Mathlib.Algebra.BigOperators.Group.Finset.Basic
import Mathlib.Data.List.Dedup
import Cashbox.Btc.Recording

/-!
# The balance and the unspent outputs

The balance that the wallet shows is computed from its two tables. What it is
meant to be is the value of the unspent outputs: the outputs that pay the wallet
in some delivered transaction and that no delivered transaction spends. The
tables identify an output by the hash of its transaction alone, keep one row for
each transaction and use the hash with witnesses; `Tracked` lists what the
delivered transactions have to avoid for this to come out right.
-/

namespace Cashbox.Btc

open Cashbox.Lib

section Balance

variable (sha256d : Bytes → Sha256dHash) (verify : Bytes)

/-! ## Unspent outputs -/

/-- The outputs of a transaction that pay the wallet, by outpoint. -/
def walletOutputs (tx : Transaction) : List (OutPoint × UInt64) :=
  tx.output.zipIdx.filterMap fun (vout, index) =>
    if paysWallet verify vout then some (⟨tx.txid sha256d, UInt32.ofNat index⟩, vout.value)
    else none

/-- Some transaction refers to the outpoint. -/
def Spent (txs : List Transaction) (o : OutPoint) : Prop :=
  ∃ t ∈ txs, ∃ i ∈ t.input, i.previousOutput = o

instance (txs : List Transaction) (o : OutPoint) : Decidable (Spent txs o) := by
  unfold Spent
  infer_instance

/-- The outputs that pay the wallet and that no transaction spends. -/
def utxos (txs : List Transaction) : Finset (OutPoint × UInt64) :=
  (txs.flatMap (walletOutputs sha256d verify)).toFinset.filter fun o => ¬ Spent txs o.1

def utxoSum (txs : List Transaction) : Nat := ∑ o ∈ utxos sha256d verify txs, o.2.toNat

/-- Every delivery of a transaction comes after the transactions whose wallet
outputs it spends. -/
def DeliveredInOrder (txs : List Transaction) : Prop :=
  ∀ pre t post, txs = pre ++ t :: post → ∀ t' ∈ txs, ∀ o ∈ walletOutputs sha256d verify t',
    (∃ i ∈ t.input, i.previousOutput = o.1) → t' ∈ pre

/-- The order by positions, which can be evaluated. -/
theorem deliveredInOrder_iff (txs : List Transaction) :
    DeliveredInOrder sha256d verify txs ↔
      ∀ n, ∀ hn : n < txs.length, ∀ t' ∈ txs, ∀ o ∈ walletOutputs sha256d verify t',
        (∃ i ∈ txs[n].input, i.previousOutput = o.1) → t' ∈ txs.take n := by
  constructor
  · intro h n hn
    have hsplit : txs = txs.take n ++ txs[n] :: txs.drop (n + 1) := by
      rw [List.getElem_cons_drop, List.take_append_drop]
    exact h _ _ _ hsplit
  · rintro h pre t post rfl
    have hn : pre.length < (pre ++ t :: post).length := by simp
    have hpos := h pre.length hn
    rw [List.take_left' rfl, List.getElem_append_right (le_refl _)] at hpos
    simpa using hpos

instance (txs : List Transaction) : Decidable (DeliveredInOrder sha256d verify txs) :=
  decidable_of_iff' _ (deliveredInOrder_iff sha256d verify txs)

/-! ## The condition -/

/-- What the tables can keep track of. -/
structure Tracked (txs : List Transaction) : Prop where
  /-- A transaction pays the wallet at most once. -/
  single : ∀ t ∈ txs, (walletOutputs sha256d verify t).length ≤ 1
  /-- Transactions that pay the wallet do not share their txid. -/
  distinct : ∀ t ∈ txs, ∀ t' ∈ txs, walletOutputs sha256d verify t ≠ [] →
    walletOutputs sha256d verify t' ≠ [] → t.txid sha256d = t'.txid sha256d → t = t'
  /-- A wallet output that an input refers to, under either hash of its
  transaction, is one of a transaction whose two hashes agree. -/
  named : ∀ t ∈ txs, ∀ o ∈ walletOutputs sha256d verify t,
    (Spent txs o.1 ∨ Spent txs ⟨t.bitcoinHash sha256d, o.1.vout⟩) →
      t.txid sha256d = t.bitcoinHash sha256d
  /-- A transaction spends at most one wallet output. -/
  oneSpend : ∀ t ∈ txs, ∀ i ∈ t.input, ∀ i' ∈ t.input,
    (∃ t' ∈ txs, ∃ o ∈ walletOutputs sha256d verify t', i.previousOutput = o.1) →
    (∃ t' ∈ txs, ∃ o ∈ walletOutputs sha256d verify t', i'.previousOutput = o.1) →
    i.previousOutput = i'.previousOutput
  /-- The value fits a 64-bit word. -/
  fits : utxoSum sha256d verify txs < 2 ^ 64

variable {sha256d verify}

/-! ## Rows and outputs of one transaction -/

/-- The rows of a transaction are its wallet outputs, filed under its other hash. -/
theorem walletOutputs_eq (tx : Transaction) :
    walletOutputs sha256d verify tx = (outputRows sha256d verify tx).map fun row =>
      (⟨tx.txid sha256d, row.idx⟩, row.value) := by
  unfold walletOutputs outputRows
  rw [List.map_filterMap]
  apply List.filterMap_congr
  rintro ⟨vout, index⟩ _
  show (if paysWallet verify vout then _ else _) =
      Option.map _ (if paysWallet verify vout then _ else _)
  split_ifs
  · rfl
  · rfl

/-- A transaction with one wallet output pays by the row of that output. -/
theorem mem_walletOutputs_iff {tx : Transaction}
    (hsingle : (walletOutputs sha256d verify tx).length ≤ 1) {o : OutPoint × UInt64} :
    o ∈ walletOutputs sha256d verify tx ↔
      ∃ row, Pays sha256d verify tx row ∧ o = (⟨tx.txid sha256d, row.idx⟩, row.value) := by
  rw [walletOutputs_eq, List.length_map] at hsingle
  rw [walletOutputs_eq, List.mem_map]
  unfold Pays
  cases hrows : outputRows sha256d verify tx with
  | nil => simp
  | cons row rows =>
    rw [hrows, List.length_cons] at hsingle
    obtain rfl : rows = [] := List.eq_nil_of_length_eq_zero (by omega)
    simp [eq_comm]

section Track

variable {txs : List Transaction}

/-- Under the condition, order of delivery in terms of outpoints is order in
terms of the recorded hashes. -/
theorem Tracked.fundedFirst (h : Tracked sha256d verify txs)
    (horder : DeliveredInOrder sha256d verify txs) : FundedFirst sha256d verify txs := by
  intro pre t post hsplit t' ht' hspends
  obtain ⟨i, hi, row, hpays, hprev⟩ := hspends
  have ht : t ∈ txs := by rw [hsplit]; simp
  have hmem : (⟨t'.txid sha256d, row.idx⟩, row.value) ∈ walletOutputs sha256d verify t' :=
    (mem_walletOutputs_iff (h.single t' ht')).mpr ⟨row, hpays, rfl⟩
  rw [hpays.btcTxHash] at hprev
  have hsame := h.named t' ht' _ hmem (.inr ⟨t, ht, i, hi, hprev⟩)
  exact horder pre t post hsplit t' ht' _ hmem ⟨i, hi, by rw [hprev, hsame]⟩

/-- The recorded spends name exactly the transactions whose output is spent. -/
theorem Tracked.spent_iff (h : Tracked sha256d verify txs) (hdiff : HashesDiffer sha256d txs)
    (horder : DeliveredInOrder sha256d verify txs) {t : Transaction} (ht : t ∈ txs)
    {row : MBtcOutputTx} (hpays : Pays sha256d verify t row) :
    (∃ r ∈ (record sha256d verify txs).btcInputTx, r.txId = row.btcTxHash) ↔
      Spent txs ⟨t.txid sha256d, row.idx⟩ := by
  have hmem : ((⟨t.txid sha256d, row.idx⟩, row.value) : OutPoint × UInt64) ∈
      walletOutputs sha256d verify t :=
    (mem_walletOutputs_iff (h.single t ht)).mpr ⟨row, hpays, rfl⟩
  have hfunded := h.fundedFirst horder
  constructor
  · rintro ⟨r, hr, hrid⟩
    obtain ⟨u, hu, hhead⟩ := (FundedFirst.mem_btcInputTx hdiff hfunded).mp hr
    obtain ⟨_, i, hi, hrec, hid, _⟩ := mem_inputRows (List.mem_of_head? hhead)
    obtain ⟨t', ht', row', hpays', hprev⟩ := (isRecorded_record hdiff).mp hrec
    -- the hash in the row is that of `t`, so the recorded output is that of `t`
    have hhash : t'.bitcoinHash sha256d = t.bitcoinHash sha256d := by
      rw [← hpays'.btcTxHash, ← hpays.btcTxHash, ← hrid, hid, hprev]
    obtain rfl := hdiff t' ht' t ht hhash
    obtain rfl := hpays'.unique hpays
    rw [hpays.btcTxHash] at hprev
    have hsame := h.named t' ht _ hmem (.inr ⟨u, hu, i, hi, hprev⟩)
    exact ⟨u, hu, i, hi, by rw [hprev, hsame]⟩
  · intro hspent
    have hsame := h.named t ht _ hmem (.inl hspent)
    obtain ⟨u, hu, i, hi, hprev⟩ := hspent
    have hrecord : ∀ {i' : TxIn}, i' ∈ u.input →
        (record sha256d verify txs).isRecorded i'.previousOutput →
        i'.previousOutput = i.previousOutput := by
      intro i' hi' hrec
      obtain ⟨t', ht', row', hpays', hprev'⟩ := (isRecorded_record hdiff).mp hrec
      have hmem' := (mem_walletOutputs_iff (h.single t' ht')).mpr ⟨row', hpays', rfl⟩
      rw [hpays'.btcTxHash] at hprev'
      have hsame' := h.named t' ht' _ hmem' (.inr ⟨u, hu, i', hi', hprev'⟩)
      exact h.oneSpend u hu i' hi' i hi ⟨t', ht', _, hmem', by rw [hprev', hsame']⟩
        ⟨t, ht, _, hmem, hprev⟩
    have hrec : (record sha256d verify txs).isRecorded i.previousOutput := by
      refine (isRecorded_record hdiff).mpr ⟨t, ht, row, hpays, ?_⟩
      rw [hprev, hsame, hpays.btcTxHash]
    obtain ⟨r, hr, _⟩ : ∃ r ∈ inputRows sha256d _ u, _ := exists_inputRow hi hrec
    obtain ⟨first, rest, hrows⟩ := List.exists_cons_of_ne_nil (List.ne_nil_of_mem hr)
    have hhead : (inputRows sha256d (record sha256d verify txs).isRecorded u).head? =
        some first := by
      rw [hrows]
      rfl
    obtain ⟨_, i', hi', hrec', hid, _⟩ := mem_inputRows (List.mem_of_head? hhead)
    refine ⟨first, (FundedFirst.mem_btcInputTx hdiff hfunded).mpr ⟨u, hu, hhead⟩, ?_⟩
    rw [hid, hrecord hi' hrec', hprev, hsame, hpays.btcTxHash]

/-! ## The balance -/

/-- The delivered transactions whose payment to the wallet is unspent. -/
def unspentPayments (sha256d : Bytes → Sha256dHash) (verify : Bytes) (txs : List Transaction) :
    Finset Transaction :=
  txs.toFinset.filter fun t => outputRows sha256d verify t ≠ [] ∧
    ¬ Spent txs ⟨t.txid sha256d, (outputRows sha256d verify t).headI.idx⟩

theorem pays_headI {t : Transaction} (hne : outputRows sha256d verify t ≠ []) :
    Pays sha256d verify t (outputRows sha256d verify t).headI := by
  cases hrows : outputRows sha256d verify t with
  | nil => exact absurd hrows hne
  | cons row rows =>
    unfold Pays
    rw [hrows]
    rfl

theorem Pays.headI_eq {t : Transaction} {row : MBtcOutputTx} (h : Pays sha256d verify t row) :
    outputRows sha256d verify t ≠ [] ∧ (outputRows sha256d verify t).headI = row := by
  have hne : outputRows sha256d verify t ≠ [] := List.ne_nil_of_mem (List.mem_of_head? h)
  exact ⟨hne, (pays_headI hne).unique h⟩

/-- The entries of the balance map are the unspent payments. -/
theorem Tracked.balanceHelper_eq (h : Tracked sha256d verify txs)
    (hdiff : HashesDiffer sha256d txs) (horder : DeliveredInOrder sha256d verify txs) :
    (record sha256d verify txs).balanceHelper.toFinset =
      (unspentPayments sha256d verify txs).image fun t =>
        ((outputRows sha256d verify t).headI.btcTxHash, (outputRows sha256d verify t).headI) := by
  ext ⟨hash, row⟩
  rw [List.mem_toFinset, mem_balanceHelper (record_btcOutputTx_nodup txs),
    mem_record_btcOutputTx hdiff, Finset.mem_image]
  simp only [unspentPayments, Finset.mem_filter, List.mem_toFinset, Prod.mk.injEq]
  constructor
  · rintro ⟨⟨t, ht, hpays⟩, rfl, hnone⟩
    obtain ⟨hne, hhead⟩ := hpays.headI_eq
    refine ⟨t, ⟨ht, hne, ?_⟩, by rw [hhead], hhead⟩
    rw [hhead, ← h.spent_iff hdiff horder ht hpays]
    rintro ⟨r, hr, hrid⟩
    exact hnone r hr hrid
  · rintro ⟨t, ⟨ht, hne, hunspent⟩, rfl, rfl⟩
    have hpays := pays_headI hne
    refine ⟨⟨t, ht, hpays⟩, rfl, ?_⟩
    intro r hr hrid
    exact hunspent ((h.spent_iff hdiff horder ht hpays).mp ⟨r, hr, hrid⟩)

/-- The unspent outputs are the outputs of the unspent payments. -/
theorem Tracked.utxos_eq (h : Tracked sha256d verify txs) :
    utxos sha256d verify txs = (unspentPayments sha256d verify txs).image fun t =>
      (⟨t.txid sha256d, (outputRows sha256d verify t).headI.idx⟩,
        (outputRows sha256d verify t).headI.value) := by
  ext o
  simp only [utxos, Finset.mem_filter, List.mem_toFinset, List.mem_flatMap, Finset.mem_image,
    unspentPayments]
  constructor
  · rintro ⟨⟨t, ht, ho⟩, hunspent⟩
    obtain ⟨row, hpays, rfl⟩ := (mem_walletOutputs_iff (h.single t ht)).mp ho
    obtain ⟨hne, rfl⟩ := hpays.headI_eq
    exact ⟨t, ⟨ht, hne, hunspent⟩, rfl⟩
  · rintro ⟨t, ⟨ht, hne, hunspent⟩, rfl⟩
    exact ⟨⟨t, ht, (mem_walletOutputs_iff (h.single t ht)).mpr ⟨_, pays_headI hne, rfl⟩⟩, hunspent⟩

/-- The values in the balance map add up to the value of the unspent outputs. -/
theorem Tracked.sum_balanceHelper (h : Tracked sha256d verify txs)
    (hdiff : HashesDiffer sha256d txs) (horder : DeliveredInOrder sha256d verify txs) :
    ((record sha256d verify txs).balanceHelper.map fun x => x.2.value.toNat).sum =
      utxoSum sha256d verify txs := by
  have hpaying : ∀ t ∈ unspentPayments sha256d verify txs,
      t ∈ txs ∧ outputRows sha256d verify t ≠ [] := by
    intro t ht
    simp only [unspentPayments, Finset.mem_filter, List.mem_toFinset] at ht
    exact ⟨ht.1, ht.2.1⟩
  have hnodup : (record sha256d verify txs).balanceHelper.Nodup := by
    have hkeys : (((record sha256d verify txs).btcOutputTx.map
        fun output => (output.btcTxHash, output)).map Prod.fst).Nodup := by
      rw [List.map_map]
      exact record_btcOutputTx_nodup txs
    rw [DetailTables.balanceHelper, hashMapOf_of_nodup hkeys]
    exact (List.Nodup.of_map Prod.fst hkeys).filter _
  -- both sums run over the unspent payments, each with one output of the wallet
  calc ((record sha256d verify txs).balanceHelper.map fun x => x.2.value.toNat).sum
      = ∑ x ∈ (record sha256d verify txs).balanceHelper.toFinset, x.2.value.toNat :=
        (List.sum_toFinset _ hnodup).symm
    _ = ∑ t ∈ unspentPayments sha256d verify txs,
          (outputRows sha256d verify t).headI.value.toNat := by
        rw [h.balanceHelper_eq hdiff horder, Finset.sum_image]
        -- two payments with the same row have the same hash
        intro t ht t' ht' heq
        obtain ⟨htx, hne⟩ := hpaying t ht
        obtain ⟨htx', hne'⟩ := hpaying t' ht'
        apply hdiff t htx t' htx'
        rw [← (pays_headI hne).btcTxHash, ← (pays_headI hne').btcTxHash]
        exact (Prod.mk.inj heq).1
    _ = utxoSum sha256d verify txs := by
        rw [utxoSum, h.utxos_eq, Finset.sum_image]
        -- and so have two with the same outpoint
        intro t ht t' ht' heq
        obtain ⟨htx, hne⟩ := hpaying t ht
        obtain ⟨htx', hne'⟩ := hpaying t' ht'
        have hout : ∀ {u : Transaction}, outputRows sha256d verify u ≠ [] →
            walletOutputs sha256d verify u ≠ [] := by
          intro u hu
          rw [walletOutputs_eq]
          simpa using hu
        exact h.distinct t htx t' htx' (hout hne) (hout hne')
          (OutPoint.mk.inj (Prod.mk.inj heq).1).1

end Track

/-- **The balance.** For deliveries in order that the tables can keep track of,
the balance is the value of the unspent outputs. -/
theorem loadBalance_eq_utxoSum (sha256d : Bytes → Sha256dHash) (verify : Bytes)
    {txs : List Transaction} (hdiff : HashesDiffer sha256d txs)
    (horder : DeliveredInOrder sha256d verify txs) (h : Tracked sha256d verify txs) (height : Nat) :
    loadBalance (record sha256d verify txs) (.ok height) =
      .ok ⟨utxoSum sha256d verify txs, height⟩ := by
  unfold loadBalance
  rw [checkedSum_eq, h.sum_balanceHelper hdiff horder, if_pos h.fits]
  rfl

/-! ## A run on each side of the condition -/

/-- Two payments, of which one is spent by a transaction that pays 300 back. -/
theorem loadBalance_eq_utxoSum_spend :
    loadBalance (record digitHash unitKey [unitFund, unitTx [⟨2, 0⟩] [500],
        unitTx [⟨unitFund.txid digitHash, 0⟩] [300]]) (.ok 7) =
      .ok ⟨utxoSum digitHash unitKey [unitFund, unitTx [⟨2, 0⟩] [500],
        unitTx [⟨unitFund.txid digitHash, 0⟩] [300]], 7⟩ := by
  have hdiff : HashesDiffer digitHash [unitFund, unitTx [⟨2, 0⟩] [500],
      unitTx [⟨unitFund.txid digitHash, 0⟩] [300]] := by
    unfold HashesDiffer
    decide +kernel
  have htracked : Tracked digitHash unitKey [unitFund, unitTx [⟨2, 0⟩] [500],
      unitTx [⟨unitFund.txid digitHash, 0⟩] [300]] :=
    ⟨by decide +kernel, by decide +kernel, by decide +kernel, by decide +kernel,
      by decide +kernel⟩
  exact loadBalance_eq_utxoSum digitHash unitKey hdiff (by decide +kernel) htracked 7

/-- One transaction that pays the wallet twice: the second output is not recorded. -/
theorem loadBalance_ne_utxoSum_of_two_outputs :
    loadBalance (record digitHash unitKey [unitTx [⟨1, 0⟩] [1000, 500]]) (.ok 7) ≠
      .ok ⟨utxoSum digitHash unitKey [unitTx [⟨1, 0⟩] [1000, 500]], 7⟩ := by
  decide +kernel

end Balance

end Cashbox.Btc
