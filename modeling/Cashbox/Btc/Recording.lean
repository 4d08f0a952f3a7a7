import Cashbox.Btc.GetData

/-!
# The order of deliveries

Peers deliver transactions in any order and repeat them. What the wallet records
as outputs does not depend on the order. What it records as spends does: an
input is recognised only against outputs that were recorded before. A set of
transactions is recorded alike in every order exactly when none of them spends
what another one pays to the wallet; orders that deliver every such payment
before its spend agree for every set.
-/

namespace Cashbox.Btc

open Cashbox.Lib

section Recording

variable (sha256d : Bytes → Sha256dHash) (verify : Bytes)

/-! ## Spends between transactions -/

/-- `t` has an input with the outpoint under which the wallet records `t'`. -/
def Spends (t t' : Transaction) : Prop :=
  ∃ i ∈ t.input, Records sha256d verify t' i.previousOutput

/-- Every delivery of a transaction comes after the transactions it spends from. -/
def FundedFirst (txs : List Transaction) : Prop :=
  ∀ pre t post, txs = pre ++ t :: post → ∀ t' ∈ txs, Spends sha256d verify t t' → t' ∈ pre

variable {sha256d verify}

/-- A recorded spend is the spend of a transaction delivered before, or of the
delivered transaction itself. -/
theorem mem_record_btcInputTx {txs : List Transaction} (hdiff : HashesDiffer sha256d txs)
    {row : MBtcInputTx} (h : row ∈ (record sha256d verify txs).btcInputTx) :
    ∃ pre t post, txs = pre ++ t :: post ∧ row.btcTxHash = t.bitcoinHash sha256d ∧
      ∃ t' ∈ pre ++ [t], Spends sha256d verify t t' := by
  induction txs using List.reverseRecOn with
  | nil => cases h
  | append_singleton txs tx ih =>
    rw [record_concat_btcInputTx, mem_insertAll_iff fun r hr => (mem_inputRows hr).1] at h
    rcases h with hold | ⟨hnew, _⟩
    · obtain ⟨pre, t, post, rfl, hhash, hspend⟩ :=
        ih (hdiff.subset (List.subset_append_left _ _)) hold
      exact ⟨pre, t, post ++ [tx], by simp, hhash, hspend⟩
    · obtain ⟨hhash, i, hi, hrec, _, _⟩ := mem_inputRows (List.mem_of_head? hnew)
      obtain ⟨t', ht', hrecords⟩ := (isRecorded_record hdiff).mp hrec
      exact ⟨txs, tx, [], rfl, hhash, t', ht', i, hi, hrecords⟩

/-! ## What two runs have in common -/

/-- The same recorded outputs, the same recorded spends and the same balance. -/
structure SameRecords (t t' : DetailTables) : Prop where
  outputs : ∀ row, row ∈ t.btcOutputTx ↔ row ∈ t'.btcOutputTx
  spends : ∀ row, row ∈ t.btcInputTx ↔ row ∈ t'.btcInputTx
  balance : ∀ e, e ∈ t.balanceHelper ↔ e ∈ t'.balanceHelper

/-- Runs over the same transactions record the same outputs, so only their
spends can differ. -/
theorem sameRecords_of_spends {txs txs' : List Transaction} (hdiff : HashesDiffer sha256d txs)
    (hsame : ∀ t, t ∈ txs ↔ t ∈ txs')
    (hspends : ∀ row, row ∈ (record sha256d verify txs).btcInputTx ↔
      row ∈ (record sha256d verify txs').btcInputTx) :
    SameRecords (record sha256d verify txs) (record sha256d verify txs') := by
  have hdiff' : HashesDiffer sha256d txs' := hdiff.subset fun t ht => (hsame t).mpr ht
  have houtputs : ∀ row, row ∈ (record sha256d verify txs).btcOutputTx ↔
      row ∈ (record sha256d verify txs').btcOutputTx := by
    intro row
    rw [mem_record_btcOutputTx hdiff, mem_record_btcOutputTx hdiff']
    exact exists_congr fun t => and_congr_left fun _ => hsame t
  refine ⟨houtputs, hspends, ?_⟩
  intro e
  rw [mem_balanceHelper (record_btcOutputTx_nodup txs),
    mem_balanceHelper (record_btcOutputTx_nodup txs'), houtputs]
  exact and_congr_right fun _ => and_congr_right fun _ =>
    forall_congr' fun i => imp_congr (hspends i) Iff.rfl

/-! ## Payments before their spends -/

/-- When payments come before their spends, each transaction is looked up among
the outputs of the whole run. -/
theorem FundedFirst.record_btcInputTx {txs : List Transaction} (hdiff : HashesDiffer sha256d txs)
    (hfunded : FundedFirst sha256d verify txs) {pre post : List Transaction}
    (hsplit : txs = pre ++ post) :
    (record sha256d verify pre).btcInputTx = insertBatches MBtcInputTx.btcTxHash
      (inputRows sha256d (record sha256d verify txs).isRecorded) pre := by
  induction pre using List.reverseRecOn generalizing post with
  | nil => rfl
  | append_singleton pre t ih =>
    have hsplit' : txs = pre ++ t :: post := by rw [hsplit, List.append_assoc]; rfl
    have hsub : pre ++ [t] ⊆ txs := hsplit ▸ List.subset_append_left _ _
    rw [record_concat_btcInputTx, insertBatches_concat, ← ih hsplit']
    congr 1
    apply inputRows_congr
    intro i hi
    rw [Bool.eq_iff_iff, isRecorded_record (hdiff.subset hsub), isRecorded_record hdiff]
    constructor
    · rintro ⟨t', ht', hrec⟩
      exact ⟨t', hsub ht', hrec⟩
    · rintro ⟨t', ht', hrec⟩
      -- the payment was delivered before
      have hpre := hfunded pre t post hsplit' t' ht' ⟨i, hi, hrec⟩
      exact ⟨t', List.mem_append_left _ hpre, hrec⟩

/-- The recorded spends of such a run: the first recognised input of every
delivered transaction. -/
theorem FundedFirst.mem_btcInputTx {txs : List Transaction} (hdiff : HashesDiffer sha256d txs)
    (hfunded : FundedFirst sha256d verify txs) {row : MBtcInputTx} :
    row ∈ (record sha256d verify txs).btcInputTx ↔
      ∃ t ∈ txs, (inputRows sha256d (record sha256d verify txs).isRecorded t).head? = some row := by
  rw [FundedFirst.record_btcInputTx hdiff hfunded (List.append_nil txs).symm]
  exact mem_insertBatches (fun t r hr => (mem_inputRows hr).1) hdiff

/-- Two orders that deliver payments before their spends record the same. -/
theorem sameRecords_of_fundedFirst {txs txs' : List Transaction} (hdiff : HashesDiffer sha256d txs)
    (hsame : ∀ t, t ∈ txs ↔ t ∈ txs') (hfunded : FundedFirst sha256d verify txs)
    (hfunded' : FundedFirst sha256d verify txs') :
    SameRecords (record sha256d verify txs) (record sha256d verify txs') := by
  have hdiff' : HashesDiffer sha256d txs' := hdiff.subset fun t ht => (hsame t).mpr ht
  have hrec : (record sha256d verify txs).isRecorded = (record sha256d verify txs').isRecorded := by
    funext o
    rw [Bool.eq_iff_iff, isRecorded_record hdiff, isRecorded_record hdiff']
    exact exists_congr fun t => and_congr_left fun _ => hsame t
  apply sameRecords_of_spends hdiff hsame
  intro row
  rw [FundedFirst.mem_btcInputTx hdiff hfunded, FundedFirst.mem_btcInputTx hdiff' hfunded', hrec]
  exact exists_congr fun t => and_congr_left fun _ => hsame t

/-! ## Every order -/

/-- No transaction refers to its own hash. -/
def NoSelfReference (sha256d : Bytes → Sha256dHash) (txs : List Transaction) : Prop :=
  ∀ t ∈ txs, ∀ i ∈ t.input, i.previousOutput.txid ≠ t.bitcoinHash sha256d

/-- A transaction does not spend what it pays itself. -/
theorem NoSelfReference.not_spends {txs : List Transaction} (h : NoSelfReference sha256d txs)
    {t : Transaction} (ht : t ∈ txs) : ¬ Spends sha256d verify t t := by
  rintro ⟨i, hi, hrec⟩
  exact h t ht i hi hrec.txid

/-- A transaction delivered first has no recorded spend. -/
theorem no_spend_of_first {t : Transaction} {txs : List Transaction} (ht : t ∉ txs)
    (hdiff : HashesDiffer sha256d (t :: txs)) (hself : NoSelfReference sha256d (t :: txs)) :
    ∀ row ∈ (record sha256d verify (t :: txs)).btcInputTx,
      row.btcTxHash ≠ t.bitcoinHash sha256d := by
  intro row hrow heq
  obtain ⟨pre, t₁, post, hsplit, hhash, t', ht', hspends⟩ := mem_record_btcInputTx hdiff hrow
  have hmem : t₁ ∈ t :: txs := by rw [hsplit]; simp
  obtain rfl := hdiff t₁ hmem t List.mem_cons_self (hhash.symm.trans heq)
  cases pre with
  | nil =>
    obtain rfl := List.mem_singleton.mp ht'
    exact hself.not_spends hmem hspends
  | cons u pre =>
    have htail : txs = pre ++ t₁ :: post := (List.cons.inj hsplit).2
    exact ht (by rw [htail]; simp)

/-- A transaction delivered last, after one it spends from, has a recorded spend. -/
theorem spend_of_last {t : Transaction} {txs : List Transaction} (ht : t ∉ txs)
    (hdiff : HashesDiffer sha256d (txs ++ [t])) {t' : Transaction} (ht' : t' ∈ txs)
    (hspends : Spends sha256d verify t t') :
    ∃ row ∈ (record sha256d verify (txs ++ [t])).btcInputTx,
      row.btcTxHash = t.bitcoinHash sha256d := by
  obtain ⟨i, hi, hrec⟩ := hspends
  have hrecorded : (record sha256d verify (txs ++ [t])).isRecorded i.previousOutput :=
    (isRecorded_record hdiff).mpr ⟨t', List.mem_append_left _ ht', hrec⟩
  obtain ⟨row, hrow, _⟩ : ∃ row ∈ inputRows sha256d _ t, _ := exists_inputRow hi hrecorded
  obtain ⟨first, rest, hrows⟩ := List.exists_cons_of_ne_nil (List.ne_nil_of_mem hrow)
  have hfirst : (inputRows sha256d (record sha256d verify (txs ++ [t])).isRecorded t).head? =
      some first := by
    rw [hrows]
    rfl
  refine ⟨first, ?_, (mem_inputRows (List.mem_of_head? hfirst)).1⟩
  rw [record_concat_btcInputTx, mem_insertAll_iff fun r hr => (mem_inputRows hr).1]
  refine .inr ⟨hfirst, ?_⟩
  -- no earlier delivery was this transaction
  intro htaken
  obtain ⟨old, hold, hhash⟩ := List.mem_map.mp htaken
  have hsub : txs ⊆ txs ++ [t] := List.subset_append_left _ _
  obtain ⟨pre, t₁, post, hsplit, hhash₁, _⟩ := mem_record_btcInputTx (hdiff.subset hsub) hold
  have hmem : t₁ ∈ txs := by rw [hsplit]; simp
  obtain rfl := hdiff t₁ (hsub hmem) t (List.mem_append_right _ List.mem_cons_self)
    (hhash₁.symm.trans hhash)
  exact ht hmem

/-- **Order independence.** A finite set of transactions is recorded alike by all
delivery sequences that cover it exactly when none of them spends what another
one pays to the wallet. -/
theorem sameRecords_iff_no_spends (sha256d : Bytes → Sha256dHash) (verify : Bytes)
    (S : Finset Transaction)
    (hhash : ∀ t ∈ S, ∀ t' ∈ S, t.bitcoinHash sha256d = t'.bitcoinHash sha256d → t = t')
    (hown : ∀ t ∈ S, ∀ i ∈ t.input, i.previousOutput.txid ≠ t.bitcoinHash sha256d) :
    (∀ txs txs', (∀ t, t ∈ txs ↔ t ∈ S) → (∀ t, t ∈ txs' ↔ t ∈ S) →
      SameRecords (record sha256d verify txs) (record sha256d verify txs')) ↔
    ∀ t ∈ S, ∀ t' ∈ S, ¬ Spends sha256d verify t t' := by
  have hdiff : ∀ {txs : List Transaction}, (∀ t, t ∈ txs ↔ t ∈ S) → HashesDiffer sha256d txs :=
    fun h t ht t' ht' => hhash t ((h t).mp ht) t' ((h t').mp ht')
  have hself : ∀ {txs : List Transaction}, (∀ t, t ∈ txs ↔ t ∈ S) →
      NoSelfReference sha256d txs := fun h t ht => hown t ((h t).mp ht)
  constructor
  · intro hall t ht t' ht' hspends
    have hne : t' ≠ t := by
      rintro rfl
      have hmem : ∀ u, u ∈ S.toList ↔ u ∈ S := fun u => Finset.mem_toList
      exact (hself hmem).not_spends (Finset.mem_toList.mpr ht) hspends
    -- deliver the spending transaction first, or last
    have hrest : ∀ u, u ∈ (S.erase t).toList ↔ u ≠ t ∧ u ∈ S := by
      intro u
      rw [Finset.mem_toList, Finset.mem_erase]
    have hnot : t ∉ (S.erase t).toList := fun h => ((hrest t).mp h).1 rfl
    have hfirst : ∀ u, u ∈ t :: (S.erase t).toList ↔ u ∈ S := by
      intro u
      rw [List.mem_cons, hrest]
      by_cases hu : u = t
      · simp [hu, ht]
      · simp [hu]
    have hlast : ∀ u, u ∈ (S.erase t).toList ++ [t] ↔ u ∈ S := by
      intro u
      rw [← hfirst u, List.mem_append, List.mem_singleton, List.mem_cons, or_comm]
    obtain ⟨row, hrow, hhash⟩ := spend_of_last hnot (hdiff hlast)
      ((hrest t').mpr ⟨hne, ht'⟩) hspends
    have hrow' := ((hall _ _ hfirst hlast).spends row).mpr hrow
    exact no_spend_of_first hnot (hdiff hfirst) (hself hfirst) row hrow' hhash
  · intro hnone txs txs' hcov hcov'
    have hempty : ∀ {us : List Transaction}, (∀ t, t ∈ us ↔ t ∈ S) →
        ∀ row, row ∉ (record sha256d verify us).btcInputTx := by
      intro us hus row hrow
      obtain ⟨pre, t, post, hsplit, _, t', ht', hspends⟩ :=
        mem_record_btcInputTx (hdiff hus) hrow
      have ht : t ∈ us := by rw [hsplit]; simp
      have ht'us : t' ∈ us := by
        rw [hsplit]
        rcases List.mem_append.mp ht' with h | h
        · exact List.mem_append_left _ h
        · simp [List.mem_singleton.mp h]
      exact hnone t ((hus t).mp ht) t' ((hus t').mp ht'us) hspends
    apply sameRecords_of_spends (hdiff hcov)
    · intro t
      rw [hcov, hcov']
    · intro row
      exact iff_of_false (hempty hcov row) (hempty hcov' row)

/-! ## A set on each side of the condition -/

/-- A hash for concrete runs: the bytes as the digits of a number, cut to 256 bits. -/
def digitHash (bytes : Bytes) : Sha256dHash :=
  BitVec.ofNat 256 (bytes.foldl (fun n b => n * 257 + b.toNat + 1) 0)

/-- The key hash of the wallet in concrete runs. -/
def unitKey : Bytes := List.replicate 20 7

/-- A transaction that spends `from` and pays `values` to the wallet. -/
def unitTx (inputs : List OutPoint) (values : List UInt64) : Transaction where
  version := 2
  lockTime := 0
  input := inputs.map fun o => ⟨o, [], 0xffffffff, []⟩
  output := values.map fun v => ⟨v, Script.p2pkh unitKey⟩

/-- A payment of 1000 to the wallet. -/
def unitFund : Transaction := unitTx [⟨1, 0⟩] [1000]

/-- The transaction that spends it and pays nothing to the wallet. -/
def unitSpend : Transaction := unitTx [⟨unitFund.txid digitHash, 0⟩] []

/-- Two payments that have nothing to do with each other. -/
theorem sameRecords_iff_no_spends_payments :
    (∀ txs txs', (∀ t, t ∈ txs ↔ t ∈ ({unitFund, unitTx [⟨2, 0⟩] [500]} : Finset Transaction)) →
      (∀ t, t ∈ txs' ↔ t ∈ ({unitFund, unitTx [⟨2, 0⟩] [500]} : Finset Transaction)) →
      SameRecords (record digitHash unitKey txs) (record digitHash unitKey txs')) ↔
    ∀ t ∈ ({unitFund, unitTx [⟨2, 0⟩] [500]} : Finset Transaction),
      ∀ t' ∈ ({unitFund, unitTx [⟨2, 0⟩] [500]} : Finset Transaction),
        ¬ Spends digitHash unitKey t t' :=
  sameRecords_iff_no_spends digitHash unitKey {unitFund, unitTx [⟨2, 0⟩] [500]}
    (by decide +kernel) (by decide +kernel)

/-- A payment and its spend: delivered in the other order, the spend is not
recorded. -/
theorem not_sameRecords_of_spend_first :
    ¬ SameRecords (record digitHash unitKey [unitFund, unitSpend])
      (record digitHash unitKey [unitSpend, unitFund]) := by
  intro h
  have hnone : (record digitHash unitKey [unitSpend, unitFund]).btcInputTx = [] := by
    decide +kernel
  obtain ⟨row, hrow⟩ : ∃ row, row ∈ (record digitHash unitKey [unitFund, unitSpend]).btcInputTx :=
    List.exists_mem_of_ne_nil _ (by decide +kernel)
  have hrow' := (h.spends row).mp hrow
  rw [hnone] at hrow'
  cases hrow'

end Recording

end Cashbox.Btc
