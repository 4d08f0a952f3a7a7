import Mathlib.Algebra.Order.BigOperators.Group.List
import Cashbox.Lib.Method
import Cashbox.Btc.Recording

/-!
# Signing a spend

`btc_tx_sign` selects recorded outputs until their total exceeds the amount,
pays the amount to the target and the rest to the wallet itself. What it takes
for the rest is the total less the fee: the amount is not subtracted. So a
transaction it returns conserves value only for the amount zero.

The account library (mnemonics, keys, addresses, signatures) is a parameter; the
amount is an integer number of satoshi.
-/

namespace Cashbox.Btc

open Cashbox.Lib

/-! ## The account library -/

/-- The calls of the account library, with mnemonics `M`, master accounts with
their unlocker `K` and addresses `A`. -/
structure AccountLib (M K A : Type) where
  mnemonicFromStr : String → Except String M
  /-- `MasterAccount::from_mnemonic` and `Unlocker::new_for_master`. -/
  masterFromMnemonic : M → Network → String → Option K
  /-- `Account::new` and `add_account`. -/
  addAccount : K → Except String K
  /-- The address of `next_key` of the account. -/
  nextKey : K → Option A
  addressToString : A → String
  addressFromStr : String → Except String A
  scriptPubkey : A → Script
  /-- `hex_to_tx` of stored bytes. -/
  hexToTx : Bytes → Option Transaction
  /-- `MasterAccount::sign`, with what the resolver returns for its inputs. -/
  sign : K → Transaction → Option TxOut → Except String Transaction

/-- The arguments of `btc_tx_sign`, the amount in satoshi. -/
structure TxSignArgs where
  network : Network
  mnemonic : String
  fromAddress : String
  toAddress : String
  password : String
  value : UInt64
  broadcast : Bool

/-! ## Fees and coins -/

/-- `kit::tx_fee`. -/
def txFee (inputSum outputsNum : Nat) : Outcome Error Nat := do
  let inputs ← checkedMul 32 inputSum 148
  let outputs ← checkedMul 32 outputsNum 34
  let size ← checkedAdd 32 inputs outputs
  let size ← checkedAdd 32 size 10
  checkedMul 32 size 19

/-- The loop over the unspent outputs: their total so far and those selected. -/
def selectCoins (value : Nat) :
    List MBtcOutputTx → Nat → List MBtcOutputTx → Outcome Error (Nat × List MBtcOutputTx)
  | [], total, utxos => .ok (total, utxos)
  | output :: outputs, total, utxos =>
    if total ≤ value then do
      let total ← checkedAdd 64 total output.value.toNat
      selectCoins value outputs total (utxos ++ [output])
    else selectCoins value outputs total utxos

def rbf : UInt32 := 0xffffffff - 2

/-- The transaction before its signatures. -/
def spendingTransaction (utxos : List MBtcOutputTx) (value : UInt64) (target : Script)
    (changeValue : Nat) (source : Script) : Transaction where
  version := 2
  lockTime := 0
  input := utxos.map fun utxo => ⟨⟨utxo.btcTxHash, utxo.idx⟩, [], rbf, []⟩
  output := [⟨value, target⟩, ⟨UInt64.ofNat changeValue, source⟩]

section Sign

variable {M K A : Type} (lib : AccountLib M K A)

/-- An error of the library, as an error of the wallet. -/
def btcTxErr {α : Type} (x : Except String α) : Outcome Error α :=
  Outcome.ofExcept (x.mapError Error.btcTx)

/-- The resolver: the output that `utxo` is, from the stored transaction. -/
def resolve (utxo : MBtcOutputTx) : Outcome Error (Option TxOut) :=
  match lib.hexToTx utxo.btcTxHexbytes with
  | none => .ok none
  | some inputTx =>
    match inputTx.output[utxo.idx.toNat]? with
    | some output => .ok (some output)
    | none => .panic .indexOutOfBounds

/-- The loop that signs once for each selected output. -/
def signAll (master : K) : List MBtcOutputTx → Transaction → Outcome Error Transaction
  | [], tx => .ok tx
  | utxo :: utxos, tx => do
    let output ← resolve lib utxo
    let tx ← btcTxErr (lib.sign master tx output)
    signAll master utxos tx

/-- What `btc_tx_sign` does before it selects coins: the balance suffices, the
mnemonic belongs to the source address, the target is an address. -/
def unlock (tables : DetailTables) (height : Except Error Nat) (args : TxSignArgs) :
    Outcome Error (K × A × A) := do
  let balance ← loadBalance tables height
  if args.value.toNat > balance.balance then .err (.btcTx "value not enough")
  else do
    let mnemonic ← btcTxErr (lib.mnemonicFromStr args.mnemonic)
    let master ← Outcome.ofSome (lib.masterFromMnemonic mnemonic args.network args.password)
    let master ← btcTxErr (lib.addAccount master)
    let source ← Outcome.ofSome (lib.nextKey master)
    if lib.addressToString source ≠ args.fromAddress then .err (.btcTx "form address error")
    else do
      let target ← btcTxErr (lib.addressFromStr args.toAddress)
      return (master, source, target)

/-- The signed transaction, from the unspent outputs in the order of the map. -/
def buildSigned (tables : DetailTables) (height : Except Error Nat)
    (outputs : List MBtcOutputTx) (args : TxSignArgs) : Outcome Error Transaction := do
  let (master, source, target) ← unlock lib tables height args
  let (total, utxos) ← selectCoins args.value.toNat outputs 0 []
  let fee ← txFee (utxos.length % 2 ^ 32) 2
  -- the amount that the first output pays is not subtracted
  let changeValue ← checkedSub total fee
  signAll lib master utxos (spendingTransaction utxos args.value (lib.scriptPubkey target)
    changeValue (lib.scriptPubkey source))

/-- `btc_tx_sign`: the receiver is the queue of transactions to broadcast. -/
def btcTxSign (tables : DetailTables) (height : Except Error Nat)
    (outputs : List MBtcOutputTx) (args : TxSignArgs) :
    Method (List Transaction) Error Transaction := do
  let tx ← Method.lift (buildSigned lib tables height outputs args)
  if args.broadcast then Method.modify fun q => q ++ [tx]
  return tx

end Sign

/-! ## Selected coins and their fee -/

def valueSum (rows : List MBtcOutputTx) : Nat := (rows.map fun row => row.value.toNat).sum

/-- The outputs that the selection takes, from a total so far. -/
def coins (value : Nat) : Nat → List MBtcOutputTx → List MBtcOutputTx
  | _, [] => []
  | total, output :: outputs =>
    if total ≤ value then output :: coins value (total + output.value.toNat) outputs
    else coins value total outputs

/-- The fee of a transaction with `n` inputs and two outputs. -/
def feeOf (n : Nat) : Nat := (n * 148 + 2 * 34 + 10) * 19

theorem coins_sublist (value total : Nat) (outputs : List MBtcOutputTx) :
    (coins value total outputs).Sublist outputs := by
  induction outputs generalizing total with
  | nil => exact List.Sublist.slnil
  | cons output outputs ih =>
    unfold coins
    split_ifs
    · exact (ih _).cons_cons output
    · exact (ih _).cons output

/-- The selected outputs are worth no more than all of them. -/
theorem valueSum_coins_le (value total : Nat) (outputs : List MBtcOutputTx) :
    valueSum (coins value total outputs) ≤ valueSum outputs :=
  ((coins_sublist value total outputs).map _).sum_le_sum (fun _ _ => Nat.zero_le _)

/-- The selection loop takes the coins, when all outputs fit a 64-bit word. -/
theorem selectCoins_eq {value total : Nat} {outputs utxos : List MBtcOutputTx}
    (h : total + valueSum outputs < 2 ^ 64) :
    selectCoins value outputs total utxos =
      .ok (total + valueSum (coins value total outputs), utxos ++ coins value total outputs) := by
  induction outputs generalizing total utxos with
  | nil => simp [selectCoins, coins, valueSum]
  | cons output outputs ih =>
    have hcons : valueSum (output :: outputs) = output.value.toNat + valueSum outputs := by
      simp [valueSum]
    rw [hcons] at h
    unfold selectCoins coins
    split_ifs
    · rw [checkedAdd_of_lt (by omega), Outcome.ok_bind, ih (by omega)]
      simp [valueSum, Nat.add_assoc]
    · exact ih (by omega)

theorem txFee_of_lt {n : Nat} (h : feeOf n < 2 ^ 32) : txFee n 2 = .ok (feeOf n) := by
  unfold feeOf at h
  have h1 : n * 148 < 2 ^ 32 := by omega
  have h2 : 2 * 34 < 2 ^ 32 := by norm_num
  have h3 : n * 148 + 2 * 34 < 2 ^ 32 := by omega
  have h4 : n * 148 + 2 * 34 + 10 < 2 ^ 32 := by omega
  simp only [txFee, checkedMul_of_lt h1, checkedMul_of_lt h2, checkedAdd_of_lt h3,
    checkedAdd_of_lt h4, checkedMul_of_lt h, Outcome.ok_bind]
  rfl

/-- A fee beyond 32 bits is a panic of the multiplications and additions. -/
theorem txFee_of_le {n : Nat} (h : 2 ^ 32 ≤ feeOf n) :
    ∃ p, txFee n 2 = .panic p ∧ p ≠ .subOverflow := by
  unfold feeOf at h
  have h2 : 2 * 34 < 2 ^ 32 := by norm_num
  by_cases h1 : n * 148 < 2 ^ 32
  · by_cases h3 : n * 148 + 2 * 34 < 2 ^ 32
    · by_cases h4 : n * 148 + 2 * 34 + 10 < 2 ^ 32
      · refine ⟨.mulOverflow, ?_, by decide⟩
        simp only [txFee, checkedMul_of_lt h1, checkedMul_of_lt h2, checkedAdd_of_lt h3,
          checkedAdd_of_lt h4, checkedMul_of_le h, Outcome.ok_bind]
      · refine ⟨.addOverflow, ?_, by decide⟩
        simp only [txFee, checkedMul_of_lt h1, checkedMul_of_lt h2, checkedAdd_of_lt h3,
          checkedAdd_of_le (Nat.not_lt.mp h4), Outcome.ok_bind, Outcome.panic_bind]
    · refine ⟨.addOverflow, ?_, by decide⟩
      simp only [txFee, checkedMul_of_lt h1, checkedMul_of_lt h2,
        checkedAdd_of_le (Nat.not_lt.mp h3), Outcome.ok_bind, Outcome.panic_bind]
  · refine ⟨.mulOverflow, ?_, by decide⟩
    simp only [txFee, checkedMul_of_le (Nat.not_lt.mp h1), Outcome.panic_bind]

/-! ## The other steps -/

section Steps

variable {M K A : Type} {lib : AccountLib M K A}

/-- Signing leaves the amounts and the spent outputs as they are. -/
def SignKeepsAmounts (lib : AccountLib M K A) : Prop :=
  ∀ master tx output tx', lib.sign master tx output = .ok tx' →
    tx'.output = tx.output ∧
      tx'.input.map TxIn.previousOutput = tx.input.map TxIn.previousOutput

theorem btcTxErr_eq_ok {α : Type} {x : Except String α} {a : α} :
    btcTxErr x = .ok a ↔ x = .ok a := by
  cases x <;> simp [btcTxErr, Except.mapError, Outcome.ofExcept]

theorem signAll_keeps (hsign : SignKeepsAmounts lib) {master : K} {utxos : List MBtcOutputTx}
    {tx tx' : Transaction} (h : signAll lib master utxos tx = .ok tx') :
    tx'.output = tx.output ∧
      tx'.input.map TxIn.previousOutput = tx.input.map TxIn.previousOutput := by
  induction utxos generalizing tx with
  | nil =>
    cases h
    exact ⟨rfl, rfl⟩
  | cons utxo utxos ih =>
    obtain ⟨output, _, h⟩ := Outcome.bind_eq_ok.mp h
    obtain ⟨tx₁, hsigned, h⟩ := Outcome.bind_eq_ok.mp h
    obtain ⟨hout, hin⟩ := hsign _ _ _ _ (btcTxErr_eq_ok.mp hsigned)
    obtain ⟨hout', hin'⟩ := ih h
    exact ⟨hout'.trans hout, hin'.trans hin⟩

theorem signAll_avoids (master : K) (utxos : List MBtcOutputTx) (tx : Transaction) :
    (signAll lib master utxos tx).Avoids .subOverflow := by
  induction utxos generalizing tx with
  | nil => exact Outcome.avoids_ok _ _
  | cons utxo utxos ih =>
    have hresolve : (resolve lib utxo).Avoids .subOverflow := by
      unfold resolve Outcome.Avoids
      split
      · simp
      · split <;> simp
    exact hresolve.bind fun output => (Outcome.avoids_ofExcept _ _).bind fun tx => ih tx

/-- An unlocked account means that the balance suffices for the amount. -/
theorem unlock_eq_ok {tables : DetailTables} {height : Except Error Nat} {args : TxSignArgs}
    {master : K} {source target : A}
    (h : unlock lib tables height args = .ok (master, source, target)) :
    (tables.balanceHelper.map fun x => x.2.value.toNat).sum < 2 ^ 64 ∧
      lib.addressFromStr args.toAddress = .ok target := by
  obtain ⟨balance, hbalance, h⟩ := Outcome.bind_eq_ok.mp h
  obtain ⟨value, hvalue, _⟩ := Outcome.bind_eq_ok.mp hbalance
  rw [checkedSum_eq] at hvalue
  split_ifs at h hvalue with _ hfits
  obtain ⟨_, _, h⟩ := Outcome.bind_eq_ok.mp h
  obtain ⟨_, _, h⟩ := Outcome.bind_eq_ok.mp h
  obtain ⟨_, _, h⟩ := Outcome.bind_eq_ok.mp h
  obtain ⟨_, _, h⟩ := Outcome.bind_eq_ok.mp h
  split_ifs at h
  obtain ⟨t, htarget, h⟩ := Outcome.bind_eq_ok.mp h
  cases h
  exact ⟨hfits, btcTxErr_eq_ok.mp htarget⟩

theorem unlock_avoids (tables : DetailTables) (height : Except Error Nat) (args : TxSignArgs) :
    (unlock lib tables height args).Avoids .subOverflow := by
  -- nothing is subtracted: neither by the libraries nor in the sum of the balance
  have hunwrap :
      ∀ {α : Type} (x : Option α), (Outcome.ofSome x : Outcome Error α).Avoids .subOverflow :=
    fun x => Outcome.avoids_ofSome (by decide) x
  have hlib : ∀ {α : Type} (x : Except String α), (btcTxErr x).Avoids .subOverflow :=
    fun x => Outcome.avoids_ofExcept _ _
  have hbalance : (loadBalance tables height).Avoids .subOverflow := by
    have hsum : (checkedSum 64 (tables.balanceHelper.map fun x => x.2.value.toNat) :
        Outcome Error Nat).Avoids .subOverflow := by
      rw [checkedSum_eq]
      unfold Outcome.Avoids
      split_ifs <;> simp
    exact hsum.bind fun _ => (Outcome.avoids_ofExcept _ _).bind fun _ => Outcome.avoids_ok _ _
  apply hbalance.bind
  intro balance
  split_ifs
  · exact Outcome.avoids_err _ _
  · apply (hlib _).bind; intro mnemonic
    apply (hunwrap _).bind; intro master
    apply (hlib _).bind; intro master
    apply (hunwrap _).bind; intro source
    split_ifs
    · exact Outcome.avoids_err _ _
    · exact (hlib _).bind fun _ => Outcome.avoids_ok _ _

end Steps

/-! ## Conservation of value -/

section Conserve

variable {M K A : Type} (lib : AccountLib M K A)

/-- What a result of `btc_tx_sign` has to satisfy, from the queue `q` and with the
unspent outputs in the order of the map. -/
structure Conserves (outputs : List MBtcOutputTx) (args : TxSignArgs) (q : List Transaction)
    (r : List Transaction × Outcome Error Transaction) : Prop where
  /-- A transaction that is returned spends the selected outputs, pays the amount
  to the target, and the selected outputs are worth the amount, the other outputs
  and the fee. -/
  returned : ∀ tx, r.2 = .ok tx →
    tx.input.map TxIn.previousOutput =
      (coins args.value.toNat 0 outputs).map (fun utxo => ⟨utxo.btcTxHash, utxo.idx⟩) ∧
    ∃ target fee, lib.addressFromStr args.toAddress = .ok target ∧
      txFee ((coins args.value.toNat 0 outputs).length % 2 ^ 32) 2 = .ok fee ∧
      tx.output.head? = some ⟨args.value, lib.scriptPubkey target⟩ ∧
      valueSum (coins args.value.toNat 0 outputs) =
        args.value.toNat + (tx.output.tail.map fun o => o.value.toNat).sum + fee
  /-- The subtraction of the fee does not underflow. -/
  noUnderflow : r.2 ≠ .panic .subOverflow
  /-- When all outputs together do not cover the amount and the fee, the result is
  an error and nothing is queued. -/
  short : valueSum outputs < args.value.toNat +
      feeOf ((coins args.value.toNat 0 outputs).length % 2 ^ 32) → r.2.IsErr ∧ r.1 = q

/-- The condition. An error before or while signing conserves value; a panic does
when the outputs cover the amount and the fee; a transaction does when the
selected outputs cover the fee and the amount is zero. -/
def SpendOk (tables : DetailTables) (height : Except Error Nat) (outputs : List MBtcOutputTx)
    (args : TxSignArgs) : Prop :=
  let utxos := coins args.value.toNat 0 outputs
  let fee := feeOf (utxos.length % 2 ^ 32)
  let covered := args.value.toNat + fee ≤ valueSum outputs
  match unlock lib tables height args with
  | .err _ => True
  | .panic _ => covered
  | .ok (master, source, target) =>
    if 2 ^ 32 ≤ fee then covered
    else fee ≤ valueSum utxos ∧
      match signAll lib master utxos (spendingTransaction utxos args.value
        (lib.scriptPubkey target) (valueSum utxos - fee) (lib.scriptPubkey source)) with
      | .err _ => True
      | .panic _ => covered
      | .ok _ => args.value = 0

variable {lib} {tables : DetailTables} {height : Except Error Nat} {outputs : List MBtcOutputTx}
  {args : TxSignArgs} {q : List Transaction}

/-- The queue grows by the transaction that is returned, or not at all. -/
theorem btcTxSign_run (tables : DetailTables) (height : Except Error Nat)
    (outputs : List MBtcOutputTx) (args : TxSignArgs) (q : List Transaction) :
    ((btcTxSign lib tables height outputs args).run q).2 =
        buildSigned lib tables height outputs args ∧
      ((∀ tx, buildSigned lib tables height outputs args ≠ .ok tx) →
        ((btcTxSign lib tables height outputs args).run q).1 = q) := by
  have hlift := Method.run_lift (buildSigned lib tables height outputs args) q
  unfold btcTxSign
  cases hbuilt : buildSigned lib tables height outputs args with
  | ok tx =>
    rw [hbuilt] at hlift
    rw [Method.run_bind_of_ok hlift]
    refine ⟨?_, fun h => absurd rfl (h tx)⟩
    cases args.broadcast <;> rfl
  | err e =>
    rw [hbuilt] at hlift
    rw [Method.run_bind_of_err hlift]
    exact ⟨rfl, fun _ => rfl⟩
  | panic p =>
    rw [hbuilt] at hlift
    rw [Method.run_bind_of_panic hlift]
    exact ⟨rfl, fun _ => rfl⟩

/-- An error conserves value. -/
theorem conserves_of_err {r : List Transaction × Outcome Error Transaction} {e : Error}
    (hr : r.2 = .err e) (hq : r.1 = q) : Conserves lib outputs args q r := by
  refine ⟨?_, ?_, fun _ => ⟨by rw [hr]; trivial, hq⟩⟩
  · intro tx htx
    rw [hr] at htx
    cases htx
  · rw [hr]
    exact fun h => nomatch h

/-- A panic other than an underflow conserves value when the outputs cover the
amount and the fee, and not otherwise. -/
theorem conserves_of_panic {r : List Transaction × Outcome Error Transaction} {p : Panic}
    (hr : r.2 = .panic p) (hp : p ≠ .subOverflow) :
    Conserves lib outputs args q r ↔ args.value.toNat +
      feeOf ((coins args.value.toNat 0 outputs).length % 2 ^ 32) ≤ valueSum outputs := by
  constructor
  · intro h
    by_contra hlt
    have herr := (h.short (Nat.not_le.mp hlt)).1
    rw [hr] at herr
    exact herr
  · intro hcovered
    refine ⟨?_, ?_, fun hlt => absurd hcovered (Nat.not_le.mpr hlt)⟩
    · intro tx htx
      rw [hr] at htx
      cases htx
    · rw [hr]
      intro h
      cases h
      exact hp rfl

/-- The selected outputs of an unlocked spend: their total fits a 64-bit word. -/
theorem buildSigned_of_unlock {master : K} {source target : A}
    (horder : outputs.Perm (tables.balanceHelper.map Prod.snd))
    (hunlock : unlock lib tables height args = .ok (master, source, target)) :
    valueSum (coins args.value.toNat 0 outputs) < 2 ^ 64 ∧
    buildSigned lib tables height outputs args = (do
      let fee ← txFee ((coins args.value.toNat 0 outputs).length % 2 ^ 32) 2
      let changeValue ← checkedSub (valueSum (coins args.value.toNat 0 outputs)) fee
      signAll lib master (coins args.value.toNat 0 outputs)
        (spendingTransaction (coins args.value.toNat 0 outputs) args.value
          (lib.scriptPubkey target) changeValue (lib.scriptPubkey source))) := by
  have hsum : valueSum outputs = (tables.balanceHelper.map fun x => x.2.value.toNat).sum := by
    unfold valueSum
    rw [(horder.map fun row => row.value.toNat).sum_eq, List.map_map]
    rfl
  -- the balance was summed without an overflow, and the selection is part of it
  have hfits := (unlock_eq_ok hunlock).1
  rw [← hsum] at hfits
  have hle := valueSum_coins_le args.value.toNat 0 outputs
  refine ⟨by omega, ?_⟩
  unfold buildSigned
  rw [hunlock, Outcome.ok_bind]
  show (selectCoins args.value.toNat outputs 0 [] >>= _) = _
  rw [selectCoins_eq (by omega), Outcome.ok_bind]
  simp only [Nat.zero_add, List.nil_append]

/-- A transaction that is returned conserves value exactly for the amount zero. -/
theorem conserves_of_signed (hsign : SignKeepsAmounts lib) {master : K} {source target : A}
    {r : List Transaction × Outcome Error Transaction} {tx : Transaction}
    (htarget : lib.addressFromStr args.toAddress = .ok target)
    (hfits : valueSum (coins args.value.toNat 0 outputs) < 2 ^ 64)
    (hfee : feeOf ((coins args.value.toNat 0 outputs).length % 2 ^ 32) < 2 ^ 32)
    (hle : feeOf ((coins args.value.toNat 0 outputs).length % 2 ^ 32) ≤
      valueSum (coins args.value.toNat 0 outputs))
    (hsigned : signAll lib master (coins args.value.toNat 0 outputs)
      (spendingTransaction (coins args.value.toNat 0 outputs) args.value
        (lib.scriptPubkey target) (valueSum (coins args.value.toNat 0 outputs) -
          feeOf ((coins args.value.toNat 0 outputs).length % 2 ^ 32))
        (lib.scriptPubkey source)) = .ok tx)
    (hr : r.2 = .ok tx) :
    Conserves lib outputs args q r ↔ args.value = 0 := by
  obtain ⟨hout, hin⟩ := signAll_keeps hsign hsigned
  -- the change is what the selection is worth, less the fee but not less the amount
  have hchange : (tx.output.tail.map fun o => o.value.toNat).sum =
      valueSum (coins args.value.toNat 0 outputs) -
        feeOf ((coins args.value.toNat 0 outputs).length % 2 ^ 32) := by
    rw [hout]
    show (UInt64.ofNat _).toNat + 0 = _
    rw [Nat.add_zero, UInt64.toNat_ofNat_of_lt']
    exact lt_of_le_of_lt (Nat.sub_le _ _) hfits
  constructor
  · intro h
    obtain ⟨_, target', fee, _, hfee', _, hsum⟩ := h.returned tx hr
    rw [txFee_of_lt hfee] at hfee'
    cases hfee'
    rw [hchange] at hsum
    have hzero : args.value.toNat = 0 := by omega
    exact UInt64.toNat_inj.mp hzero
  · intro hzero
    have hvalue : args.value.toNat = 0 := by rw [hzero]; rfl
    refine ⟨?_, ?_, ?_⟩
    · intro tx' htx'
      rw [hr] at htx'
      cases htx'
      refine ⟨?_, target, _, htarget, txFee_of_lt hfee, ?_, ?_⟩
      · rw [hin]
        simp [spendingTransaction, Function.comp_def]
      · rw [hout]
        rfl
      · rw [hchange]
        omega
    · rw [hr]
      exact fun h => nomatch h
    · intro hlt
      -- a selection that is worth the fee is no shortage
      have hall := valueSum_coins_le args.value.toNat 0 outputs
      omega

/-- **Conservation of value.** For every set of recorded outputs, every order of
the map and every amount, `btc_tx_sign` conserves value exactly under the
condition. -/
theorem conserves_iff_spendOk (lib : AccountLib M K A) (hsign : SignKeepsAmounts lib)
    (tables : DetailTables) (height : Except Error Nat) {outputs : List MBtcOutputTx}
    (horder : outputs.Perm (tables.balanceHelper.map Prod.snd)) (args : TxSignArgs)
    (q : List Transaction) :
    Conserves lib outputs args q ((btcTxSign lib tables height outputs args).run q) ↔
      SpendOk lib tables height outputs args := by
  obtain ⟨hr, hq⟩ := btcTxSign_run tables height outputs args q
  unfold SpendOk
  -- what cannot be unlocked is not built
  cases hunlock : unlock lib tables height args with
  | err e =>
    have hbuilt : buildSigned lib tables height outputs args = .err e := by
      unfold buildSigned
      rw [hunlock]
      rfl
    rw [hbuilt] at hr hq
    exact iff_of_true (conserves_of_err hr (hq fun tx h => nomatch h)) trivial
  | panic p =>
    have hbuilt : buildSigned lib tables height outputs args = .panic p := by
      unfold buildSigned
      rw [hunlock]
      rfl
    rw [hbuilt] at hr
    apply conserves_of_panic hr
    rintro rfl
    exact unlock_avoids tables height args hunlock
  | ok account =>
    obtain ⟨master, source, target⟩ := account
    obtain ⟨hfits, hbuilt⟩ := buildSigned_of_unlock horder hunlock
    simp only
    by_cases hfee : 2 ^ 32 ≤ feeOf ((coins args.value.toNat 0 outputs).length % 2 ^ 32)
    · -- the fee does not fit its word, which is a panic
      obtain ⟨p, hp, hne⟩ := txFee_of_le hfee
      rw [hp, Outcome.panic_bind] at hbuilt
      rw [hbuilt] at hr
      rw [if_pos hfee]
      exact conserves_of_panic hr hne
    · rw [if_neg hfee]
      have hlt := Nat.not_le.mp hfee
      rw [txFee_of_lt hlt, Outcome.ok_bind] at hbuilt
      by_cases hle : feeOf ((coins args.value.toNat 0 outputs).length % 2 ^ 32) ≤
          valueSum (coins args.value.toNat 0 outputs)
      · -- the selection is worth the fee
        rw [checkedSub_of_le hle, Outcome.ok_bind] at hbuilt
        rw [hbuilt] at hr hq
        simp only [hle, true_and]
        cases hsigned : signAll lib master (coins args.value.toNat 0 outputs) _ with
        | err e =>
          rw [hsigned] at hr hq
          exact iff_of_true (conserves_of_err hr (hq fun tx h => nomatch h)) trivial
        | panic p =>
          rw [hsigned] at hr
          apply conserves_of_panic hr
          rintro rfl
          exact signAll_avoids _ _ _ hsigned
        | ok tx =>
          rw [hsigned] at hr
          exact conserves_of_signed hsign (unlock_eq_ok hunlock).2 hfits hlt hle hsigned hr
      · -- it is not, and the subtraction underflows
        rw [checkedSub_of_lt (Nat.not_le.mp hle), Outcome.panic_bind] at hbuilt
        rw [hbuilt] at hr
        exact iff_of_false (fun h => h.noUnderflow hr) (fun h => hle h.1)

/-! ## A spend on each side of the condition -/

/-- A library for concrete runs: every text is a mnemonic and an address, and a
signature is the script of the spent output. -/
def unitLib : AccountLib Unit Unit String where
  mnemonicFromStr _ := .ok ()
  masterFromMnemonic _ _ _ := some ()
  addAccount _ := .ok ()
  nextKey _ := some "wallet"
  addressToString a := a
  addressFromStr a := .ok a
  scriptPubkey _ := Script.p2pkh unitKey
  hexToTx _ := some unitFund
  sign _ tx output :=
    match output with
    | some o =>
      .ok { tx with input := tx.input.map fun i => { i with scriptSig := o.scriptPubkey } }
    | none => .error "missing output"

theorem signKeepsAmounts_unitLib : SignKeepsAmounts unitLib := by
  intro master tx output tx' h
  cases output with
  | none => cases h
  | some o =>
    cases h
    refine ⟨rfl, ?_⟩
    simp [Function.comp_def]

def unitArgs (value : UInt64) : TxSignArgs where
  network := .regtest
  mnemonic := ""
  fromAddress := "wallet"
  toAddress := "target"
  password := ""
  value := value
  broadcast := true

/-- One recorded output of 100000 satoshi. -/
def unitTables : DetailTables := record digitHash unitKey [unitTx [⟨1, 0⟩] [100000]]

/-- Three recorded outputs, and the order in which they come out of the map. -/
def severalTables : DetailTables :=
  record digitHash unitKey [unitTx [⟨1, 0⟩] [700], unitTx [⟨2, 0⟩] [100000], unitTx [⟨3, 0⟩] [0]]

def severalOutputs : List MBtcOutputTx := (severalTables.balanceHelper.map Prod.snd).reverse

/-- The amount zero meets the condition: two of the three outputs are spent and return to the
wallet, less the fee. -/
theorem conserves_iff_spendOk_zero :
    Conserves unitLib severalOutputs (unitArgs 0) []
        ((btcTxSign unitLib severalTables (.ok 0) severalOutputs (unitArgs 0)).run []) ∧
      (coins 0 0 severalOutputs).map MBtcOutputTx.value = [0, 100000] := by
  constructor
  · have horder : severalOutputs.Perm (severalTables.balanceHelper.map Prod.snd) := by
      unfold severalOutputs
      exact List.reverse_perm _
    apply (conserves_iff_spendOk unitLib signKeepsAmounts_unitLib severalTables (.ok 0) horder
      (unitArgs 0) []).mpr
    have hvalue : (unitArgs 0).value.toNat = 0 := rfl
    have hcovered : feeOf ((coins 0 0 severalOutputs).length % 2 ^ 32) ≤
        valueSum severalOutputs := by decide +kernel
    have hfee : ¬ 2 ^ 32 ≤ feeOf ((coins 0 0 severalOutputs).length % 2 ^ 32) := by
      decide +kernel
    have hselected : feeOf ((coins 0 0 severalOutputs).length % 2 ^ 32) ≤
        valueSum (coins 0 0 severalOutputs) := by decide +kernel
    unfold SpendOk
    simp only [hvalue, Nat.zero_add, if_neg hfee]
    generalize coins 0 0 severalOutputs = utxos at hcovered hselected ⊢
    cases unlock unitLib severalTables (.ok 0) (unitArgs 0) with
    | err e => trivial
    | panic why => exact hcovered
    | ok accounts =>
      refine ⟨hselected, ?_⟩
      -- an error or a panic of a signature meets the condition, too
      cases signAll unitLib _ _ _ with
      | err e => trivial
      | panic why => exact hcovered
      | ok tx => rfl
  · decide +kernel

/-- A spend of 1000 from 100000 with a fee of 4294 pays 95706 back: the outputs are
worth 1000 more than is left. -/
theorem not_conserves_of_amount :
    ¬ Conserves unitLib (unitTables.balanceHelper.map Prod.snd) (unitArgs 1000) []
      ((btcTxSign unitLib unitTables (.ok 0) (unitTables.balanceHelper.map Prod.snd)
        (unitArgs 1000)).run []) := by
  intro h
  have htx : ((btcTxSign unitLib unitTables (.ok 0) (unitTables.balanceHelper.map Prod.snd)
      (unitArgs 1000)).run []).2 = .ok
        { version := 2, lockTime := 0,
          input := [⟨⟨(unitTx [⟨1, 0⟩] [100000]).bitcoinHash digitHash, 0⟩,
            Script.p2pkh unitKey, rbf, []⟩],
          output := [⟨1000, Script.p2pkh unitKey⟩, ⟨95706, Script.p2pkh unitKey⟩] } := by
    decide +kernel
  obtain ⟨_, _, fee, _, hfee, _, hconserved⟩ := h.returned _ htx
  have hsum : ([(⟨95706, Script.p2pkh unitKey⟩ : TxOut)].map fun o => o.value.toNat).sum =
      95706 := by
    decide +kernel
  have hselected : valueSum (coins 1000 0 (unitTables.balanceHelper.map Prod.snd)) = 100000 := by
    decide +kernel
  have hlength : (coins 1000 0 (unitTables.balanceHelper.map Prod.snd)).length = 1 := by
    decide +kernel
  have hfee' : txFee (1 % 2 ^ 32) 2 = .ok 4294 := by decide +kernel
  have hvalue : (unitArgs 1000).value.toNat = 1000 := rfl
  rw [hvalue, hlength, hfee'] at hfee
  rw [hvalue, hselected, List.tail_cons, hsum, ← Outcome.ok.inj hfee] at hconserved
  omega

end Conserve

end Cashbox.Btc
