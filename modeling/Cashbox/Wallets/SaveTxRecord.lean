import Cashbox.Lib.UniqueTable
import Cashbox.Wallets.Database
import Cashbox.Eee.TxResults
import Cashbox.Eee.DecodeExtrinsics

/-!
# Saving the transfers of a block

`save_tx_record` is given the extrinsics and the events of a block, and saves a row for each
transfer of the account that has a result. The time of the rows is the one that the first
extrinsic sets. A row is saved only if there is none with the hash of the extrinsic, its
signer and the account.
-/

namespace Cashbox.Wallets

open Cashbox.Lib Cashbox.Scale Cashbox.Eee

/-! ## The function -/

structure ChainVersion where
  genesisHash : Text
  runtimeVersion : Int32
  txVersion : Int32

structure ExtrinsicContext where
  chainVersion : ChainVersion
  account : Text
  blockHash : Text
  blockNumber : Text
  event : Text
  extrinsics : List Text

/-- What the chain takes from outside: its libraries, the codecs of its dispatches and the
reader of metadata. -/
structure SubChain (Era E I : Type) where
  runtime : Runtime Era
  dispatch : DispatchCodecs E I
  toSs58check : AccountId → Text
  chainRuntimeMetadata : Text → Except Eee.Error Metadata

variable {Era E I : Type} (chain : SubChain Era E I) (env : Surroundings)

/-- `ChainHelper::init` -/
def initChainHelper (metadataHexStr : Text) (genesisHash : Bytes)
    (runtimeVersion txVersion : UInt32) : Outcome Eee.Error ChainHelper := do
  let metadata ← Outcome.ofExcept (chain.chainRuntimeMetadata metadataHexStr)
  if h : genesisHash.length = 32 then
    .ok { metadata, runtimeVersion, txVersion, genesisHash := ⟨genesisHash, h⟩ }
  else .err (.custom "input genesis hash invalid")

/-- The rows that `get_basic_info` looks for. -/
def findBasicInfo (version : ChainVersion) (db : DataDb) :
    Outcome WalletError (Option (Saved MSubChainBasicInfo)) :=
  if version.genesisHash = [] ∧ version.runtimeVersion = 0 ∧ version.txVersion = 0 then
    .ok (db.subChainBasicInfo.filter fun r => r.row.isDefault = 1).head?
  else
    fetchOne .rbatisError (db.subChainBasicInfo.filter fun r =>
      r.row.genesisHash = version.genesisHash ∧ r.row.runtimeVersion = version.runtimeVersion ∧
        r.row.txVersion = version.txVersion)

def getBasicInfo (version : ChainVersion) :
    Method (Session DataDb) WalletError (Saved MSubChainBasicInfo) := do
  let chainVersion ← query env.fails .rbatisError (findBasicInfo version)
  Method.lift (Outcome.okOr .notExist chainVersion)

/-- What a row is looked for by. -/
def EeeTx.key (r : EeeTx) : Text × Text × Text :=
  (r.txShared.txHash, r.txShared.signer, r.walletAccount)

/-- The row of a transfer. -/
def txRow (ctx : ExtrinsicContext) (detail : TransferDetail) (value : BitVec 128)
    (timestamp : UInt64) (isSuccessful : Bool) : EeeTx where
  txShared :=
    { txHash := detail.hash.getD []
      blockHash := ctx.blockHash
      blockNumber := ctx.blockNumber
      signer := detail.signer.getD []
      txBytes := []
      txTimestamp := timestamp.toInt64 }
  walletAccount := ctx.account
  fromAddress := detail.source.getD []
  toAddress := detail.to'.getD []
  value := Nat.toDigits 10 value.toNat
  status := if isSuccessful then 1 else 0
  extension := detail.extData.getD []

/-- What `save_eee_chain_tx` and `save_eee_tokenx_tx` do with their tables. -/
def saveEeeTx (token : EeeTokenType) (ctx : ExtrinsicContext) (detail : TransferDetail)
    (timestamp : UInt64) (isSuccessful : Bool) : Method (Session DataDb) WalletError Unit := do
  let found ← query env.fails .rbatisError fun db =>
    fetchOne .rbatisError ((db.eeeTx token).filter fun r =>
      r.row.key = (detail.hash.getD [], detail.signer.getD [], ctx.account))
  match found with
  | some _ => pure ()
  | none => do
    let value ← Method.lift (Outcome.ofSome detail.value)
    let row := txRow ctx detail value timestamp isSuccessful
    execute env.fails .rbatisError fun n db =>
      db.setEeeTx token (db.eeeTx token ++ [⟨beforeSave env n 0 default, row⟩])

def saveEeeChainTx := saveEeeTx env .eee

def saveEeeTokenxTx := saveEeeTx env .tokenX

def saveTransferDetail (ctx : ExtrinsicContext) (detail : TransferDetail) (timestamp : UInt64)
    (isSuccessful : Bool) : Method (Session DataDb) WalletError Unit :=
  if detail.tokenName = "EEE" then saveEeeChainTx env ctx detail timestamp isSuccessful
  else if detail.tokenName = "TokenX" then saveEeeTokenxTx env ctx detail timestamp isSuccessful
  else pure ()

/-- The loop over the details that were found. -/
def saveTransferDetails (ctx : ExtrinsicContext) (eventRes : List (Nat × Bool))
    (txTime : TransferDetail) :
    List (Nat × TransferDetail) → Method (Session DataDb) WalletError Unit
  | [] => pure ()
  | (index, detail) :: rest =>
    match detail.signer, eventRes.lookup index with
    | some _, some isSuccessful => do
      let timestamp ← Method.lift (Outcome.ofSome txTime.timestamp)
      saveTransferDetail env ctx detail timestamp isSuccessful
      saveTransferDetails ctx eventRes txTime rest
    | _, _ => saveTransferDetails ctx eventRes txTime rest

/-- The map is gone through in the order of `iter`. -/
def saveTxRecord (iter : List (Nat × TransferDetail) → List (Nat × TransferDetail))
    (ctx : ExtrinsicContext) : Method (Session DataDb) WalletError Unit := do
  let basicInfo ← getBasicInfo env ctx.chainVersion
  let genesisByte ← Method.lift ((Eth.hexstrToVec basicInfo.row.genesisHash).mapErr .decode)
  let helper ← Method.lift ((initChainHelper chain basicInfo.row.metadata genesisByte
    ctx.chainVersion.runtimeVersion.toUInt32 ctx.chainVersion.txVersion.toUInt32).mapErr
      .substrateTx)
  let eventRes ← Method.lift ((helper.decodeEvents chain.dispatch ctx.event none).mapErr
    .substrateTx)
  let extrinsicsMap ← Method.lift ((helper.decodeExtrinsics chain.runtime chain.toSs58check
    ctx.extrinsics ctx.account).mapErr .substrateTx)
  -- Block transaction events There must be a time stamp setting
  let txTime ← Method.lift (Outcome.ofSome (extrinsicsMap.lookup 0))
  saveTransferDetails env ctx eventRes txTime (iter extrinsicsMap)

/-! ## Inserts into the two tables -/

/-- The rows of a token. -/
def rowsOf (token : EeeTokenType) (items : List (EeeTokenType × EeeTx)) : List EeeTx :=
  (items.filter fun item => item.1 = token).map Prod.snd

/-- The rows of a table without the columns that every table has. -/
def DataDb.txRows (db : DataDb) (token : EeeTokenType) : List EeeTx :=
  (db.eeeTx token).map Saved.row

/-- The rows under a key. -/
def DataDb.under (db : DataDb) (token : EeeTokenType) (key : Text × Text × Text) : List EeeTx :=
  (db.txRows token).filter fun r => r.key = key

/-- A database without its transactions. -/
def DataDb.others (db : DataDb) : DataDb := (db.setEeeTx .eee []).setEeeTx .tokenX []

theorem DataDb.eq_of_others {db db' : DataDb} (h : db'.others = db.others)
    (hrows : ∀ token, db'.eeeTx token = db.eeeTx token) : db' = db := by
  have heee : db'.eeeChainTx = db.eeeChainTx := hrows .eee
  have htokenx : db'.eeeTokenxTx = db.eeeTokenxTx := hrows .tokenX
  cases db
  cases db'
  simp_all [DataDb.others, DataDb.setEeeTx]

/-- Each row of the items is inserted unless there is one under its key, and nothing else is
changed. -/
structure Saves (items : List (EeeTokenType × EeeTx)) (before after : DataDb) : Prop where
  grows : ∀ token, ∃ added, after.eeeTx token = before.eeeTx token ++ added
  rows : ∀ token,
    after.txRows token = insertAll EeeTx.key (rowsOf token items) (before.txRows token)
  others : after.others = before.others

namespace Saves

theorem nil (db : DataDb) : Saves [] db db where
  grows _ := ⟨[], (List.append_nil _).symm⟩
  rows _ := rfl
  others := rfl

theorem append {items items' : List (EeeTokenType × EeeTx)} {a b c : DataDb}
    (h : Saves items a b) (h' : Saves items' b c) : Saves (items ++ items') a c where
  grows token := by
    obtain ⟨added, hadded⟩ := h.grows token
    obtain ⟨added', hadded'⟩ := h'.grows token
    exact ⟨added ++ added', by rw [hadded', hadded, List.append_assoc]⟩
  rows token := by
    rw [h'.rows, h.rows, rowsOf, rowsOf, rowsOf, List.filter_append, List.map_append,
      insertAll_append]
  others := h'.others.trans h.others

/-- A row under whose key there is one already is not inserted. -/
theorem of_under {token : EeeTokenType} {row : EeeTx} {db : DataDb}
    (h : db.under token row.key ≠ []) : Saves [(token, row)] db db where
  grows _ := ⟨[], (List.append_nil _).symm⟩
  rows token' := by
    by_cases htoken : token = token'
    · subst htoken
      obtain ⟨r, hr⟩ := List.exists_mem_of_ne_nil _ h
      obtain ⟨hmem, hkey⟩ := List.mem_filter.mp hr
      have htaken : row.key ∈ (db.txRows token).map EeeTx.key :=
        List.mem_map.mpr ⟨r, hmem, of_decide_eq_true hkey⟩
      simp [rowsOf, insertUnique_of_mem htaken]
    · simp [rowsOf, htoken]
  others := rfl

/-- A row under whose key there is none is inserted. -/
theorem of_insert {token : EeeTokenType} {row : EeeTx} {db : DataDb} (shared : Shared)
    (h : db.under token row.key = []) :
    Saves [(token, row)] db (db.setEeeTx token (db.eeeTx token ++ [⟨shared, row⟩])) where
  grows token' := by
    by_cases htoken : token' = token
    · subst htoken
      exact ⟨_, DataDb.eeeTx_setEeeTx ..⟩
    · exact ⟨[], by rw [DataDb.eeeTx_setEeeTx_of_ne htoken, List.append_nil]⟩
  rows token' := by
    by_cases htoken : token' = token
    · subst htoken
      have hfree : row.key ∉ (db.txRows token').map EeeTx.key := by
        intro hmem
        obtain ⟨r, hr, hkey⟩ := List.mem_map.mp hmem
        exact List.filter_eq_nil_iff.mp h r hr (decide_eq_true hkey)
      have hrow : rowsOf token' [(token', row)] = [row] := by simp [rowsOf]
      rw [hrow, insertAll_cons, insertAll_nil, insertUnique_of_not_mem hfree]
      simp [DataDb.txRows]
    · simp [DataDb.txRows, rowsOf, DataDb.eeeTx_setEeeTx_of_ne htoken, Ne.symm htoken]
  others := by cases token <;> rfl

/-- Under each key there is what there was; where there was nothing, the first row. -/
theorem under_eq {items : List (EeeTokenType × EeeTx)} {before after : DataDb}
    (h : Saves items before after) (token : EeeTokenType) (key : Text × Text × Text) :
    after.under token key =
      if before.under token key = [] then
        (((rowsOf token items).filter fun r => r.key = key).head?).toList
      else before.under token key := by
  have hiff : key ∈ (before.txRows token).map EeeTx.key ↔ ¬ before.under token key = [] := by
    rw [DataDb.under, List.filter_eq_nil_iff, List.mem_map]
    simp
  rw [DataDb.under, h.rows, filter_insertAll]
  by_cases hempty : before.under token key = []
  · rw [if_pos hempty, if_neg fun hmem => hiff.mp hmem hempty]
  · rw [if_neg hempty, if_pos (hiff.mpr hempty)]
    rfl

/-- Inserts do not double a key. -/
theorem two_le_under_iff {items : List (EeeTokenType × EeeTx)} {before after : DataDb}
    (h : Saves items before after) (token : EeeTokenType) (key : Text × Text × Text) :
    2 ≤ (after.under token key).length ↔ 2 ≤ (before.under token key).length := by
  rw [h.under_eq]
  by_cases hempty : before.under token key = []
  · rw [if_pos hempty, hempty]
    cases ((rowsOf token items).filter fun r => r.key = key).head? <;> simp
  · rw [if_neg hempty]

end Saves

/-! ## Runs of the loop -/

section Runs

variable {env} {ctx : ExtrinsicContext} {detail : TransferDetail} {timestamp : UInt64}
  {isSuccessful : Bool}

/-- A run that ends in `Err` without an insert: an operation fails, or two rows are found. -/
def Refused (env : Surroundings) (item : EeeTokenType × EeeTx) (db : DataDb)
    (result : Session DataDb × Outcome WalletError Unit) : Prop :=
  result.1.store = db ∧ result.2 = .err .rbatisError ∧
    ((∃ n, env.fails n = true) ∨ 2 ≤ (db.under item.1 item.2.key).length)

/-- A run after which there is a row under the key. -/
def Recorded (item : EeeTokenType × EeeTx) (db : DataDb)
    (result : Session DataDb × Outcome WalletError Unit) : Prop :=
  result.2 = .ok () ∧ Saves [item] db result.1.store ∧
    ¬ 2 ≤ (db.under item.1 item.2.key).length

theorem under_eq_map (db : DataDb) (token : EeeTokenType) (key : Text × Text × Text) :
    db.under token key = ((db.eeeTx token).filter fun r => r.row.key = key).map Saved.row := by
  rw [DataDb.under, DataDb.txRows, List.filter_map]
  rfl

theorem run_saveEeeTx (token : EeeTokenType) {value : BitVec 128}
    (hvalue : detail.value = some value) (s : Session DataDb) :
    Refused env (token, txRow ctx detail value timestamp isSuccessful) s.store
        ((saveEeeTx env token ctx detail timestamp isSuccessful).run s) ∨
      Recorded (token, txRow ctx detail value timestamp isSuccessful) s.store
        ((saveEeeTx env token ctx detail timestamp isSuccessful).run s) := by
  have hunder := under_eq_map s.store token
    (txRow ctx detail value timestamp isSuccessful).key
  -- the query of the row comes first
  cases hfails : env.fails s.calls with
  | true =>
    have hrun : (saveEeeTx env token ctx detail timestamp isSuccessful).run s = _ :=
      Method.run_bind_of_err (run_query_of_fails hfails)
    rw [hrun]
    exact .inl ⟨rfl, rfl, .inl ⟨_, hfails⟩⟩
  | false =>
    have hquery : (query env.fails .rbatisError fun db : DataDb =>
        fetchOne WalletError.rbatisError ((db.eeeTx token).filter fun r =>
          r.row.key = (detail.hash.getD [], detail.signer.getD [], ctx.account))).run s = _ :=
      run_query_of_not_fails hfails
    rcases hfound : (s.store.eeeTx token).filter fun r =>
        r.row.key = (detail.hash.getD [], detail.signer.getD [], ctx.account) with
      _ | ⟨r, _ | ⟨r', rows⟩⟩
    · -- no row: it is inserted
      rw [hfound] at hquery
      have hempty : s.store.under token (txRow ctx detail value timestamp isSuccessful).key = [] :=
        hunder.trans (congrArg (List.map Saved.row) hfound)
      have hinsert : (saveEeeTx env token ctx detail timestamp isSuccessful).run s =
          (execute env.fails .rbatisError fun n (db : DataDb) => db.setEeeTx token
            (db.eeeTx token ++ [⟨beforeSave env n 0 default,
              txRow ctx detail value timestamp isSuccessful⟩])).run
            { s with calls := s.calls + 1 } :=
        (Method.run_bind_of_ok hquery).trans (Method.run_bind_of_ok (by rw [hvalue]; rfl))
      rw [hinsert]
      cases hfails' : env.fails (s.calls + 1) with
      | true =>
        rw [run_execute_of_fails hfails']
        exact .inl ⟨rfl, rfl, .inl ⟨_, hfails'⟩⟩
      | false =>
        rw [run_execute_of_not_fails hfails']
        refine .inr ⟨rfl, Saves.of_insert _ hempty, ?_⟩
        rw [hempty]
        simp
    · -- one row: it is left as it is
      rw [hfound] at hquery
      have hrun : (saveEeeTx env token ctx detail timestamp isSuccessful).run s = _ :=
        Method.run_bind_of_ok hquery
      rw [hrun]
      have hone : s.store.under token (txRow ctx detail value timestamp isSuccessful).key =
          [r.row] := hunder.trans (congrArg (List.map Saved.row) hfound)
      refine .inr ⟨rfl, Saves.of_under ?_, ?_⟩
      · rw [hone]
        exact List.cons_ne_nil _ _
      · rw [hone]
        simp
    · -- several rows: an error
      rw [hfound] at hquery
      have hrun : (saveEeeTx env token ctx detail timestamp isSuccessful).run s = _ :=
        Method.run_bind_of_err hquery
      rw [hrun]
      refine .inl ⟨rfl, rfl, .inr ?_⟩
      have hmany : s.store.under token (txRow ctx detail value timestamp isSuccessful).key =
          (r :: r' :: rows).map Saved.row := hunder.trans (congrArg (List.map Saved.row) hfound)
      show 2 ≤ (s.store.under token (txRow ctx detail value timestamp isSuccessful).key).length
      rw [hmany]
      simp

/-- The token under whose name a detail is saved. -/
def tokenOf (detail : TransferDetail) : Option EeeTokenType :=
  if detail.tokenName = "EEE" then some .eee
  else if detail.tokenName = "TokenX" then some .tokenX
  else none

theorem run_saveTransferDetail {token : EeeTokenType} {value : BitVec 128}
    (htoken : tokenOf detail = some token) (hvalue : detail.value = some value)
    (s : Session DataDb) :
    Refused env (token, txRow ctx detail value timestamp isSuccessful) s.store
        ((saveTransferDetail env ctx detail timestamp isSuccessful).run s) ∨
      Recorded (token, txRow ctx detail value timestamp isSuccessful) s.store
        ((saveTransferDetail env ctx detail timestamp isSuccessful).run s) := by
  have hcall : saveTransferDetail env ctx detail timestamp isSuccessful =
      saveEeeTx env token ctx detail timestamp isSuccessful := by
    unfold tokenOf at htoken
    unfold saveTransferDetail
    split_ifs at htoken with heee htokenx
    · rw [if_pos heee, ← Option.some.inj htoken]
      rfl
    · rw [if_neg heee, if_pos htokenx, ← Option.some.inj htoken]
      rfl
  rw [hcall]
  exact run_saveEeeTx token hvalue s

/-- The row that the loop sees to at an entry of the map. -/
def itemOf (ctx : ExtrinsicContext) (timestamp : UInt64) (eventRes : List (Nat × Bool))
    (entry : Nat × TransferDetail) : Option (EeeTokenType × EeeTx) := do
  let _ ← entry.2.signer
  let isSuccessful ← eventRes.lookup entry.1
  let token ← tokenOf entry.2
  let value ← entry.2.value
  some (token, txRow ctx entry.2 value timestamp isSuccessful)

/-- A detail with a signer has a token and a value. -/
def Complete (detail : TransferDetail) : Prop :=
  detail.signer.isSome → (tokenOf detail).isSome ∧ detail.value.isSome

theorem saveTransferDetails_cons_of_none {eventRes : List (Nat × Bool)} {txTime : TransferDetail}
    {entry : Nat × TransferDetail} {entries : List (Nat × TransferDetail)}
    (hcomplete : Complete entry.2) (h : itemOf ctx timestamp eventRes entry = none) :
    saveTransferDetails env ctx eventRes txTime (entry :: entries) =
      saveTransferDetails env ctx eventRes txTime entries := by
  obtain ⟨index, detail⟩ := entry
  rw [saveTransferDetails]
  cases hsigner : detail.signer with
  | none => rfl
  | some signer =>
    cases hres : eventRes.lookup index with
    | none => rfl
    | some isSuccessful =>
      -- a complete detail would have an item
      have hcomplete : (tokenOf detail).isSome ∧ detail.value.isSome :=
        hcomplete (Option.isSome_iff_exists.mpr ⟨signer, hsigner⟩)
      obtain ⟨token, htoken⟩ := Option.isSome_iff_exists.mp hcomplete.1
      obtain ⟨value, hvalue⟩ := Option.isSome_iff_exists.mp hcomplete.2
      simp [itemOf, hsigner, hres, htoken, hvalue] at h

theorem saveTransferDetails_cons_of_some {eventRes : List (Nat × Bool)} {txTime : TransferDetail}
    (htime : txTime.timestamp = some timestamp) {entry : Nat × TransferDetail}
    {entries : List (Nat × TransferDetail)} {item : EeeTokenType × EeeTx}
    (h : itemOf ctx timestamp eventRes entry = some item) :
    ∃ value isSuccessful, tokenOf entry.2 = some item.1 ∧ entry.2.value = some value ∧
      item.2 = txRow ctx entry.2 value timestamp isSuccessful ∧
      saveTransferDetails env ctx eventRes txTime (entry :: entries) =
        (saveTransferDetail env ctx entry.2 timestamp isSuccessful >>= fun _ =>
          saveTransferDetails env ctx eventRes txTime entries) := by
  obtain ⟨index, detail⟩ := entry
  obtain ⟨signer, hsigner, h⟩ := Option.bind_eq_some_iff.mp h
  obtain ⟨isSuccessful, hres, h⟩ := Option.bind_eq_some_iff.mp h
  obtain ⟨token, htoken, h⟩ := Option.bind_eq_some_iff.mp h
  obtain ⟨value, hvalue, h⟩ := Option.bind_eq_some_iff.mp h
  obtain rfl := Option.some.inj h
  refine ⟨value, isSuccessful, htoken, hvalue, rfl, ?_⟩
  have hsigner : detail.signer = some signer := hsigner
  have hres : eventRes.lookup index = some isSuccessful := hres
  rw [saveTransferDetails, hsigner, hres, htime]
  rfl

/-- A run that sees to rows in order, until an operation fails or a key is doubled. -/
def SeesTo (env : Surroundings) (items : List (EeeTokenType × EeeTx)) (db : DataDb)
    (result : Session DataDb × Outcome WalletError Unit) : Prop :=
  ∃ seen rest, items = seen ++ rest ∧ Saves seen db result.1.store ∧
    (result.2 = .ok () ∧ rest = [] ∧
        (∀ item ∈ items, ¬ 2 ≤ (db.under item.1 item.2.key).length) ∨
      result.2 = .err .rbatisError ∧ ((∃ n, env.fails n = true) ∨
        ∃ item ∈ items, 2 ≤ (db.under item.1 item.2.key).length))

/-- The loop sees to the rows of its entries. -/
theorem run_saveTransferDetails {eventRes : List (Nat × Bool)} {txTime : TransferDetail}
    (htime : txTime.timestamp = some timestamp) (entries : List (Nat × TransferDetail))
    (hentries : ∀ e ∈ entries, Complete e.2) (s : Session DataDb) :
    SeesTo env (entries.filterMap (itemOf ctx timestamp eventRes)) s.store
      ((saveTransferDetails env ctx eventRes txTime entries).run s) := by
  induction entries generalizing s with
  | nil => exact ⟨[], [], rfl, Saves.nil _, .inl ⟨rfl, rfl, by simp⟩⟩
  | cons entry entries ih =>
    have hrest : ∀ e ∈ entries, Complete e.2 := fun e he =>
      hentries e (List.mem_cons_of_mem _ he)
    cases hitem : itemOf ctx timestamp eventRes entry with
    | none =>
      rw [List.filterMap_cons_none hitem,
        saveTransferDetails_cons_of_none (hentries entry List.mem_cons_self) hitem]
      exact ih hrest s
    | some item =>
      obtain ⟨value, isSuccessful, htoken, hvalue, hrow, hloop⟩ :=
        saveTransferDetails_cons_of_some htime hitem
      rw [List.filterMap_cons_some hitem, hloop]
      have hsave := @run_saveTransferDetail env ctx entry.2 timestamp isSuccessful _ _ htoken
        hvalue s
      rw [← hrow] at hsave
      rcases hsave with ⟨hstore, herr, hwhy⟩ | ⟨hok, hsaves, hsingle⟩
      · have hrun := Method.run_bind_of_err (f := fun _ =>
          saveTransferDetails env ctx eventRes txTime entries) (Prod.ext rfl herr)
        rw [hrun]
        refine ⟨[], item :: _, rfl, ?_, .inr ⟨rfl, ?_⟩⟩
        · rw [hstore]
          exact Saves.nil _
        · exact hwhy.imp id fun hdouble => ⟨item, List.mem_cons_self, hdouble⟩
      · have hrun := Method.run_bind_of_ok (f := fun _ =>
          saveTransferDetails env ctx eventRes txTime entries) (Prod.ext rfl hok)
        rw [hrun]
        obtain ⟨seen, rest, hitems, hseen, hend⟩ := ih hrest
          ((saveTransferDetail env ctx entry.2 timestamp isSuccessful).run s).1
        refine ⟨item :: seen, rest, by rw [hitems]; rfl, hsaves.append hseen, ?_⟩
        -- no key is doubled on the way
        simp only [hsaves.two_le_under_iff] at hend
        rcases hend with ⟨hok', hrest', hsingles⟩ | ⟨herr, hwhy⟩
        · refine .inl ⟨hok', hrest', ?_⟩
          intro item' hitem'
          rcases List.mem_cons.mp hitem' with rfl | hitem'
          · exact hsingle
          · exact hsingles item' hitem'
        · refine .inr ⟨herr, hwhy.imp id ?_⟩
          rintro ⟨item', hitem', hdouble⟩
          exact ⟨item', List.mem_cons_of_mem _ hitem', hdouble⟩

/-- Without a time the first row to be seen to is a panic. -/
theorem run_saveTransferDetails_of_no_time {eventRes : List (Nat × Bool)}
    {txTime : TransferDetail} (htime : txTime.timestamp = none)
    (entries : List (Nat × TransferDetail)) (hentries : ∀ e ∈ entries, Complete e.2)
    (s : Session DataDb) :
    (saveTransferDetails env ctx eventRes txTime entries).run s =
      (s, if entries.filterMap (itemOf ctx timestamp eventRes) = [] then .ok ()
        else .panic .unwrapFailed) := by
  induction entries with
  | nil => rfl
  | cons entry entries ih =>
    have hrest : ∀ e ∈ entries, Complete e.2 := fun e he =>
      hentries e (List.mem_cons_of_mem _ he)
    cases hitem : itemOf ctx timestamp eventRes entry with
    | none =>
      rw [List.filterMap_cons_none hitem,
        saveTransferDetails_cons_of_none (hentries entry List.mem_cons_self) hitem]
      exact ih hrest
    | some item =>
      rw [List.filterMap_cons_some hitem, if_neg (List.cons_ne_nil _ _)]
      obtain ⟨index, detail⟩ := entry
      obtain ⟨signer, hsigner, h⟩ := Option.bind_eq_some_iff.mp hitem
      obtain ⟨isSuccessful, hres, _⟩ := Option.bind_eq_some_iff.mp h
      have hsigner : detail.signer = some signer := hsigner
      have hres : eventRes.lookup index = some isSuccessful := hres
      rw [saveTransferDetails, hsigner, hres, htime]
      rfl

end Runs

/-! ## The transfers of a block -/

/-- A block: the context it is given by, and what that decodes to. -/
structure Block (Era : Type) where
  ctx : ExtrinsicContext
  helper : ChainHelper
  extrinsics : List (Extrinsic Era)
  eventRes : List (Nat × Bool)
  account : AccountId

/-- A transfer with its extrinsic and the result of that. -/
structure BlockTransfer (Era : Type) where
  extrinsic : Extrinsic Era
  transfer : Transfer
  success : Bool

namespace Block

variable (b : Block Era)

/-- The chain is known to the database, and extrinsics and events decode. -/
structure Decodes (db : DataDb) : Prop where
  basicInfo : ∃ info genesis, findBasicInfo b.ctx.chainVersion db = .ok (some info) ∧
    Eth.hexstrToVec info.row.genesisHash = .ok genesis ∧
    initChainHelper chain info.row.metadata genesis b.ctx.chainVersion.runtimeVersion.toUInt32
      b.ctx.chainVersion.txVersion.toUInt32 = .ok b.helper
  extrinsics : b.ctx.extrinsics = b.extrinsics.map Extrinsic.text
  wellFormed : ∀ x ∈ b.extrinsics, x.WellFormed chain.runtime b.helper
  account : chain.runtime.fromSs58check b.ctx.account = .ok b.account
  events : b.helper.decodeEvents chain.dispatch b.ctx.event none = .ok b.eventRes

/-- The time of the block: the one that its first extrinsic to do so sets. -/
def time : Option UInt64 := b.extrinsics.findSome? fun x => setTime b.helper x.checked.function

/-- The extrinsic at an index is a transfer, and has a result. -/
structure Has (i : Nat) (t : BlockTransfer Era) : Prop where
  extrinsic : b.extrinsics[i]? = some t.extrinsic
  transfer : IsTransfer b.helper t.extrinsic.checked t.transfer
  result : b.eventRes.lookup i = some t.success

/-- The transfers to be saved. -/
def Due (i : Nat) (t : BlockTransfer Era) : Prop :=
  b.Has i t ∧ t.transfer.Involves b.account

/-- The transfers that the decoder finds. -/
def Found (i : Nat) (t : BlockTransfer Era) : Prop :=
  b.Has i t ∧ t.transfer.Noticed b.helper t.extrinsic.checked b.account

def token (t : BlockTransfer Era) : EeeTokenType :=
  if b.helper.kindOf t.extrinsic.checked.function = .balance then .eee else .tokenX

/-- The hash, the signer and the account. -/
def key (t : BlockTransfer Era) : Text × Text × Text :=
  (Crypto.hexEncode (chain.runtime.blake2_256 t.extrinsic.bytes).1,
    chain.toSs58check t.transfer.signer, b.ctx.account)

/-- The source, the recipient, the amount and the status. The source is left out where that is
the signer of a plain transfer. -/
def facts (t : BlockTransfer Era) : Text × Text × Text × UInt32 :=
  (if b.helper.kindOf t.extrinsic.checked.function = .tokenxFrom then
      chain.toSs58check t.transfer.source else [],
    chain.toSs58check t.transfer.recipient, Nat.toDigits 10 t.transfer.amount.toNat,
    if t.success then 1 else 0)

end Block

def EeeTx.facts (r : EeeTx) : Text × Text × Text × UInt32 :=
  (r.fromAddress, r.toAddress, r.value, r.status)

namespace Block

variable (b : Block Era)

/-- The row is the one of a transfer: its parties, amount and status, and the time of the
block. -/
def IsRowOf (r : EeeTx) (t : BlockTransfer Era) : Prop :=
  r.key = b.key chain t ∧ r.facts = b.facts chain t ∧
    ∃ time, b.time = some time ∧ r.txShared.txTimestamp.toInt = time.toNat

/-- There is one row of a transfer in the table of its token. -/
def HasRow (db : DataDb) (t : BlockTransfer Era) : Prop :=
  ∃ r, db.under (b.token t) (b.key chain t) = [r] ∧ b.IsRowOf chain r t

/-- Each transfer to be saved has its row, the rows before are there in their order, each new
row is one of a transfer, and the other tables are as before. -/
structure IsSaved (before after : DataDb) : Prop where
  complete : ∀ i t, b.Due i t → b.HasRow chain after t
  exact : ∀ token, ∃ added, after.eeeTx token = before.eeeTx token ++ added ∧
    ∀ r ∈ added, ∃ i t, b.Due i t ∧ b.token t = token ∧ b.IsRowOf chain r.row t
  others : after.others = before.others

/-- Whatever operations fail and in whatever order the map is gone through: there is no panic,
what returns `Ok` has saved the block, and doing it again changes nothing. -/
def SavedByEveryRun (before : DataDb) : Prop :=
  ∀ (env : Surroundings) (iter : List (Nat × TransferDetail) → List (Nat × TransferDetail))
    (calls : Nat), (∀ m, (iter m).Perm m) →
    (∀ p, ((saveTxRecord chain env iter b.ctx).run ⟨before, calls⟩).2 ≠ .panic p) ∧
      ∀ after, (saveTxRecord chain env iter b.ctx).run ⟨before, calls⟩ = (after, .ok ()) →
        b.IsSaved chain before after.store ∧
          ∀ (env' : Surroundings)
            (iter' : List (Nat × TransferDetail) → List (Nat × TransferDetail)) (calls' : Nat),
            (∀ m, (iter' m).Perm m) →
            ((saveTxRecord chain env' iter' b.ctx).run ⟨after.store, calls'⟩).1.store =
              after.store

/-! ### When it is saved -/

/-- The first extrinsic sets a time; or it is a transfer that is found, and no transfer that is
found has a result. -/
def StartsWithTime : Prop :=
  ∃ x, b.extrinsics[0]? = some x ∧ ((setTime b.helper x.checked.function).isSome ∨
    (∃ t, IsTransfer b.helper x.checked t ∧ t.Noticed b.helper x.checked b.account) ∧
      ∀ i t, ¬ b.Found i t)

/-- Two rows are there under the key of a transfer that is found. -/
def Doubled (db : DataDb) : Prop :=
  ∃ i t, b.Found i t ∧ 2 ≤ (db.under (b.token t) (b.key chain t)).length

/-- A transfer has its row; or it has none, the time fits its column, and the transfers that are
found under its key, of which there is one, have the same parties, amount and status. -/
def Settles (db : DataDb) (t : BlockTransfer Era) : Prop :=
  b.HasRow chain db t ∨
    db.under (b.token t) (b.key chain t) = [] ∧
      (∃ time, b.time = some time ∧ time.toNat < 2 ^ 63) ∧
      (∃ j u, b.Found j u ∧ b.token u = b.token t ∧ b.key chain u = b.key chain t) ∧
      ∀ j u, b.Found j u → b.token u = b.token t → b.key chain u = b.key chain t →
        b.facts chain u = b.facts chain t

end Block

/-! ## What the decoder finds -/

section Entries

variable {b : Block Era} {kept : List (Option TransferDetail)}

theorem Block.Has.unique {i : Nat} {t t' : BlockTransfer Era} (h : b.Has i t) (h' : b.Has i t') :
    t' = t := by
  obtain ⟨x, transfer, success⟩ := t
  obtain ⟨x', transfer', success'⟩ := t'
  obtain rfl : x' = x := Option.some.inj (h'.extrinsic.symm.trans h.extrinsic)
  obtain rfl : transfer' = transfer := h.transfer.unique h'.transfer
  obtain rfl : success' = success := Option.some.inj (h'.result.symm.trans h.result)
  rfl

/-- A transfer that is found is one to be saved. -/
theorem Block.Found.due {i : Nat} {t : BlockTransfer Era} (h : b.Found i t) : b.Due i t :=
  ⟨h.1, (h.1.transfer.involves_iff).mpr (.inl h.2)⟩

/-- What is kept of the extrinsics of a block. -/
def Keeps (b : Block Era) (kept : List (Option TransferDetail)) : Prop :=
  List.Forall₂ (fun x k => KeptOk chain.runtime chain.toSs58check b.helper b.account x k ∧
    KeptOfKind b.helper x k) b.extrinsics kept

variable {chain}

theorem Keeps.entry (h : Keeps chain b kept) {i : Nat} {d : TransferDetail}
    (hd : (i, d) ∈ enumerated 0 kept) :
    ∃ x, b.extrinsics[i]? = some x ∧
      KeptOk chain.runtime chain.toSs58check b.helper b.account x (some d) ∧
        KeptOfKind b.helper x (some d) := by
  obtain ⟨j, hj, hkept⟩ := mem_enumerated.mp hd
  obtain rfl : i = j := hj.trans (Nat.zero_add j)
  rcases getElem?_of_forall₂ h i with ⟨_, hnone⟩ | ⟨x, k, hx, hk, hok, hkind⟩
  · rw [hnone] at hkept
    cases hkept
  · obtain rfl := Option.some.inj (hk.symm.trans hkept)
    exact ⟨x, hx, hok, hkind⟩

theorem tokenOf_eq {d : TransferDetail} {kind : CallKind} (h : d.tokenName = kind.tokenName) :
    tokenOf d = some (if kind = .balance then .eee else .tokenX) := by
  rw [tokenOf, h]
  cases kind <;> rfl

/-- An entry with a signer is about a transfer that is noticed. -/
theorem Keeps.noticed (h : Keeps chain b kept) {i : Nat} {d : TransferDetail}
    (hd : (i, d) ∈ enumerated 0 kept) (hsigner : d.signer.isSome) :
    ∃ x t, b.extrinsics[i]? = some x ∧ IsTransfer b.helper x.checked t ∧
      t.Noticed b.helper x.checked b.account ∧
      d.Carries chain.toSs58check (Crypto.hexEncode (chain.runtime.blake2_256 x.bytes).1) t ∧
      DetailOfKind b.helper x.checked.function d := by
  obtain ⟨x, hx, hok, hkind⟩ := h.entry hd
  obtain ⟨t, ht, hnoticed⟩ := hok.1.mp ⟨d, rfl, hsigner⟩
  exact ⟨x, t, hx, ht, hnoticed, hok.2 d t rfl hsigner ht, hkind.detail d rfl⟩

theorem Keeps.complete (h : Keeps chain b kept) :
    ∀ e ∈ enumerated 0 kept, Complete e.2 := by
  rintro ⟨i, d⟩ hd hsigner
  obtain ⟨x, t, _, _, _, ⟨_, _, _, hvalue, _⟩, hkind⟩ := h.noticed hd hsigner
  have htoken := tokenOf_eq (hkind.tokenName hsigner)
  exact ⟨Option.isSome_iff_exists.mpr ⟨_, htoken⟩, Option.isSome_iff_exists.mpr ⟨_, hvalue⟩⟩

variable {time : UInt64}

/-- The row of an item is the one of a transfer that is found. -/
theorem Keeps.found_of_item (h : Keeps chain b kept) {i : Nat} {d : TransferDetail}
    (hd : (i, d) ∈ enumerated 0 kept) {item : EeeTokenType × EeeTx}
    (hitem : itemOf b.ctx time b.eventRes (i, d) = some item) :
    ∃ t, b.Found i t ∧ item.1 = b.token t ∧ item.2.key = b.key chain t ∧
      item.2.facts = b.facts chain t ∧ item.2.txShared.txTimestamp = time.toInt64 := by
  obtain ⟨signer, hsigner, hitem⟩ := Option.bind_eq_some_iff.mp hitem
  obtain ⟨success, hres, hitem⟩ := Option.bind_eq_some_iff.mp hitem
  obtain ⟨token, htoken, hitem⟩ := Option.bind_eq_some_iff.mp hitem
  obtain ⟨value, hvalue, hitem⟩ := Option.bind_eq_some_iff.mp hitem
  obtain rfl := Option.some.inj hitem
  have hsome : d.signer.isSome := Option.isSome_iff_exists.mpr ⟨signer, hsigner⟩
  obtain ⟨x, t, hx, ht, hnoticed, ⟨hsigner', hsource, hto, hvalue', _, hhash⟩, hkind⟩ :=
    h.noticed hd hsome
  refine ⟨⟨x, t, success⟩, ⟨⟨hx, ht, hres⟩, hnoticed⟩, ?_, ?_, ?_, rfl⟩
  · exact Option.some.inj (htoken.symm.trans (tokenOf_eq (hkind.tokenName hsome)))
  · show (d.hash.getD [], d.signer.getD [], b.ctx.account) = _
    rw [hhash, hsigner']
    rfl
  · have hfrom : d.source.getD [] = if b.helper.kindOf x.checked.function = .tokenxFrom then
        chain.toSs58check t.source else [] := by
      have hiff := hkind.source hsome
      cases hdsource : d.source with
      | none =>
        rw [hdsource] at hiff
        rw [if_neg fun hfrom => Bool.false_ne_true (hiff.mpr hfrom)]
        rfl
      | some source =>
        rw [hdsource] at hiff hsource
        rw [if_pos (hiff.mp rfl), ← hsource]
        rfl
    obtain rfl := Option.some.inj (hvalue.symm.trans hvalue')
    show (d.source.getD [], d.to'.getD [], Nat.toDigits 10 t.amount.toNat, _) = _
    rw [hfrom, hto]
    rfl

/-- A transfer that is found has an item. -/
theorem Keeps.exists_item (h : Keeps chain b kept) {i : Nat} {t : BlockTransfer Era}
    (ht : b.Found i t) (time : UInt64) :
    ∃ d item, (i, d) ∈ enumerated 0 kept ∧ itemOf b.ctx time b.eventRes (i, d) = some item := by
  obtain ⟨⟨hx, htransfer, hres⟩, hnoticed⟩ := ht
  rcases getElem?_of_forall₂ h i with ⟨hnone, _⟩ | ⟨x, k, hx', hk, hok, _⟩
  · rw [hnone] at hx
    cases hx
  · obtain rfl := Option.some.inj (hx'.symm.trans hx)
    obtain ⟨d, rfl, hsigner⟩ := hok.1.mpr ⟨t.transfer, htransfer, hnoticed⟩
    have hd : (i, d) ∈ enumerated 0 kept := mem_enumerated.mpr ⟨i, (Nat.zero_add i).symm, hk⟩
    obtain ⟨htoken, hvalue⟩ := h.complete _ hd hsigner
    obtain ⟨signer, hsigner⟩ := Option.isSome_iff_exists.mp hsigner
    obtain ⟨token, htoken⟩ := Option.isSome_iff_exists.mp htoken
    obtain ⟨value, hvalue⟩ := Option.isSome_iff_exists.mp hvalue
    refine ⟨d, (token, txRow b.ctx d value time t.success), hd, ?_⟩
    exact Option.bind_eq_some_iff.mpr ⟨signer, hsigner, Option.bind_eq_some_iff.mpr ⟨_, hres,
      Option.bind_eq_some_iff.mpr ⟨token, htoken, Option.bind_eq_some_iff.mpr
        ⟨value, hvalue, rfl⟩⟩⟩⟩

/-- The first entry of the map has the time of the block, if the block starts with one. -/
theorem Keeps.startsWithTime_iff (h : Keeps chain b kept) :
    b.StartsWithTime ↔ ∃ d, (enumerated 0 kept).lookup 0 = some d ∧
      (d.timestamp.isSome ∨ ∀ i t, ¬ b.Found i t) := by
  have hlookup : (enumerated 0 kept).lookup 0 = kept[0]?.join := lookup_enumerated kept 0 0
  rw [hlookup]
  rcases getElem?_of_forall₂ h 0 with ⟨hx, hk⟩ | ⟨x, k, hx, hk, hok, hkind⟩
  · simp [Block.StartsWithTime, hx, hk]
  · rw [hk]
    constructor
    · rintro ⟨x', hx', hstart⟩
      obtain rfl := Option.some.inj (hx.symm.trans hx')
      rcases hstart with htime | ⟨⟨t, ht, hnoticed⟩, hnone⟩
      · cases k with
        | none =>
          rw [hkind.none rfl] at htime
          cases htime
        | some d => exact ⟨d, rfl, .inl ((hkind.detail d rfl).timestamp ▸ htime)⟩
      · obtain ⟨d, rfl, _⟩ := hok.1.mpr ⟨t, ht, hnoticed⟩
        exact ⟨d, rfl, .inr hnone⟩
    · rintro ⟨d, hd, hwhy⟩
      obtain rfl : k = some d := hd
      refine ⟨x, hx, ?_⟩
      have htime := (hkind.detail d rfl).timestamp
      rcases hkind.filled d rfl with hset | hsigner
      · exact .inl (htime ▸ hset)
      · rcases hwhy with hset | hnone
        · exact .inl (htime ▸ hset)
        · obtain ⟨t, ht, hnoticed⟩ := hok.1.mp ⟨d, rfl, hsigner⟩
          exact .inr ⟨⟨t, ht, hnoticed⟩, hnone⟩

end Entries

/-! ## Runs on a block -/

section BlockRuns

variable {chain env} {b : Block Era} {db : DataDb} {kept : List (Option TransferDetail)}

theorem Block.Decodes.exists_keeps (h : b.Decodes chain db) :
    ∃ kept, b.helper.decodeExtrinsics chain.runtime chain.toSs58check b.ctx.extrinsics
        b.ctx.account = .ok (enumerated 0 kept) ∧ Keeps chain b kept := by
  rw [h.extrinsics]
  exact decodeExtrinsics_kept chain.runtime chain.toSs58check h.wellFormed h.account

/-- The chain is found in a database with the same other tables. -/
theorem Block.Decodes.of_others {db' : DataDb} (h : b.Decodes chain db)
    (hothers : db'.others = db.others) : b.Decodes chain db' where
  basicInfo := by
    have hinfo : db'.subChainBasicInfo = db.subChainBasicInfo :=
      show db'.others.subChainBasicInfo = db.others.subChainBasicInfo by rw [hothers]
    obtain ⟨info, genesis, hfind, hgenesis, hinit⟩ := h.basicInfo
    refine ⟨info, genesis, ?_, hgenesis, hinit⟩
    rw [← hfind, findBasicInfo, findBasicInfo, hinfo]
  extrinsics := h.extrinsics
  wellFormed := h.wellFormed
  account := h.account
  events := h.events

variable (env) in
/-- Up to the first entry of the map. -/
theorem run_saveTxRecord (h : b.Decodes chain db) {map : List (Nat × TransferDetail)}
    (hmap : b.helper.decodeExtrinsics chain.runtime chain.toSs58check b.ctx.extrinsics
      b.ctx.account = .ok map)
    (iter : List (Nat × TransferDetail) → List (Nat × TransferDetail)) (calls : Nat) :
    (saveTxRecord chain env iter b.ctx).run ⟨db, calls⟩ =
      if env.fails calls then (⟨db, calls + 1⟩, .err .rbatisError)
      else (Method.lift (Outcome.ofSome (map.lookup 0)) >>= fun txTime =>
        saveTransferDetails env b.ctx b.eventRes txTime (iter map)).run ⟨db, calls + 1⟩ := by
  obtain ⟨info, genesis, hfind, hgenesis, hinit⟩ := h.basicInfo
  cases hfails : env.fails calls with
  | true =>
    rw [if_pos rfl]
    have hinfo : (getBasicInfo env b.ctx.chainVersion).run ⟨db, calls⟩ = _ :=
      Method.run_bind_of_err (run_query_of_fails hfails)
    exact Method.run_bind_of_err hinfo
  | false =>
    rw [if_neg Bool.false_ne_true]
    have hquery : (query env.fails .rbatisError (findBasicInfo b.ctx.chainVersion)).run
        ⟨db, calls⟩ = (⟨db, calls + 1⟩, .ok (some info)) := by
      rw [run_query_of_not_fails hfails]
      exact Prod.ext rfl hfind
    have hinfo : (getBasicInfo env b.ctx.chainVersion).run ⟨db, calls⟩ =
        (⟨db, calls + 1⟩, .ok info) := Method.run_bind_of_ok hquery
    have hevents : (b.helper.decodeEvents chain.dispatch b.ctx.event none).mapErr
        WalletError.substrateTx = .ok b.eventRes := by rw [h.events]; rfl
    unfold saveTxRecord
    rw [Method.run_bind_of_ok hinfo, Method.run_lift_bind_of_ok (by rw [hgenesis]; rfl),
      Method.run_lift_bind_of_ok (by rw [hinit]; rfl), Method.run_lift_bind_of_ok hevents,
      Method.run_lift_bind_of_ok (by rw [hmap]; rfl)]

/-- The rows that a run sees to, in the order of the map. -/
def Block.items (b : Block Era) (entries : List (Nat × TransferDetail)) :
    List (EeeTokenType × EeeTx) :=
  entries.filterMap (itemOf b.ctx (b.time.getD 0) b.eventRes)

/-- The time that the first extrinsic sets is the one of the block. -/
theorem Keeps.time_eq (h : Keeps chain b kept) {d : TransferDetail} {time : UInt64}
    (hd : (enumerated 0 kept).lookup 0 = some d) (htime : d.timestamp = some time) :
    b.time = some time := by
  have hlookup : (enumerated 0 kept).lookup 0 = kept[0]?.join := lookup_enumerated kept 0 0
  rw [hlookup] at hd
  rcases getElem?_of_forall₂ h 0 with ⟨_, hk⟩ | ⟨x, k, hx, hk, _, hkind⟩
  · rw [hk] at hd
    cases hd
  · rw [hk] at hd
    obtain rfl : k = some d := hd
    obtain ⟨xs, hxs⟩ : ∃ xs, b.extrinsics = x :: xs := by
      cases hb : b.extrinsics with
      | nil =>
        rw [hb] at hx
        cases hx
      | cons y ys =>
        rw [hb] at hx
        obtain rfl : y = x := Option.some.inj hx
        exact ⟨ys, rfl⟩
    rw [Block.time, hxs, List.findSome?_cons, ← (hkind.detail d rfl).timestamp, htime]

variable (b) in
/-- The map is gone through in some order. -/
theorem Block.mem_items_iff {iter : List (Nat × TransferDetail) → List (Nat × TransferDetail)}
    (hiter : ∀ m, (iter m).Perm m) {map : List (Nat × TransferDetail)}
    {item : EeeTokenType × EeeTx} :
    item ∈ b.items (iter map) ↔
      ∃ e ∈ map, itemOf b.ctx (b.time.getD 0) b.eventRes e = some item := by
  rw [Block.items, List.mem_filterMap]
  simp only [(hiter map).mem_iff]

variable (env) in
/-- A run on a block that starts with its time: the rows of the transfers that are found are
seen to in some order, until an operation fails or a key is doubled. -/
theorem run_saveTxRecord_of_startsWithTime (h : b.Decodes chain db) (hkeeps : Keeps chain b kept)
    (hmap : b.helper.decodeExtrinsics chain.runtime chain.toSs58check b.ctx.extrinsics
      b.ctx.account = .ok (enumerated 0 kept)) (hstart : b.StartsWithTime)
    {iter : List (Nat × TransferDetail) → List (Nat × TransferDetail)}
    (hiter : ∀ m, (iter m).Perm m) (calls : Nat) :
    SeesTo env (b.items (iter (enumerated 0 kept))) db
      ((saveTxRecord chain env iter b.ctx).run ⟨db, calls⟩) := by
  obtain ⟨d, hd, hwhy⟩ := hkeeps.startsWithTime_iff.mp hstart
  have hcomplete : ∀ e ∈ iter (enumerated 0 kept), Complete e.2 := fun e he =>
    hkeeps.complete e ((hiter _).mem_iff.mp he)
  rw [run_saveTxRecord env h hmap iter calls]
  cases hfails : env.fails calls with
  | true =>
    rw [if_pos rfl]
    exact ⟨[], _, rfl, Saves.nil db, .inr ⟨rfl, .inl ⟨calls, hfails⟩⟩⟩
  | false =>
    rw [if_neg Bool.false_ne_true, Method.run_lift_bind_of_ok (by rw [hd]; rfl)]
    cases htime : d.timestamp with
    | some time =>
      have htime' : d.timestamp = some (b.time.getD 0) := by
        rw [hkeeps.time_eq hd htime, htime]
        rfl
      exact run_saveTransferDetails htime' _ hcomplete ⟨db, calls + 1⟩
    | none =>
      have hnone : b.items (iter (enumerated 0 kept)) = [] := by
        rw [List.eq_nil_iff_forall_not_mem]
        intro item hitem
        obtain ⟨⟨i, d'⟩, he, hitem⟩ := (b.mem_items_iff hiter).mp hitem
        obtain ⟨t, ht, _⟩ := hkeeps.found_of_item he hitem
        rcases hwhy with hset | hnone
        · rw [htime] at hset
          cases hset
        · exact hnone i t ht
      have hnone' : (iter (enumerated 0 kept)).filterMap
          (itemOf b.ctx (b.time.getD 0) b.eventRes) = [] := hnone
      rw [run_saveTransferDetails_of_no_time htime _ hcomplete, if_pos hnone', hnone]
      exact ⟨[], [], rfl, Saves.nil db, .inl ⟨rfl, rfl, by simp⟩⟩

/-! ### What is in the tables -/

variable {items : List (EeeTokenType × EeeTx)} {after : DataDb}

theorem mem_rowsOf {token : EeeTokenType} {row : EeeTx} :
    row ∈ rowsOf token items ↔ (token, row) ∈ items := by
  rw [rowsOf, List.mem_map]
  constructor
  · rintro ⟨⟨token', row'⟩, hitem, rfl⟩
    obtain ⟨hmem, htoken⟩ := List.mem_filter.mp hitem
    obtain rfl : token' = token := of_decide_eq_true htoken
    exact hmem
  · intro hmem
    exact ⟨(token, row), List.mem_filter.mpr ⟨hmem, decide_eq_true rfl⟩, rfl⟩

/-- After its insert there is a row under the key of an item. -/
theorem Saves.under_ne_nil (h : Saves items db after) {item : EeeTokenType × EeeTx}
    (hitem : item ∈ items) : after.under item.1 item.2.key ≠ [] := by
  rw [h.under_eq]
  split_ifs with hempty
  · have hmem : item.2 ∈ (rowsOf item.1 items).filter fun r => r.key = item.2.key :=
      List.mem_filter.mpr ⟨mem_rowsOf.mpr hitem, decide_eq_true rfl⟩
    rw [Ne, Option.toList_eq_nil_iff, List.head?_eq_none_iff]
    exact List.ne_nil_of_mem hmem
  · exact hempty

/-- Where there was no row under a key, the one that is there is the first of the items. -/
theorem Saves.head?_of_mem (h : Saves items db after) {token : EeeTokenType}
    {key : Text × Text × Text} (hempty : db.under token key = []) {row : EeeTx}
    (hrow : row ∈ after.under token key) :
    ((rowsOf token items).filter fun r => r.key = key).head? = some row := by
  rw [h.under_eq, if_pos hempty] at hrow
  exact Option.mem_toList.mp hrow

/-- A row that was added is one of the items, and there was none under its key. -/
theorem Saves.of_added (h : Saves items db after) {token : EeeTokenType}
    {added : List (Saved EeeTx)} (hadded : after.eeeTx token = db.eeeTx token ++ added)
    {r : Saved EeeTx} (hr : r ∈ added) :
    (token, r.row) ∈ items ∧ db.under token r.row.key = [] := by
  have hrows : after.txRows token = db.txRows token ++ added.map Saved.row := by
    rw [DataDb.txRows, hadded, List.map_append]
    rfl
  have hmem : r.row ∈ added.map Saved.row := List.mem_map.mpr ⟨r, hr, rfl⟩
  constructor
  · obtain ⟨new, hnew, hsub⟩ : ∃ new, insertAll EeeTx.key (rowsOf token items)
        (db.txRows token) = db.txRows token ++ new ∧ ∀ x ∈ new, x ∈ rowsOf token items :=
      exists_insertAll_eq_append
    rw [← h.rows, hrows] at hnew
    rw [List.append_cancel_left hnew] at hmem
    exact mem_rowsOf.mp (hsub _ hmem)
  · -- a key that was taken has no more rows than before
    by_contra htaken
    have hsame := h.under_eq token r.row.key
    rw [if_neg htaken, DataDb.under, hrows, List.filter_append] at hsame
    have hnone := List.append_right_eq_self.mp hsame
    exact List.filter_eq_nil_iff.mp hnone r.row hmem (decide_eq_true rfl)

/-- Where there are rows under all keys, nothing is changed. -/
theorem Saves.eq_of_forall (h : Saves items db after)
    (hkeys : ∀ item ∈ items, db.under item.1 item.2.key ≠ []) : after = db := by
  have hsame : ∀ token, after.eeeTx token = db.eeeTx token := by
    intro token
    obtain ⟨added, hadded⟩ := h.grows token
    cases added with
    | nil => rw [hadded, List.append_nil]
    | cons r added =>
      obtain ⟨hitem, hempty⟩ := h.of_added hadded List.mem_cons_self
      exact absurd hempty (hkeys _ hitem)
  exact DataDb.eq_of_others h.others hsame

/-! ### The theorem -/

/-- A time fits its column. -/
theorem toInt_toInt64_iff {time : UInt64} :
    time.toInt64.toInt = time.toNat ↔ time.toNat < 2 ^ 63 := by
  have hint : time.toInt64.toInt = time.toBitVec.toInt := rfl
  have hnat : time.toNat = time.toBitVec.toNat := rfl
  rw [hint, hnat, BitVec.toInt_eq_toNat_cond]
  have hbound := time.toBitVec.isLt
  split_ifs <;> omega

/-- Surroundings in which nothing fails. -/
def calm : Surroundings where
  fails _ := false
  uuid _ _ := []
  nowTsSeconds _ := 0

/-- The row of an item is one of the transfers that are found. -/
theorem Keeps.found_of_mem_items (hkeeps : Keeps chain b kept)
    {iter : List (Nat × TransferDetail) → List (Nat × TransferDetail)}
    (hiter : ∀ m, (iter m).Perm m) {item : EeeTokenType × EeeTx}
    (hitem : item ∈ b.items (iter (enumerated 0 kept))) :
    ∃ i t, b.Found i t ∧ item.1 = b.token t ∧ item.2.key = b.key chain t ∧
      item.2.facts = b.facts chain t ∧
        item.2.txShared.txTimestamp = (b.time.getD 0).toInt64 := by
  obtain ⟨⟨i, d⟩, he, hitem⟩ := (b.mem_items_iff hiter).mp hitem
  obtain ⟨t, ht⟩ := hkeeps.found_of_item he hitem
  exact ⟨i, t, ht⟩

/-- Each transfer that is found has an item. -/
theorem Keeps.exists_mem_items (hkeeps : Keeps chain b kept)
    {iter : List (Nat × TransferDetail) → List (Nat × TransferDetail)}
    (hiter : ∀ m, (iter m).Perm m) {i : Nat} {t : BlockTransfer Era} (ht : b.Found i t) :
    ∃ item ∈ b.items (iter (enumerated 0 kept)), item.1 = b.token t ∧
      item.2.key = b.key chain t := by
  obtain ⟨d, item, hd, hitem⟩ := hkeeps.exists_item ht (b.time.getD 0)
  obtain ⟨t', ht', htoken, hkey, _⟩ := hkeeps.found_of_item hd hitem
  obtain rfl := ht.1.unique ht'.1
  exact ⟨item, (b.mem_items_iff hiter).mpr ⟨(i, d), hd, hitem⟩, htoken, hkey⟩

/-- A run that returns `Ok` has saved the rows of the block, where each transfer settles. -/
theorem Saves.isSaved (hkeeps : Keeps chain b kept)
    {iter : List (Nat × TransferDetail) → List (Nat × TransferDetail)}
    (hiter : ∀ m, (iter m).Perm m)
    (h : Saves (b.items (iter (enumerated 0 kept))) db after)
    (hsettles : ∀ i t, b.Due i t → b.Settles chain db t) : b.IsSaved chain db after where
  complete i t hdue := by
    -- a row that was there before is left as it is
    rcases hsettles i t hdue with ⟨r, hr, hrow⟩ | ⟨hempty, htime, ⟨j, u, hu, htoken, hkey⟩, hsame⟩
    · refine ⟨r, ?_, hrow⟩
      rw [h.under_eq, if_neg (by rw [hr]; exact List.cons_ne_nil _ _), hr]
    · -- the first row under the key is the one of a transfer that agrees
      obtain ⟨item, hitem, hitoken, hikey⟩ := hkeeps.exists_mem_items hiter hu
      have hne : after.under (b.token t) (b.key chain t) ≠ [] := by
        rw [← htoken, ← hkey, ← hitoken, ← hikey]
        exact h.under_ne_nil hitem
      obtain ⟨r, hr⟩ := List.exists_mem_of_ne_nil _ hne
      have hhead := h.head?_of_mem hempty hr
      obtain ⟨hmem, hrkey⟩ := List.mem_filter.mp (List.mem_of_head? hhead)
      have hrkey : r.key = b.key chain t := of_decide_eq_true hrkey
      obtain ⟨k, v, hv, hvtoken, hvkey, hvfacts, hvtime⟩ :=
        hkeeps.found_of_mem_items hiter (mem_rowsOf.mp hmem)
      refine ⟨r, ?_, hrkey, ?_, ?_⟩
      · rw [h.under_eq, if_pos hempty, hhead]
        rfl
      · exact hvfacts.trans (hsame k v hv hvtoken.symm (hvkey.symm.trans hrkey))
      · obtain ⟨time, htime, hlt⟩ := htime
        refine ⟨time, htime, ?_⟩
        rw [hvtime, htime]
        exact toInt_toInt64_iff.mpr hlt
  exact token := by
    obtain ⟨added, hadded⟩ := h.grows token
    refine ⟨added, hadded, fun r hr => ?_⟩
    obtain ⟨hitem, hempty⟩ := h.of_added hadded hr
    obtain ⟨i, t, ht, htoken, hkey, hfacts, htime⟩ := hkeeps.found_of_mem_items hiter hitem
    have htoken : token = b.token t := htoken
    have hkey : r.row.key = b.key chain t := hkey
    refine ⟨i, t, ht.due, htoken.symm, hkey, hfacts, ?_⟩
    rcases hsettles i t ht.due with ⟨r', hr', _⟩ | ⟨_, ⟨time, htime', hlt⟩, _⟩
    · -- the key would have been taken
      rw [htoken, hkey, hr'] at hempty
      cases hempty
    · have htime : r.row.txShared.txTimestamp = (b.time.getD 0).toInt64 := htime
      refine ⟨time, htime', ?_⟩
      rw [htime, htime']
      exact toInt_toInt64_iff.mpr hlt
  others := h.others

/-- A block on which no run panics starts with its time. -/
theorem Block.SavedByEveryRun.startsWithTime (h : b.Decodes chain db)
    (hsaved : b.SavedByEveryRun chain db) : b.StartsWithTime := by
  obtain ⟨kept, hmap, hkeeps⟩ := h.exists_keeps
  obtain ⟨hpanic, -⟩ := hsaved calm id 0 fun m => .refl m
  have hrun := run_saveTxRecord calm h hmap id 0
  rw [if_neg (show ¬ calm.fails 0 = true from Bool.false_ne_true)] at hrun
  rw [hkeeps.startsWithTime_iff]
  cases hd : (enumerated 0 kept).lookup 0 with
  | none =>
    rw [hd] at hrun
    exact absurd (congrArg Prod.snd hrun) (hpanic .unwrapFailed)
  | some d =>
    refine ⟨d, rfl, ?_⟩
    cases htime : d.timestamp with
    | some time => exact .inl rfl
    | none =>
      right
      intro i t ht
      obtain ⟨d', item, hd', hitem⟩ := hkeeps.exists_item ht 0
      have hne : (enumerated 0 kept).filterMap (itemOf b.ctx 0 b.eventRes) ≠ [] :=
        List.ne_nil_of_mem (List.mem_filterMap.mpr ⟨_, hd', hitem⟩)
      rw [Method.run_lift_bind_of_ok (by rw [hd]; rfl), id,
        run_saveTransferDetails_of_no_time htime _ hkeeps.complete, if_neg hne] at hrun
      exact absurd (congrArg Prod.snd hrun) (hpanic .unwrapFailed)

/-- Where nothing fails and no key is doubled, a run returns `Ok`. -/
theorem exists_run_calm (h : b.Decodes chain db) (hkeeps : Keeps chain b kept)
    (hmap : b.helper.decodeExtrinsics chain.runtime chain.toSs58check b.ctx.extrinsics
      b.ctx.account = .ok (enumerated 0 kept)) (hstart : b.StartsWithTime)
    (hsingle : ¬ b.Doubled chain db)
    {iter : List (Nat × TransferDetail) → List (Nat × TransferDetail)}
    (hiter : ∀ m, (iter m).Perm m) :
    ∃ after, (saveTxRecord chain calm iter b.ctx).run ⟨db, 0⟩ = (after, .ok ()) ∧
      Saves (b.items (iter (enumerated 0 kept))) db after.store := by
  obtain ⟨seen, rest, hitems, hsaves, ⟨hok, rfl, _⟩ | ⟨_, hwhy⟩⟩ :=
    run_saveTxRecord_of_startsWithTime calm h hkeeps hmap hstart hiter 0
  · rw [List.append_nil] at hitems
    exact ⟨_, Prod.ext rfl hok, hitems ▸ hsaves⟩
  · rcases hwhy with ⟨n, hn⟩ | ⟨item, hitem, hdouble⟩
    · cases hn
    · obtain ⟨i, t, ht, htoken, hkey, _⟩ := hkeeps.found_of_mem_items hiter hitem
      rw [htoken, hkey] at hdouble
      exact absurd ⟨i, t, ht, hdouble⟩ hsingle

/-- The order of a map in which an entry of it comes first. -/
def putFirst (e : Nat × TransferDetail) (m : List (Nat × TransferDetail)) :
    List (Nat × TransferDetail) :=
  if e ∈ m then e :: m.erase e else m

theorem putFirst_perm (e : Nat × TransferDetail) (m : List (Nat × TransferDetail)) :
    (putFirst e m).Perm m := by
  unfold putFirst
  split_ifs with h
  · exact (List.perm_cons_erase h).symm
  · exact .refl m

/-- Where every run saves the block, each transfer settles. -/
theorem Block.SavedByEveryRun.settles (h : b.Decodes chain db)
    (hsaved : b.SavedByEveryRun chain db) (hsingle : ¬ b.Doubled chain db) {i : Nat}
    {t : BlockTransfer Era} (hdue : b.Due i t) : b.Settles chain db t := by
  obtain ⟨kept, hmap, hkeeps⟩ := h.exists_keeps
  have hstart := hsaved.startsWithTime h
  -- the row of the transfer after a run in some order
  have hrow : ∀ {iter : List (Nat × TransferDetail) → List (Nat × TransferDetail)},
      (∀ m, (iter m).Perm m) → ∃ r after, after.under (b.token t) (b.key chain t) = [r] ∧
        b.IsRowOf chain r t ∧ Saves (b.items (iter (enumerated 0 kept))) db after := by
    intro iter hiter
    obtain ⟨after, hrun, hsaves⟩ := exists_run_calm h hkeeps hmap hstart hsingle hiter
    obtain ⟨r, hr, hrow⟩ := ((hsaved calm iter 0 hiter).2 after hrun).1.complete i t hdue
    exact ⟨r, after.store, hr, hrow, hsaves⟩
  obtain ⟨r, after, hr, hisrow, hsaves⟩ := hrow (fun m => List.Perm.refl m)
  by_cases hempty : db.under (b.token t) (b.key chain t) = []
  · right
    have hhead := hsaves.head?_of_mem hempty (hr ▸ List.mem_singleton_self r)
    obtain ⟨hmem, -⟩ := List.mem_filter.mp (List.mem_of_head? hhead)
    obtain ⟨j, u, hu, hutoken, hukey, -, hutime⟩ :=
      hkeeps.found_of_mem_items (fun m => List.Perm.refl m) (mem_rowsOf.mp hmem)
    obtain ⟨hrkey, -, time, htime, hint⟩ := hisrow
    refine ⟨hempty, ⟨time, htime, ?_⟩, ⟨j, u, hu, hutoken.symm, hukey.symm.trans hrkey⟩, ?_⟩
    · have hutime : r.txShared.txTimestamp = (b.time.getD 0).toInt64 := hutime
      rw [hutime, htime] at hint
      exact toInt_toInt64_iff.mp hint
    · intro k v hv hvtoken hvkey
      -- an order in which the entry of the other transfer comes first
      obtain ⟨d, item, hd, hitem⟩ := hkeeps.exists_item hv (b.time.getD 0)
      obtain ⟨v', hv', hitoken, hikey, hifacts, -⟩ := hkeeps.found_of_item hd hitem
      obtain rfl := hv.1.unique hv'.1
      obtain ⟨r', after', hr', hisrow', hsaves'⟩ := hrow (putFirst_perm (k, d))
      have hhead' := hsaves'.head?_of_mem hempty (hr' ▸ List.mem_singleton_self r')
      rw [Block.items, putFirst, if_pos hd, List.filterMap_cons_some hitem] at hhead'
      have hfirst : item.2 = r' := by
        rw [hvtoken] at hitoken
        rw [hvkey] at hikey
        simpa [rowsOf, hitoken, hikey] using hhead'
      rw [← hifacts, hfirst]
      exact hisrow'.2.1
  · left
    rw [hsaves.under_eq, if_neg hempty] at hr
    exact ⟨r, hr, hisrow⟩

/-- A run after one that has saved the block changes nothing. -/
theorem store_of_rerun (h : b.Decodes chain db) (hkeeps : Keeps chain b kept)
    (hmap : b.helper.decodeExtrinsics chain.runtime chain.toSs58check b.ctx.extrinsics
      b.ctx.account = .ok (enumerated 0 kept)) (hstart : b.StartsWithTime)
    {iter iter' : List (Nat × TransferDetail) → List (Nat × TransferDetail)}
    (hiter : ∀ m, (iter m).Perm m) (hiter' : ∀ m, (iter' m).Perm m)
    (hsaves : Saves (b.items (iter (enumerated 0 kept))) db after) (calls : Nat) :
    ((saveTxRecord chain env iter' b.ctx).run ⟨after, calls⟩).1.store = after := by
  obtain ⟨seen, rest, hitems, hagain, -⟩ := run_saveTxRecord_of_startsWithTime env
    (h.of_others hsaves.others) hkeeps hmap hstart hiter' calls
  refine hagain.eq_of_forall fun item hitem => hsaves.under_ne_nil ?_
  have hitem' : item ∈ b.items (iter' (enumerated 0 kept)) := by
    rw [hitems]
    exact List.mem_append_left _ hitem
  rw [b.mem_items_iff hiter]
  exact (b.mem_items_iff hiter').mp hitem'

/-- `save_tx_record` saves a block, whatever operations fail and in whatever order the map is
gone through, exactly when the block starts with its time, and two rows are there under a key
or each transfer to be saved settles. -/
theorem savedByEveryRun_iff (b : Block Era) (db : DataDb) (h : b.Decodes chain db) :
    b.SavedByEveryRun chain db ↔
      b.StartsWithTime ∧
        (b.Doubled chain db ∨ ∀ i t, b.Due i t → b.Settles chain db t) := by
  constructor
  · intro hsaved
    refine ⟨hsaved.startsWithTime h, ?_⟩
    by_cases hdouble : b.Doubled chain db
    · exact .inl hdouble
    · exact .inr fun i t hdue => hsaved.settles h hdouble hdue
  · rintro ⟨hstart, hwhy⟩ env iter calls hiter
    obtain ⟨kept, hmap, hkeeps⟩ := h.exists_keeps
    obtain ⟨seen, rest, hitems, hsaves, hend⟩ :=
      run_saveTxRecord_of_startsWithTime env h hkeeps hmap hstart hiter calls
    constructor
    · intro p hp
      rcases hend with ⟨hok, _⟩ | ⟨herr, _⟩
      · cases hok.symm.trans hp
      · cases herr.symm.trans hp
    · intro after hrun
      rw [hrun] at hsaves hend
      rcases hend with ⟨-, rfl, hsingle⟩ | ⟨herr, _⟩
      · rw [List.append_nil] at hitems
        rw [← hitems] at hsaves
        have hsettles : ∀ i t, b.Due i t → b.Settles chain db t := by
          rcases hwhy with ⟨i, t, ht, hdouble⟩ | hsettles
          · -- a doubled key is an error
            obtain ⟨item, hitem, htoken, hkey⟩ := hkeeps.exists_mem_items hiter ht
            rw [← htoken, ← hkey] at hdouble
            exact absurd hdouble (hsingle item hitem)
          · exact hsettles
        exact ⟨hsaves.isSaved hkeeps hiter hsettles, fun env' iter' calls' hiter' =>
          store_of_rerun h hkeeps hmap hstart hiter hiter' hsaves calls'⟩
      · cases herr

end BlockRuns

/-! ### A block with one transfer -/

/-- A runtime with the calls `Timestamp.set` and `TokenX.transfer_from`, and the events of
System and Sudo. -/
def blockHelper : ChainHelper :=
  { sudoHelper with
    metadata :=
      { sudoHelper.metadata with
        modulesWithCalls :=
          [("Timestamp", { index := 2, name := "Timestamp", calls := [("set", 0)] }),
           ("TokenX",
            { index := 7, name := "TokenX"
              calls := [("transfer", 0), ("transfer_from", 1)] })] } }

def blockChain : SubChain UInt8 UInt8 (FixedBytes 4) where
  runtime := addressRuntime
  dispatch := sudoCodecs
  toSs58check := unitAddress
  chainRuntimeMetadata _ := .ok blockHelper.metadata

/-- A database without transactions. -/
def emptyDb : DataDb where
  tokenAddress := []
  ethChainToken := []
  eeeChainToken := []
  btcChainToken := []
  subChainBasicInfo :=
    [⟨default,
      { genesisHash := Crypto.hexEncode (List.replicate 32 0), metadata := []
        runtimeVersion := 6, txVersion := 1
        ss58FormatPrefix := 42, tokenDecimals := 15, tokenSymbol := "EEE".toList
        isDefault := 1 }⟩]
  eeeChainTx := []
  eeeTokenxTx := []

/-- A block for the account 1. -/
def blockOf (extrinsics : List (Extrinsic UInt8)) (eventRes : List (Nat × Bool))
    (records : List (EventRecord UInt8 (FixedBytes 4))) : Block UInt8 where
  ctx :=
    { chainVersion :=
        { genesisHash := Crypto.hexEncode (List.replicate 32 0)
          runtimeVersion := 6, txVersion := 1 }
      account := unitAddress (unitAccount 1)
      blockHash := [], blockNumber := []
      event := hexPrefixed (encodeRecords sudoCodecs records)
      extrinsics := extrinsics.map Extrinsic.text }
  helper := blockHelper
  extrinsics := extrinsics
  eventRes := eventRes
  account := unitAccount 1

theorem blockOf_decodes {extrinsics : List (Extrinsic UInt8)} {eventRes : List (Nat × Bool)}
    {records : List (EventRecord UInt8 (FixedBytes 4))}
    (hwell : ∀ x ∈ extrinsics, x.WellFormed addressRuntime blockHelper)
    (hevents : blockHelper.decodeEvents sudoCodecs
      (hexPrefixed (encodeRecords sudoCodecs records)) none = .ok eventRes) :
    (blockOf extrinsics eventRes records).Decodes blockChain emptyDb where
  basicInfo := by
    refine ⟨_, List.replicate 32 0, rfl, ?_, rfl⟩
    rfl
  extrinsics := rfl
  wellFormed := hwell
  account := rfl
  events := hevents

/-- A block without extrinsics: there is no first extrinsic. -/
theorem not_savedByEveryRun_of_empty :
    (blockOf [] [] []).Decodes blockChain emptyDb ∧
      ¬ (blockOf [] [] []).SavedByEveryRun blockChain emptyDb := by
  have hdecodes : (blockOf [] [] []).Decodes blockChain emptyDb := by
    refine blockOf_decodes (by simp) ?_
    unfold ChainHelper.decodeEvents hexPrefixed
    rw [Crypto.hexstrToVec_hexEncode]
    rfl
  refine ⟨hdecodes, fun hsaved => ?_⟩
  obtain ⟨x, hx, _⟩ := hsaved.startsWithTime hdecodes
  cases hx

/-- The time is set. -/
def timestampSet : Extrinsic UInt8 :=
  .ofCall addressRuntime none
    { moduleIndex := 2, callIndex := 0, args := compactU64.encode 1600000000000 }

/-- A block that sets its time and then moves tokens. -/
def transferBlock : Block UInt8 :=
  blockOf [timestampSet, transferFrom] [(1, true)] [sudoSuccess]

theorem transferBlock_decodes : transferBlock.Decodes blockChain emptyDb := by
  refine blockOf_decodes ?_ ?_
  · intro x hx
    rcases List.mem_cons.mp hx with rfl | hx
    · apply Extrinsic.ofCall_wellFormed
      · decide +kernel
      · trivial
    · obtain rfl := List.mem_singleton.mp hx
      apply Extrinsic.ofCall_wellFormed
      · decide +kernel
      · exact ⟨_, rfl⟩
  · unfold ChainHelper.decodeEvents hexPrefixed
    rw [Crypto.hexstrToVec_hexEncode]
    rfl

/-- The transfer of the block. -/
def blockTransfer : BlockTransfer UInt8 where
  extrinsic := transferFrom
  transfer := ⟨unitAccount 1, unitAccount 2, unitAccount 3, 5, 9⟩
  success := true

theorem blockTransfer_found : transferBlock.Found 1 blockTransfer := by
  refine ⟨⟨rfl, ⟨⟨_, _, rfl, rfl⟩, .inr ⟨?_, _, rfl⟩⟩, rfl⟩, .inr rfl⟩
  decide

theorem eq_blockTransfer {i : Nat} {t : BlockTransfer UInt8} (h : transferBlock.Has i t) :
    t = blockTransfer := by
  match i with
  | 0 =>
    -- the first extrinsic is not signed
    obtain ⟨⟨_, _, hsigned, _⟩, _⟩ := h.transfer
    rw [← Option.some.inj h.extrinsic] at hsigned
    cases hsigned
  | 1 => exact blockTransfer_found.1.unique h
  | i + 2 => cases h.extrinsic

/-- Its row is saved. -/
theorem savedByEveryRun_transferBlock : transferBlock.SavedByEveryRun blockChain emptyDb := by
  refine (savedByEveryRun_iff transferBlock emptyDb transferBlock_decodes).mpr ⟨?_, .inr ?_⟩
  · exact ⟨timestampSet, rfl, .inl (by decide +kernel)⟩
  · intro i t hdue
    obtain rfl := eq_blockTransfer hdue.1
    refine .inr ⟨rfl, ⟨1600000000000, ?_, by decide⟩, ⟨1, _, blockTransfer_found, rfl, rfl⟩, ?_⟩
    · decide +kernel
    · intro j u hu _ _
      rw [eq_blockTransfer hu.1]

end Cashbox.Wallets
