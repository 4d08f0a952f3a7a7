import Cashbox.Lib.Run
import Cashbox.Wallets.CreateWallet

/-!
# Settings

The settings are rows of one table, found by a key. A setting is saved by an update of the row
that was read, or of a new one, by its identifier. No statement inserts a row, so the table of
a new database stays empty.
-/

namespace Cashbox.Wallets

open Cashbox.Lib

/-! ## Values as text -/

/-- The texts of the chains, and what they are read as. -/
def ChainType.texts : List (Text × ChainType) :=
  [("BTC".toList, btc), ("BtcTest".toList, btcTest), ("BtcPrivate".toList, btcTest),
    ("BtcPrivateTest".toList, btcTest), ("ETH".toList, eth), ("EthTest".toList, ethTest),
    ("EthPrivate".toList, ethPrivate), ("EthPrivateTest".toList, ethPrivateTest),
    ("EEE".toList, eee), ("EeeTest".toList, eeeTest), ("EeePrivate".toList, eeePrivate),
    ("EeePrivateTest".toList, eeePrivateTest)]

/-- `ChainType::from` -/
def ChainType.ofText (chainType : Text) : Outcome WalletError ChainType :=
  Outcome.okOr
    (.db ("the chain type:" ++ String.ofList chainType ++ " currently not supported "))
    (texts.lookup chainType)

/-- `NetType::from` -/
def NetType.ofText (netType : Text) : NetType :=
  if netType = main.toString then main
  else if netType = test.toString then test
  else if netType = private'.toString then private'
  else if netType = privateTest.toString then privateTest
  -- the str can not be NetType
  else test

/-- A chain is read back but for the private networks of Bitcoin, which are read as its test
network. -/
theorem ChainType.ofText_toString (chainType : ChainType) :
    ofText chainType.toString =
      .ok (if chainType = btcPrivate ∨ chainType = btcPrivateTest then btcTest else chainType) := by
  cases chainType <;> decide

@[simp] theorem NetType.ofText_toString (netType : NetType) :
    ofText netType.toString = netType := by
  cases netType <;> decide

/-! ## Reading and writing -/

variable (env : Surroundings)

/-- The current wallet and chain, `None` if there is no data. -/
def currentWalletChain : Method (Session Databases) WalletError (Option (Text × ChainType)) := do
  let walletSetting ← getSetting env .currentWallet
  let chainSetting ← getSetting env .currentChain
  match walletSetting, chainSetting with
  | some w, some c => do
    let chain ← Method.lift (ChainType.ofText c.row.valueStr)
    pure (some (w.row.valueStr, chain))
  | _, _ => pure none

def currentNetType : Method (Session Databases) WalletError Text := do
  let netTypeSetting ← getSetting env .currentNetType
  match netTypeSetting with
  | some item => pure item.row.valueStr
  | none => pure NetType.main.toString

/-- How many rows `update_by_column` changes. -/
def rowsAffected (m : Saved MSetting) (db : WalletsDb) : Nat :=
  (db.setting.filter fun m' => m'.shared.id = m.shared.id).length

/-- `update_by_column` outside of a transaction -/
def executeUpdate (m : Saved MSetting) : Method (Session Databases) WalletError Nat :=
  operation env.fails .rbatisError fun _ db =>
    ({ db with walletsDb := updateSetting m db.walletsDb }, .ok (rowsAffected m db.walletsDb))

def changeNetType (netType : NetType) : Method (Session Databases) WalletError Nat := do
  let walletSetting ← getSetting env .currentNetType
  executeUpdate env (Saved.setting walletSetting .currentNetType netType.toString)

def saveCurrentDatabaseVersion (versionValue : Text) :
    Method (Session Databases) WalletError Unit := do
  let walletSetting ← getSetting env .currentDbVersion
  let _ ← executeUpdate env (Saved.setting walletSetting .currentDbVersion versionValue)
  pure ()

/-- The network that `Wallets::init` selects. -/
def initNetType : Method (Session Databases) WalletError NetType := do
  let netType ← currentNetType env
  pure (if netType = [] then .main else NetType.ofText netType)

/-! ## Runs -/

inductive SettingsCall where
  | saveCurrentWalletChain (walletId : Text) (chainType : ChainType)
  | changeNetType (netType : NetType)
  | saveCurrentDatabaseVersion (versionValue : Text)
  deriving DecidableEq

namespace SettingsCall

/-- The keys that a call writes. -/
def keys : SettingsCall → List SettingType
  | saveCurrentWalletChain _ _ => [.currentWallet, .currentChain]
  | changeNetType _ => [.currentNetType]
  | saveCurrentDatabaseVersion _ => [.currentDbVersion]

/-- The operations of a call, if none fails. -/
def operations : SettingsCall → Nat
  | saveCurrentWalletChain _ _ => 6
  | changeNetType _ => 2
  | saveCurrentDatabaseVersion _ => 2

def perform : SettingsCall → Method (Session Databases) WalletError Unit
  | saveCurrentWalletChain walletId chainType =>
    Wallets.saveCurrentWalletChain env walletId chainType
  | changeNetType netType => do
    let _ ← Wallets.changeNetType env netType
    pure ()
  | saveCurrentDatabaseVersion versionValue => Wallets.saveCurrentDatabaseVersion env versionValue

end SettingsCall

/-- The databases, and what the last call that returned `Ok` has set. -/
structure SettingsRun where
  session : Session Databases
  walletChain : Option (Text × ChainType)
  netType : Option NetType

namespace SettingsRun

/-- A new database: its table of settings is empty. -/
def start (db : Databases) : SettingsRun where
  session := ⟨{ db with walletsDb := { db.walletsDb with setting := [] } }, 0⟩
  walletChain := none
  netType := none

/-- What a call that returned `Ok` has set. -/
def record (s : SettingsRun) : SettingsCall → SettingsRun
  | .saveCurrentWalletChain walletId chainType =>
    { s with walletChain := some (walletId, chainType) }
  | .changeNetType netType => { s with netType := some netType }
  | .saveCurrentDatabaseVersion _ => s

def step (s : SettingsRun) (call : SettingsCall) : SettingsRun :=
  let result := (call.perform env).run s.session
  let s := { s with session := result.1 }
  if result.2.isOk then s.record call else s

/-- What was set last is read, there is one row for each key, and a restart selects the
network. -/
structure ReadsLastWrite (s : SettingsRun) : Prop where
  walletChain : ∀ current, s.walletChain = some current →
    ((currentWalletChain env.calm).run s.session).2 = .ok (some current)
  netType : ∀ netType, s.netType = some netType →
    ((currentNetType env.calm).run s.session).2 = .ok netType.toString ∧
      ((initNetType env.calm).run s.session).2 = .ok netType
  oneRow : (s.session.store.walletsDb.setting.map fun m => m.row.keyStr).Nodup

/-- The rows under other keys than those of the call are the same. -/
def LeavesOtherKeys (call : SettingsCall) (s s' : SettingsRun) : Prop :=
  ∀ key ∉ call.keys,
    (s'.session.store.walletsDb.setting.filter fun m => m.row.keyStr = key.toString) =
      s.session.store.walletsDb.setting.filter fun m => m.row.keyStr = key.toString

/-- The call fails, or what it sets is read of an empty table. -/
def SetsDefault (s : SettingsRun) (call : SettingsCall) : Prop :=
  (∃ i < call.operations, env.fails (s.session.calls + i) = true) ∨
    match call with
    | .saveCurrentWalletChain _ _ => False
    | .changeNetType netType => netType = .main
    | .saveCurrentDatabaseVersion _ => True

end SettingsRun

/-! ## The empty table -/

section Empty

variable {env} {db : Databases}

theorem performs_getSetting (h : db.walletsDb.setting = []) (key : SettingType) (calls : Nat) :
    Performs env.fails (getSetting env key) ⟨db, calls⟩ [db] (.ok none) := by
  have hnone : fetchOne WalletError.rbatisError
      (db.walletsDb.setting.filter fun m => m.row.keyStr = key.toString) = .ok none := by
    rw [h]
    rfl
  rw [← hnone]
  exact Performs.query ..

theorem updateSetting_of_empty {db : WalletsDb} (h : db.setting = []) (m : Saved MSetting) :
    updateSetting m db = db := by
  unfold updateSetting
  rw [h, List.map_nil, ← h]

theorem performs_executeUpdate (h : db.walletsDb.setting = []) (m : Saved MSetting)
    (calls : Nat) : Performs env.fails (executeUpdate env m) ⟨db, calls⟩ [db] (.ok 0) := by
  have hnone : rowsAffected m db.walletsDb = 0 := by
    unfold rowsAffected
    rw [h]
    rfl
  have hop : Performs env.fails (executeUpdate env m) ⟨db, calls⟩
      [{ db with walletsDb := updateSetting m db.walletsDb }]
      (.ok (rowsAffected m db.walletsDb)) := Performs.operation ..
  rwa [updateSetting_of_empty h, hnone] at hop

/-- There is no row to update: a call reads and writes, and nothing changes. -/
theorem performs_call (env : Surroundings) (h : db.walletsDb.setting = []) (call : SettingsCall)
    (calls : Nat) :
    Performs env.fails (call.perform env) ⟨db, calls⟩ (List.replicate call.operations db)
      (.ok ()) := by
  have hget : ∀ key calls, Performs env.fails (getSetting env key) ⟨db, calls⟩ [db] (.ok none) :=
    performs_getSetting h
  have hupdate : ∀ m calls, Performs env.fails (executeUpdate env m) ⟨db, calls⟩ [db] (.ok 0) :=
    performs_executeUpdate h
  cases call with
  | saveCurrentWalletChain walletId chainType =>
    refine (hget _ _).bind ((hget _ _).bind ?_)
    refine (Performs.beginTx _ _ ⟨db, _⟩).bind ?_
    refine (Performs.inTx _ _ _ ⟨db, _⟩).bind ((Performs.inTx _ _ _ ⟨db, _⟩).bind ?_)
    rw [updateSetting_of_empty h, updateSetting_of_empty h]
    exact Performs.commitTx _ _ _ ⟨db, _⟩
  | changeNetType netType =>
    have hchange : Performs env.fails (changeNetType env netType) ⟨db, calls⟩ [db, db] (.ok 0) :=
      (hget _ _).bind (hupdate _ _)
    exact hchange.bind (Performs.pure _ _)
  | saveCurrentDatabaseVersion versionValue =>
    exact (hget _ _).bind ((hupdate _ _).bind (Performs.pure _ _))

/-- What is read of an empty table. -/
theorem run_currentWalletChain (h : db.walletsDb.setting = []) (calls : Nat) :
    ((currentWalletChain env.calm).run ⟨db, calls⟩).2 = .ok none := by
  have hget : ∀ key calls, Performs env.calm.fails
      (getSetting env.calm key) ⟨db, calls⟩ [db] (.ok none) := performs_getSetting h
  have hread : Performs env.calm.fails (currentWalletChain env.calm)
      ⟨db, calls⟩ [db, db] (.ok none) :=
    (hget _ _).bind ((hget _ _).bind (Performs.pure _ _))
  rw [hread.ends fun _ _ => rfl]

theorem run_currentNetType (h : db.walletsDb.setting = []) (calls : Nat) :
    ((currentNetType env.calm).run ⟨db, calls⟩).2 = .ok NetType.main.toString ∧
      ((initNetType env.calm).run ⟨db, calls⟩).2 = .ok .main := by
  have hget : ∀ key calls, Performs env.calm.fails
      (getSetting env.calm key) ⟨db, calls⟩ [db] (.ok none) := performs_getSetting h
  have hread : Performs env.calm.fails (currentNetType env.calm)
      ⟨db, calls⟩ [db] (.ok NetType.main.toString) := (hget _ _).bind (Performs.pure _ _)
  have hinit : Performs env.calm.fails (initNetType env.calm)
      ⟨db, calls⟩ [db] (.ok .main) := hread.bind (Performs.pure _ _)
  rw [hread.ends fun _ _ => rfl, hinit.ends fun _ _ => rfl]
  exact ⟨rfl, rfl⟩

namespace SettingsRun

variable {s : SettingsRun}

/-- With an empty table only the default can be read back. -/
theorem readsLastWrite_iff (h : s.session.store.walletsDb.setting = []) :
    ReadsLastWrite env s ↔ s.walletChain = none ∧ ∀ n, s.netType = some n → n = .main := by
  constructor
  · intro hreads
    constructor
    · cases hset : s.walletChain with
      | none => rfl
      | some current =>
        have hread := hreads.walletChain current hset
        rw [run_currentWalletChain h] at hread
        cases hread
    · intro n hn
      have hread := (hreads.netType n hn).2
      rw [(run_currentNetType h _).2] at hread
      exact (Outcome.ok.inj hread).symm
  · rintro ⟨hwallet, hnet⟩
    refine ⟨?_, ?_, ?_⟩
    · intro current hset
      rw [hwallet] at hset
      cases hset
    · intro n hn
      rw [hnet n hn]
      exact run_currentNetType h _
    · rw [h]
      exact List.nodup_nil

/-- A call leaves the databases as they are, and records what it sets unless an operation
fails. -/
theorem step_cases (env : Surroundings) (h : s.session.store.walletsDb.setting = [])
    (call : SettingsCall) :
    ∃ calls, ((∃ i < call.operations, env.fails (s.session.calls + i) = true) ∧
        s.step env call = { s with session := ⟨s.session.store, calls⟩ }) ∨
      ((¬ ∃ i < call.operations, env.fails (s.session.calls + i) = true) ∧
        s.step env call = { s with session := ⟨s.session.store, calls⟩ }.record call) := by
  have hperforms := performs_call env h call s.session.calls
  unfold step
  rcases hperforms.cases with ⟨i, e, hi, hfails, _, hrun⟩ | ⟨hnone, hrun⟩
  · rw [List.length_replicate] at hi
    rw [storeAfter_replicate] at hrun
    rw [hrun]
    exact ⟨_, .inl ⟨⟨i, hi, hfails⟩, rfl⟩⟩
  · rw [List.length_replicate] at hnone
    rw [endOf_replicate] at hrun
    rw [hrun]
    refine ⟨_, .inr ⟨?_, rfl⟩⟩
    rintro ⟨i, hi, hfails⟩
    rw [hnone i hi] at hfails
    cases hfails

theorem store_step (h : s.session.store.walletsDb.setting = []) (call : SettingsCall) :
    (s.step env call).session.store = s.session.store := by
  obtain ⟨calls, ⟨_, hstep⟩ | ⟨_, hstep⟩⟩ := step_cases env h call
  · rw [hstep]
  · rw [hstep]
    cases call <;> rfl

/-- After a call the last write is read exactly if it is the default. -/
theorem readsLastWrite_step_iff (h : s.session.store.walletsDb.setting = [])
    (hreads : ReadsLastWrite env s) (call : SettingsCall) :
    ReadsLastWrite env (s.step env call) ↔ SetsDefault env s call := by
  have hnext : (s.step env call).session.store.walletsDb.setting = [] := by
    rw [store_step h call, h]
  obtain ⟨hwallet, hnet⟩ := (readsLastWrite_iff h).mp hreads
  rw [readsLastWrite_iff hnext]
  obtain ⟨calls, ⟨hfails, hstep⟩ | ⟨hfails, hstep⟩⟩ := step_cases env h call
  · rw [hstep]
    exact iff_of_true ⟨hwallet, hnet⟩ (.inl hfails)
  · rw [hstep]
    cases call with
    | saveCurrentWalletChain walletId chainType =>
      refine iff_of_false (fun hset => ?_) (fun hsets => hsets.elim hfails id)
      cases hset.1
    | changeNetType netType =>
      constructor
      · intro hset
        exact .inr (hset.2 netType rfl)
      · rintro (hfails' | rfl)
        · exact absurd hfails' hfails
        · exact ⟨hwallet, fun n hn => (Option.some.inj hn).symm⟩
    | saveCurrentDatabaseVersion versionValue => exact iff_of_true ⟨hwallet, hnet⟩ (.inr trivial)

theorem guarded_readsLastWrite_iff (h : s.session.store.walletsDb.setting = [])
    (hreads : ReadsLastWrite env s) (calls : List SettingsCall) :
    Guarded (step env) (fun s call => ReadsLastWrite env (s.step env call) ∧
        LeavesOtherKeys call s (s.step env call)) s calls ↔
      Guarded (step env) (SetsDefault env) s calls := by
  induction calls generalizing s with
  | nil => exact Iff.rfl
  | cons call calls ih =>
    have hleaves : LeavesOtherKeys call s (s.step env call) := by
      intro key _
      rw [store_step h call]
    rw [guarded_cons, guarded_cons, readsLastWrite_step_iff h hreads call]
    constructor
    · rintro ⟨⟨hsets, _⟩, hrest⟩
      refine ⟨hsets, (ih ?_ ?_).mp hrest⟩
      · rw [store_step h call, h]
      · exact (readsLastWrite_step_iff h hreads call).mpr hsets
    · rintro ⟨hsets, hrest⟩
      refine ⟨⟨hsets, hleaves⟩, (ih ?_ ?_).mpr hrest⟩
      · rw [store_step h call, h]
      · exact (readsLastWrite_step_iff h hreads call).mpr hsets

end SettingsRun

end Empty

/-- **Settings are last-write-wins**, over a run from an empty table, exactly if every call that
gets through sets a default: no statement saves a row. -/
theorem settings_lastWriteWins_iff (db : Databases) (calls : List SettingsCall) :
    Guarded (SettingsRun.step env) (fun s call =>
        SettingsRun.ReadsLastWrite env (s.step env call) ∧
          SettingsRun.LeavesOtherKeys call s (s.step env call)) (SettingsRun.start db) calls ↔
      Guarded (SettingsRun.step env) (SettingsRun.SetsDefault env)
        (SettingsRun.start db) calls := by
  have hempty : (SettingsRun.start db).session.store.walletsDb.setting = [] := rfl
  refine SettingsRun.guarded_readsLastWrite_iff hempty ?_ calls
  exact (SettingsRun.readsLastWrite_iff hempty).mpr ⟨rfl, fun n hn => nomatch hn⟩

/-- The first wallet is not the current one after it was saved. -/
theorem not_lastWriteWins_of_save :
    ¬ Guarded (SettingsRun.step ⟨fun _ => false, fun _ _ => ['u'], fun _ => 0⟩) (fun s call =>
      SettingsRun.ReadsLastWrite ⟨fun _ => false, fun _ _ => ['u'], fun _ => 0⟩
          (s.step ⟨fun _ => false, fun _ _ => ['u'], fun _ => 0⟩ call) ∧
        SettingsRun.LeavesOtherKeys call s
          (s.step ⟨fun _ => false, fun _ _ => ['u'], fun _ => 0⟩ call))
      (SettingsRun.start oneWallet) [.saveCurrentWalletChain ['w'] .eee] := by
  intro h
  have hread := h.1.1.walletChain (['w'], .eee) (by decide)
  revert hread
  decide

end Cashbox.Wallets
