import Cashbox.Wallets.Database

/-!
# Removing a wallet

`remove_wallet` deletes the wallet and its addresses in one transaction of the wallets
database, and when that is committed, the tokens and token addresses of the wallet in the
databases of the networks, each table by a statement of its own. The wallet row, which a
second attempt would have to find, is gone by then.
-/

namespace Cashbox.Wallets

open Cashbox.Lib

variable (env : Surroundings) (getMnemonicContext : Text → Bytes → Except Eee.Error Bytes)

/-! ## The function -/

inductive SettingType where
  | currentWallet
  | currentChain
  | currentDbVersion
  | currentNetType
  | other (key : Text)
  deriving DecidableEq

def SettingType.toString : SettingType → Text
  | currentWallet => "CurrentWallet".toList
  | currentChain => "CurrentChain".toList
  | currentDbVersion => "CurrentDbVersion".toList
  | currentNetType => "CurrentNetType".toList
  | other key => key

/-- If there is none, `None` is returned. -/
def getSetting (key : SettingType) :
    Method (Session Databases) WalletError (Option (Saved MSetting)) :=
  query env.fails .rbatisError fun db =>
    fetchOne .rbatisError (db.walletsDb.setting.filter fun m => m.row.keyStr = key.toString)

def mWalletById (walletId : Text) :
    Method (Session Databases) WalletError (Option (Saved MWallet)) :=
  query env.fails .rbatisError fun db =>
    .ok (db.walletsDb.wallet.filter fun w => w.shared.id = walletId).head?

namespace WalletsDb

def removeWallet (walletId : Text) (db : WalletsDb) : WalletsDb :=
  { db with wallet := db.wallet.filter fun w => w.shared.id ≠ walletId }

def removeAddress (walletId : Text) (db : WalletsDb) : WalletsDb :=
  { db with address := db.address.filter fun a => a.row.walletId ≠ walletId }

end WalletsDb

namespace DataDb

def removeEeeChainToken (walletId : Text) (db : DataDb) : DataDb :=
  { db with eeeChainToken := db.eeeChainToken.filter fun t => t.row.walletId ≠ walletId }

def removeEthChainToken (walletId : Text) (db : DataDb) : DataDb :=
  { db with ethChainToken := db.ethChainToken.filter fun t => t.row.walletId ≠ walletId }

def removeBtcChainToken (walletId : Text) (db : DataDb) : DataDb :=
  { db with btcChainToken := db.btcChainToken.filter fun t => t.row.walletId ≠ walletId }

def removeTokenAddress (walletId : Text) (db : DataDb) : DataDb :=
  { db with tokenAddress := db.tokenAddress.filter fun t => t.row.walletId ≠ walletId }

end DataDb

/-- A statement on the database of a network. -/
def onDataDb (netType : NetType) (f : DataDb → DataDb) :
    Method (Session Databases) WalletError Unit :=
  execute env.fails .rbatisError fun _ db => db.updateDataDb netType f

/-- The loop over the networks. -/
def removeData (walletId : Text) : List NetType → Method (Session Databases) WalletError Unit
  | [] => pure ()
  | netType :: rest => do
    onDataDb env netType (DataDb.removeEeeChainToken walletId)
    onDataDb env netType (DataDb.removeEthChainToken walletId)
    onDataDb env netType (DataDb.removeBtcChainToken walletId)
    onDataDb env netType (DataDb.removeTokenAddress walletId)
    removeData walletId rest

/-- password is correct,start delete wallet_id related data -/
def removeRows (walletId : Text) : Method (Session Databases) WalletError Unit := do
  let tx ← beginTx env.fails .rbatisError Databases.walletsDb
  let tx ← inTx env.fails .rbatisError (fun _ => WalletsDb.removeWallet walletId) tx
  let tx ← inTx env.fails .rbatisError (fun _ => WalletsDb.removeAddress walletId) tx
  commitTx env.fails .rbatisError (fun db walletsDb => { db with walletsDb }) tx
  removeData env walletId NetType.iter

def removeFound (walletId password : Text) :
    Option (Saved MWallet) → Method (Session Databases) WalletError Unit
  | none => Method.lift (.err (.noRecord ""))
  | some mWallet =>
    match getMnemonicContext mWallet.row.mnemonic password.asBytes with
    | .error err => Method.lift (.err (.substrateTx err))
    | .ok _ => removeRows env walletId

def removeWallet (walletId password : Text) : Method (Session Databases) WalletError Unit := do
  let setting ← getSetting env .currentWallet
  if (setting.map fun m => m.row.valueStr) = some walletId then
    Method.lift (.err (.custom "current wallet cannot be deleted"))
  else do
    let mWallet ← mWalletById env walletId
    removeFound env getMnemonicContext walletId password mWallet

/-! ## All or nothing -/

/-- The rows of other wallets. -/
def Databases.withoutWallet (walletId : Text) (db : Databases) : Databases where
  walletsDb :=
    { db.walletsDb with
      wallet := db.walletsDb.wallet.filter fun w => w.shared.id ≠ walletId
      address := db.walletsDb.address.filter fun a => a.row.walletId ≠ walletId }
  mnemonicDb := db.mnemonicDb
  dataDb n :=
    { db.dataDb n with
      tokenAddress := (db.dataDb n).tokenAddress.filter fun t => t.row.walletId ≠ walletId
      ethChainToken := (db.dataDb n).ethChainToken.filter fun t => t.row.walletId ≠ walletId
      eeeChainToken := (db.dataDb n).eeeChainToken.filter fun t => t.row.walletId ≠ walletId
      btcChainToken := (db.dataDb n).btcChainToken.filter fun t => t.row.walletId ≠ walletId }

/-- A wallet is removed entirely or not at all, and never the current one. -/
structure RemovedEntirely (s : Session Databases) (walletId : Text)
    (result : Session Databases × Outcome WalletError Unit) : Prop where
  err : result.2.IsErr → result.1.store = s.store
  ok : result.2 = .ok () → result.1.store = s.store.withoutWallet walletId
  current : ∀ m ∈ s.store.walletsDb.setting,
    m.row.keyStr = SettingType.currentWallet.toString →
      ∀ w ∈ s.store.walletsDb.wallet, w.shared.id = m.row.valueStr →
        w ∈ result.1.store.walletsDb.wallet

/-- The wallet is not the current one, and it is found and opened. -/
def Admits (db : Databases) (walletId password : Text) : Prop :=
  (∃ setting : Option (Saved MSetting),
    fetchOne WalletError.rbatisError (db.walletsDb.setting.filter fun m =>
      m.row.keyStr = SettingType.currentWallet.toString) = .ok setting ∧
    (setting.map fun m => m.row.valueStr) ≠ some walletId) ∧
  ∃ w mn, (db.walletsDb.wallet.filter fun w => w.shared.id = walletId).head? = some w ∧
    getMnemonicContext w.row.mnemonic password.asBytes = .ok mn

/-! ### Paths -/

/-- The databases after the transaction. -/
def Databases.removeFromWalletsDb (walletId : Text) (db : Databases) : Databases :=
  { db with walletsDb := (db.walletsDb.removeWallet walletId).removeAddress walletId }

/-- The databases after each statement of the loop. -/
def dataPath (walletId : Text) : List NetType → Databases → List Databases
  | [], _ => []
  | netType :: rest, db =>
    let db₁ := db.updateDataDb netType (DataDb.removeEeeChainToken walletId)
    let db₂ := db₁.updateDataDb netType (DataDb.removeEthChainToken walletId)
    let db₃ := db₂.updateDataDb netType (DataDb.removeBtcChainToken walletId)
    let db₄ := db₃.updateDataDb netType (DataDb.removeTokenAddress walletId)
    db₁ :: db₂ :: db₃ :: db₄ :: dataPath walletId rest db₄

variable {env getMnemonicContext}

theorem performs_onDataDb (netType : NetType) (f : DataDb → DataDb) (s : Session Databases) :
    Performs env.fails (onDataDb env netType f) s [s.store.updateDataDb netType f] (.ok ()) :=
  Performs.execute ..

theorem performs_removeData (walletId : Text) (netTypes : List NetType) (s : Session Databases) :
    Performs env.fails (removeData env walletId netTypes) s (dataPath walletId netTypes s.store)
      (.ok ()) := by
  induction netTypes generalizing s with
  | nil => exact Performs.pure () s
  | cons netType rest ih =>
    exact (performs_onDataDb netType _ s).bind <| (performs_onDataDb netType _ _).bind <|
      (performs_onDataDb netType _ _).bind <| (performs_onDataDb netType _ _).bind (ih _)

theorem performs_removeRows (walletId : Text) (s : Session Databases) :
    Performs env.fails (removeRows env walletId) s
      (List.replicate 3 s.store ++ s.store.removeFromWalletsDb walletId ::
        dataPath walletId NetType.iter (s.store.removeFromWalletsDb walletId)) (.ok ()) := by
  show Performs _ _ s ([s.store] ++ ([s.store] ++ ([s.store] ++
    ([s.store.removeFromWalletsDb walletId] ++ _)))) _
  unfold removeRows
  exact (Performs.beginTx _ _ s).bind <| (Performs.inTx _ _ _ _).bind <|
    (Performs.inTx _ _ _ _).bind <| (Performs.commitTx _ _ _ _).bind
      (performs_removeData walletId NetType.iter _)

/-- The loop leaves the wallets database as it is. -/
theorem walletsDb_of_mem_dataPath {walletId : Text} {netTypes : List NetType}
    {db db' : Databases} (h : db' ∈ dataPath walletId netTypes db) :
    db'.walletsDb = db.walletsDb := by
  induction netTypes generalizing db with
  | nil => cases h
  | cons netType rest ih =>
    simp only [dataPath, List.mem_cons] at h
    rcases h with rfl | rfl | rfl | rfl | h
    · rfl
    · rfl
    · rfl
    · rfl
    · exact (ih h).trans rfl

theorem length_dataPath (walletId : Text) (netTypes : List NetType) (db : Databases) :
    (dataPath walletId netTypes db).length = 4 * netTypes.length := by
  induction netTypes generalizing db with
  | nil => rfl
  | cons netType rest ih =>
    simp only [dataPath, List.length_cons, ih]
    omega

/-- At the end no row of the wallet is left. -/
theorem endOf_dataPath (walletId : Text) (db : Databases) :
    endOf (db.removeFromWalletsDb walletId)
        (dataPath walletId NetType.iter (db.removeFromWalletsDb walletId)) =
      db.withoutWallet walletId := by
  have hdata : ∀ n, (endOf (db.removeFromWalletsDb walletId)
      (dataPath walletId NetType.iter (db.removeFromWalletsDb walletId))).dataDb n =
        (db.withoutWallet walletId).dataDb n := by
    intro n
    cases n <;> rfl
  calc endOf (db.removeFromWalletsDb walletId)
        (dataPath walletId NetType.iter (db.removeFromWalletsDb walletId))
      = { db.withoutWallet walletId with
          dataDb := (endOf (db.removeFromWalletsDb walletId)
            (dataPath walletId NetType.iter (db.removeFromWalletsDb walletId))).dataDb } := rfl
    _ = db.withoutWallet walletId := by rw [funext hdata]

variable (env getMnemonicContext) in
/-- Either the wallet is found and opened, and its rows are removed, or an error ends it. -/
theorem performs_removeFound (walletId password : Text) (mWallet : Option (Saved MWallet))
    (s : Session Databases) :
    (∃ w mn, mWallet = some w ∧ getMnemonicContext w.row.mnemonic password.asBytes = .ok mn ∧
        Performs env.fails (removeFound env getMnemonicContext walletId password mWallet) s
          (List.replicate 3 s.store ++ s.store.removeFromWalletsDb walletId ::
            dataPath walletId NetType.iter (s.store.removeFromWalletsDb walletId)) (.ok ())) ∨
      (∀ w mn, mWallet = some w → getMnemonicContext w.row.mnemonic password.asBytes ≠ .ok mn) ∧
        ∃ e, Performs env.fails (removeFound env getMnemonicContext walletId password mWallet) s
          [] (.err e) := by
  cases mWallet with
  | none =>
    refine .inr ⟨?_, _, Performs.lift _ s⟩
    rintro w mn ⟨⟩
  | some w =>
    cases hopen : getMnemonicContext w.row.mnemonic password.asBytes with
    | error e =>
      have hfound : removeFound env getMnemonicContext walletId password (some w) =
          Method.lift (.err (.substrateTx e)) := by
        rw [removeFound, hopen]
      refine .inr ⟨?_, _, hfound ▸ Performs.lift _ s⟩
      rintro _ mn ⟨⟩ hok
      rw [hopen] at hok
      cases hok
    | ok mn =>
      have hfound : removeFound env getMnemonicContext walletId password (some w) =
          removeRows env walletId := by
        rw [removeFound, hopen]
      exact .inl ⟨w, mn, rfl, hopen, hfound ▸ performs_removeRows walletId s⟩

variable (env getMnemonicContext) in
/-- What a removal performs: some queries that end in an error, or all of it. -/
theorem performs_removeWallet (walletId password : Text) (s : Session Databases) :
    (¬ Admits getMnemonicContext s.store walletId password ∧
        ∃ n e, Performs env.fails (removeWallet env getMnemonicContext walletId password) s
          (List.replicate n s.store) (.err e)) ∨
      Admits getMnemonicContext s.store walletId password ∧
        Performs env.fails (removeWallet env getMnemonicContext walletId password) s
          (List.replicate 5 s.store ++ s.store.removeFromWalletsDb walletId ::
            dataPath walletId NetType.iter (s.store.removeFromWalletsDb walletId)) (.ok ()) := by
  -- the setting is read first, then the wallet
  have hget : Performs env.fails (getSetting env .currentWallet) s [s.store]
      (fetchOne WalletError.rbatisError (s.store.walletsDb.setting.filter fun m =>
        m.row.keyStr = SettingType.currentWallet.toString)) := Performs.query ..
  unfold removeWallet
  cases hsetting : fetchOne WalletError.rbatisError (s.store.walletsDb.setting.filter fun m =>
      m.row.keyStr = SettingType.currentWallet.toString) with
  | err e =>
    rw [hsetting] at hget
    refine .inl ⟨?_, 1, e, hget.bind_err⟩
    rintro ⟨⟨setting, hok, _⟩, _⟩
    rw [hsetting] at hok
    cases hok
  | panic p => exact absurd hsetting (fetchOne_ne_panic _ _ p)
  | ok setting =>
    rw [hsetting] at hget
    by_cases hcurrent : (setting.map fun m => m.row.valueStr) = some walletId
    · -- the current wallet
      have hstop : Performs env.fails
          (Method.lift (.err (.custom "current wallet cannot be deleted")) :
            Method (Session Databases) WalletError Unit)
          ⟨s.store, s.calls + 1⟩ [] (.err (.custom "current wallet cannot be deleted")) :=
        Performs.lift ..
      refine .inl ⟨?_, 1, .custom "current wallet cannot be deleted", hget.bind ?_⟩
      · rintro ⟨⟨setting', hok, hne⟩, _⟩
        rw [hsetting] at hok
        cases hok
        exact hne hcurrent
      · rw [if_pos hcurrent]
        exact hstop
    · have hfind : Performs env.fails (mWalletById env walletId)
          ⟨endOf s.store [s.store], s.calls + 1⟩ [s.store]
          (.ok (s.store.walletsDb.wallet.filter fun w => w.shared.id = walletId).head?) :=
        Performs.query ..
      rcases performs_removeFound env getMnemonicContext walletId
        password (s.store.walletsDb.wallet.filter fun w => w.shared.id = walletId).head?
        ⟨s.store, s.calls + 1 + 1⟩ with ⟨w, mn, hw, hopen, hrows⟩ | ⟨hnone, e, herr⟩
      · refine .inr ⟨⟨⟨setting, hsetting, hcurrent⟩, w, mn, hw, hopen⟩, ?_⟩
        refine hget.bind ?_
        rw [if_neg hcurrent]
        exact hfind.bind hrows
      · refine .inl ⟨?_, 2, e, hget.bind ?_⟩
        · rintro ⟨_, w, mn, hw, hopen⟩
          exact hnone w mn hw hopen
        · rw [if_neg hcurrent]
          exact hfind.bind herr

/-- Before the transaction is committed nothing is changed. -/
theorem storeAfter_of_le_five {walletId : Text} {db : Databases} {i : Nat} (hi : i ≤ 5) :
    storeAfter db (List.replicate 5 db ++ db.removeFromWalletsDb walletId ::
      dataPath walletId NetType.iter (db.removeFromWalletsDb walletId)) i = db := by
  rw [storeAfter_append_of_le (by rwa [List.length_replicate]), storeAfter_replicate]

/-- From then on the wallet is not to be found. -/
theorem storeAfter_ne {walletId : Text} {db : Databases} {w : Saved MWallet}
    (hw : (db.walletsDb.wallet.filter fun w => w.shared.id = walletId).head? = some w) {i : Nat}
    (hi : 5 < i) :
    storeAfter db (List.replicate 5 db ++ db.removeFromWalletsDb walletId ::
      dataPath walletId NetType.iter (db.removeFromWalletsDb walletId)) i ≠ db := by
  intro hsame
  obtain ⟨k, rfl⟩ := Nat.exists_eq_add_of_lt hi
  have hafter : storeAfter db (List.replicate 5 db ++ db.removeFromWalletsDb walletId ::
      dataPath walletId NetType.iter (db.removeFromWalletsDb walletId)) (5 + k + 1) =
        storeAfter (db.removeFromWalletsDb walletId)
          (dataPath walletId NetType.iter (db.removeFromWalletsDb walletId)) k := by
    rw [Nat.add_assoc, storeAfter_replicate_append, storeAfter_cons_succ]
  have hwallets : (storeAfter (db.removeFromWalletsDb walletId)
      (dataPath walletId NetType.iter (db.removeFromWalletsDb walletId)) k).walletsDb =
        (db.removeFromWalletsDb walletId).walletsDb := by
    rcases storeAfter_eq_or_mem (db.removeFromWalletsDb walletId)
      (dataPath walletId NetType.iter (db.removeFromWalletsDb walletId)) k with h | h
    · rw [h]
    · exact walletsDb_of_mem_dataPath h
  rw [← hafter, hsame] at hwallets
  -- the row that was found is one of those that are deleted
  have hfound := List.mem_of_mem_head? (Option.mem_def.mpr hw)
  rw [List.mem_filter, decide_eq_true_eq] at hfound
  have hgone : w ∈ (db.removeFromWalletsDb walletId).walletsDb.wallet := hwallets ▸ hfound.1
  exact of_decide_eq_true (List.mem_filter.mp hgone).2 hfound.2

/-- The current wallet stays, whatever fails. -/
theorem mem_wallet_of_current {walletId password : Text} (s : Session Databases)
    {m : Saved MSetting}
    (hm : m ∈ s.store.walletsDb.setting)
    (hkey : m.row.keyStr = SettingType.currentWallet.toString) {w : Saved MWallet}
    (hw : w ∈ s.store.walletsDb.wallet) (hid : w.shared.id = m.row.valueStr) :
    w ∈ ((removeWallet env getMnemonicContext walletId
      password).run s).1.store.walletsDb.wallet := by
  rcases performs_removeWallet env getMnemonicContext walletId
    password s with ⟨_, n, e, hperforms⟩ | ⟨⟨⟨setting, hsetting, hne⟩, _⟩, hperforms⟩
  · rw [hperforms.of_replicate.1]
    exact hw
  · -- the setting that is read is this one, so the wallet is another
    have hmem : m ∈ s.store.walletsDb.setting.filter fun m =>
        m.row.keyStr = SettingType.currentWallet.toString :=
      List.mem_filter.mpr ⟨hm, decide_eq_true hkey⟩
    have hother : w.shared.id ≠ walletId := by
      rintro rfl
      rw [eq_some_of_fetchOne hsetting hmem] at hne
      exact hne (congrArg some hid.symm)
    have hstays : w ∈ (s.store.removeFromWalletsDb walletId).walletsDb.wallet :=
      List.mem_filter.mpr ⟨hw, decide_eq_true hother⟩
    rcases hperforms.store_eq_or_mem with h | h
    · rw [h]
      exact hw
    · rcases List.mem_append.mp h with h | h
      · rw [List.eq_of_mem_replicate h]
        exact hw
      · rcases List.mem_cons.mp h with h | h
        · rw [h]
          exact hstays
        · rw [walletsDb_of_mem_dataPath h]
          exact hstays

/-- **All or nothing**: a removal that is allowed is entire exactly if no operation after the
commit of the first transaction fails, or one up to it does. -/
theorem removedEntirely_iff (env : Surroundings)
    (getMnemonicContext : Text → Bytes → Except Eee.Error Bytes) (walletId password : Text)
    (s : Session Databases) :
    RemovedEntirely s walletId
        ((removeWallet env getMnemonicContext walletId password).run s) ↔
      ¬ Admits getMnemonicContext s.store walletId password ∨
        (∃ i ≤ 5, env.fails (s.calls + i) = true) ∨
          ∀ i < 22, env.fails (s.calls + i) = false := by
  rcases performs_removeWallet env getMnemonicContext walletId
    password s with ⟨hnot, n, e, hperforms⟩ | ⟨hadmits, hperforms⟩
  · obtain ⟨hstore, herr⟩ := hperforms.of_replicate
    refine iff_of_true ⟨fun _ => hstore, fun hok => ?_, ?_⟩ (.inl hnot)
    · rw [hok] at herr
      cases herr
    · intro m hm hkey w hw hid
      exact mem_wallet_of_current s hm hkey hw hid
  · obtain ⟨_, w, mn, hw, _⟩ := id hadmits
    -- five operations before the commit, which is the sixth, and four on each network
    have hlength : (List.replicate 5 s.store ++ s.store.removeFromWalletsDb walletId ::
        dataPath walletId NetType.iter (s.store.removeFromWalletsDb walletId)).length = 22 := by
      rw [List.length_append, List.length_replicate, List.length_cons, length_dataPath]
      rfl
    have hiff := hperforms.unchanged_iff id (k := 5) (by rw [hlength]; decide)
      (fun i hi => storeAfter_of_le_five hi) (fun i hi => storeAfter_ne hw hi)
    rw [hlength] at hiff
    constructor
    · intro h
      rcases hiff.mp h.err with hearly | ⟨hnone, _⟩
      · exact .inr (.inl hearly)
      · exact .inr (.inr hnone)
    · intro h
      refine ⟨?_, ?_, ?_⟩
      · refine hiff.mpr ?_
        rcases h with hnot | hearly | hnone
        · exact absurd hadmits hnot
        · exact .inl hearly
        · exact .inr ⟨hnone, id⟩
      · intro hok
        rw [hperforms.store_of_ok hok, endOf_append, endOf_replicate, endOf_cons, endOf_dataPath]
      · intro m hm hkey w hw hid
        exact mem_wallet_of_current s hm hkey hw hid

/-! ### A network that is not reached

The first of the tables of tokens cannot be written, and the wallet is gone. -/

/-- One wallet, which is not the current one. -/
def oneWallet : Databases where
  walletsDb :=
    ⟨[⟨⟨['w'], 0, 0⟩, ⟨[], ['n'], [], [], ['T', 'e', 's', 't'], 1⟩⟩], [], [], [], [], [], [], [],
      [],
      [], [], [], []⟩
  mnemonicDb := []
  dataDb _ := ⟨[], [], [], [], [], [], []⟩

theorem not_removedEntirely_oneWallet :
    ¬ RemovedEntirely ⟨oneWallet, 0⟩ ['w']
      ((removeWallet ⟨fun n => n = 6, fun _ _ => [], fun _ => 0⟩ (fun _ _ => .ok []) ['w'] []).run
        ⟨oneWallet, 0⟩) := by
  intro h
  have hwallets := congrArg (fun db => db.walletsDb.wallet.length) (h.err trivial)
  revert hwallets
  decide

end Cashbox.Wallets
