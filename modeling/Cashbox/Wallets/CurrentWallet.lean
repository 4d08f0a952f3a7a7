import Cashbox.Wallets.Settings
import Cashbox.Wallets.SharedSeeds

/-!
# The current wallet

The first wallet that is created becomes the current one, and the current one is not removed,
so that there should be a current wallet from the first creation on. It is saved by the update
of a row of the settings, and no statement has inserted that row.
-/

namespace Cashbox.Wallets

open Cashbox.Lib

/-! ## Runs -/

inductive CurrentCall where
  /-- With the encryption with its random bytes. -/
  | createWallet (parameters : CreateWalletParameters) (encryptMnemonic : Bytes → Bytes → Text)
  | removeWallet (walletId password : Text)
  | saveCurrentWalletChain (walletId : Text) (chainType : ChainType)
  | changeNetType (netType : NetType)

/-- The databases, the active network, and whether a wallet of its type was there after a call. -/
structure CurrentRun where
  session : Session Databases
  netType : NetType
  created : Bool

/-- A wallet of the type that a network has. -/
def WalletsDb.hasAny (netType : NetType) (db : WalletsDb) : Bool :=
  db.wallet.any fun w => w.row.walletType = (WalletType.ofNetType netType).toString

namespace CurrentRun

/-- An empty store: no wallet, and no setting. -/
def start (db : Databases) (netType : NetType) : CurrentRun where
  session :=
    ⟨{ db with walletsDb := { db.walletsDb with wallet := [], address := [], setting := [] } }, 0⟩
  netType := netType
  created := false

variable (env : Surroundings) (lib : Libraries)
  (getMnemonicContext : Text → Bytes → Except Eee.Error Bytes)

/-- What a call leaves, with the active network from then on. -/
def perform (s : CurrentRun) : CurrentCall → Session Databases × NetType
  | .createWallet parameters encryptMnemonic =>
    (((createWallet env { lib with encryptMnemonic } s.netType parameters).run s.session).1,
      s.netType)
  | .removeWallet walletId password =>
    (((removeWallet env getMnemonicContext walletId password).run s.session).1, s.netType)
  | .saveCurrentWalletChain walletId chainType =>
    (((saveCurrentWalletChain env walletId chainType).run s.session).1, s.netType)
  | .changeNetType netType =>
    let (session, result) := (changeNetType env netType).run s.session
    (session, if result.isOk then netType else s.netType)

def step (s : CurrentRun) (call : CurrentCall) : CurrentRun :=
  let (session, netType) := s.perform env lib getMnemonicContext call
  { session := session
    netType := netType
    created := s.created || session.store.walletsDb.hasAny netType }

/-- The current wallet is stored, and there is one as soon as there was a wallet. -/
structure CurrentExists (s : CurrentRun) : Prop where
  stored : ∀ m ∈ s.session.store.walletsDb.setting,
    m.row.keyStr = SettingType.currentWallet.toString →
      ∃ w ∈ s.session.store.walletsDb.wallet, w.shared.id = m.row.valueStr
  current : s.created = true →
    ∃ current, ((currentWalletChain env.calm).run s.session).2 = .ok (some current)

end CurrentRun

/-! ## The condition -/

/-- The creation up to the commit that stores the wallet. -/
def storingPlan (lib : Libraries) (netType : NetType) (parameters : CreateWalletParameters)
    (db : WalletsDb) : Plan Unit :=
  let walletType := WalletType.ofText parameters.walletType
  if walletType.checkChainTypeMatch netType then do
    Plan.quiet
    if (duplicates (mnemonicDigest lib parameters.mnemonic) walletType db).isEmpty then
      saveWalletPlan lib parameters.mnemonic walletType db
    else
      Plan.lift (.err () : Outcome Unit Unit)
  else
    Plan.lift (.err () : Outcome Unit Unit)

/-- The condition on a call: it is no creation that gets as far as the wallet is stored. -/
def CurrentRun.StoresNone (env : Surroundings) (lib : Libraries) (s : CurrentRun) :
    CurrentCall → Prop
  | .createWallet parameters encryptMnemonic =>
    ¬ (storingPlan { lib with encryptMnemonic } s.netType parameters s.session.store.walletsDb).Goes
      env.fails s.session.calls
  | _ => True

theorem chainTypeMatch_of_goes {lib : Libraries} {netType : NetType}
    {parameters : CreateWalletParameters} {db : WalletsDb} {fails : Nat → Bool} {n : Nat}
    (h : (storingPlan lib netType parameters db).Goes fails n) :
    (WalletType.ofText parameters.walletType).checkChainTypeMatch netType = true := by
  by_contra hno
  unfold storingPlan at h
  dsimp only at h
  rw [if_neg hno] at h
  cases h.1

/-! ## How far a creation gets -/

section Creation

variable {env : Surroundings} {lib : Libraries} {db : WalletsDb} {s : Session Databases}

/-- The tables of the wallets database are these. -/
def WalletsAre (db : WalletsDb) (s : Session Databases) : Prop := s.store.walletsDb = db

theorem goes_listByNetType {ρ τ : Type} (tables : ChainTables ρ τ) (netType : NetType)
    (h : WalletsAre db s) :
    GoesAs env.fails (listByNetType env tables netType) s (tables.listPlan netType db)
      (WalletsAre db) fun _ _ => WalletsAre db := by
  have hshared := @GoesAs.query _ _ _ env.fails s (WalletsAre db) .rbatisError
    (fun d : Databases => tables.sharedOf netType d.walletsDb) (fun _ _ => WalletsAre db) h
    fun _ _ => h
  rw [show s.store.walletsDb = db from h] at hshared
  refine hshared.bind fun tokensShared _ s₁ h₁ => ?_
  have hquery := @GoesAs.query _ _ _ env.fails s₁ (WalletsAre db) .rbatisError
    (fun d : Databases => tables.list (tables.defaultsOf netType d.walletsDb))
    (fun _ _ => WalletsAre db) h₁ fun _ _ => h₁
  rw [show s₁.store.walletsDb = db from h₁] at hquery
  exact hquery.map fun _ _ _ hQ => hQ

theorem goes_generateDefaultTokenOf {ρ τ : Type} (tables : ChainTables ρ τ)
    (wallet : Saved MWallet) (address : Saved MAddress) (netType : NetType) (h : WalletsAre db s) :
    GoesAs env.fails (generateDefaultTokenOf env tables wallet address netType) s
      (tables.tokensPlan netType db) (WalletsAre db) fun _ _ => WalletsAre db := by
  refine (GoesAs.beginTx (Q := fun _ _ => WalletsAre db) h h).bind fun tx _ s₁ h₁ => ?_
  refine (goes_listByNetType tables netType h₁).bind fun defaultTokens _ s₂ h₂ => ?_
  refine (GoesAs.inTx (Q := fun _ _ => WalletsAre db) h₂ h₂).bind fun tx _ s₃ h₃ => ?_
  refine (GoesAs.inTx (Q := fun _ _ => WalletsAre db) h₃ h₃).bind fun tx _ s₄ h₄ => ?_
  exact GoesAs.execute h₄ h₄

theorem goes_generateDefaultToken (chain : Chain) (wallet : Saved MWallet)
    (address : Saved MAddress) (netType : NetType) (h : WalletsAre db s) :
    GoesAs env.fails (chain.generateDefaultToken env wallet address netType) s
      (chain.tokensPlan netType db) (WalletsAre db) fun _ _ => WalletsAre db := by
  cases chain with
  | eth => exact goes_generateDefaultTokenOf ethChain wallet address netType h
  | eee => exact goes_generateDefaultTokenOf eeeChain wallet address netType h
  | btc => exact goes_generateDefaultTokenOf btcChain wallet address netType h

variable {walletType : WalletType}

theorem goes_generateAddresses {wallet : Saved MWallet} (mn : Text) (netType : NetType)
    (htype : WalletType.ofText wallet.row.walletType = walletType) (chains : List Chain)
    (h : WalletsAre db s) :
    GoesAs env.fails (generateAddresses env lib wallet mn netType chains) s
      (addressesPlan lib mn walletType netType db chains) (WalletsAre db)
      fun _ _ => WalletsAre db := by
  induction chains generalizing s with
  | nil => exact GoesAs.pure h
  | cons chain chains ih =>
    unfold generateAddresses addressesPlan
    rw [htype]
    refine (GoesAs.lift (Q := fun _ _ => WalletsAre db) h fun _ _ => h).bind fun addr _ s₁ h₁ => ?_
    refine GoesAs.get_bind ((goes_generateDefaultToken chain wallet _ netType h₁).bind ?_)
    intro _ _ s₂ h₂
    exact (ih h₂).map fun _ _ _ hQ => hQ

/-- The wallets and the settings in a transaction are those of the database. -/
structure TxAs (db tx : WalletsDb) : Prop where
  wallet : tx.wallet = db.wallet
  setting : tx.setting = db.setting

theorem goes_saveAddresses (mn : Text) {row : MWallet}
    (htype : WalletType.ofText row.walletType = walletType) (netTypes : List NetType)
    {mWallet : Saved MWallet} {tx : WalletsDb} (hrow : mWallet.row = row) (htx : TxAs db tx)
    (h : WalletsAre db s) :
    GoesAs env.fails (saveAddresses env lib walletType mn netTypes mWallet tx) s
      (networksPlan lib mn walletType db netTypes) (WalletsAre db)
      fun result _ s' => result.1.row = row ∧ TxAs db result.2 ∧ WalletsAre db s' := by
  induction netTypes generalizing s mWallet tx with
  | nil => exact GoesAs.pure ⟨hrow, htx, h⟩
  | cons netType netTypes ih =>
    unfold saveAddresses networksPlan
    by_cases hmatch : walletType.checkChainTypeMatch netType = true
    · rw [if_pos hmatch, if_pos hmatch]
      have hgenerate : GoesAs env.fails (generateAddressToken env lib mWallet mn netType) s
          (addressesPlan lib mn walletType netType db Chain.chains) (WalletsAre db)
          fun result _ s' => result.1.row = row ∧ WalletsAre db s' := by
        refine GoesAs.get_bind ?_
        have hkept : (if mWallet.shared.id = [] then
            (⟨beforeSave env s.calls 0 mWallet.shared, mWallet.row⟩ : Saved MWallet)
          else mWallet).row = row := by
          split <;> exact hrow
        exact (goes_generateAddresses mn netType (by rw [hkept]; exact htype) Chain.chains h).map
          fun _ _ _ hQ => ⟨hkept, hQ⟩
      refine hgenerate.bind ?_
      rintro ⟨mWallet', addresses⟩ _ s₁ ⟨hrow', h₁⟩
      refine (GoesAs.inTx (Q := fun tx _ s' => TxAs db tx ∧ WalletsAre db s') h₁
        ⟨⟨htx.wallet, htx.setting⟩, h₁⟩).bind ?_
      rintro tx' _ s₂ ⟨htx', h₂⟩
      exact ih hrow' htx' h₂
    · rw [if_neg hmatch, if_neg hmatch]
      exact ih hrow htx h

/-- The new wallet is stored, and no setting. -/
structure Stored (db : WalletsDb) (row : MWallet) (s : Session Databases) : Prop where
  wallet : ∃ mWallet : Saved MWallet, mWallet.row = row ∧
    s.store.walletsDb.wallet = db.wallet ++ [mWallet]
  setting : s.store.walletsDb.setting = db.setting

theorem goes_saveWallet {mn : Text} {row : MWallet}
    (htype : WalletType.ofText row.walletType = walletType) (h : WalletsAre db s) :
    GoesAs env.fails (saveWallet env lib walletType mn ⟨default, row⟩) s
      (saveWalletPlan lib mn walletType db) (WalletsAre db) fun _ _ => Stored db row := by
  refine (GoesAs.beginTx (Q := fun tx _ s' => tx = db ∧ WalletsAre db s') h ⟨h, h⟩).bind ?_
  rintro tx _ s₁ ⟨rfl, h₁⟩
  refine (goes_saveAddresses mn htype NetType.iter rfl ⟨rfl, rfl⟩ h₁).bind ?_
  rintro ⟨mWallet, tx'⟩ _ s₂ ⟨hrow, htx, h₂⟩
  refine (GoesAs.inTx (Q := fun result _ s' => (∃ mWallet : Saved MWallet, mWallet.row = row ∧
    result.2.wallet = tx.wallet ++ [mWallet]) ∧ result.2.setting = tx.setting ∧
      WalletsAre tx s') h₂ ⟨⟨⟨beforeSave env s₂.calls 0 mWallet.shared, mWallet.row⟩, hrow,
        congrArg (· ++ _) htx.wallet⟩, htx.setting, h₂⟩).bind ?_
  rintro ⟨mWallet', tx''⟩ _ s₃ ⟨hstored, hsetting, h₃⟩
  refine (GoesAs.execute (Q := fun _ _ => WalletsAre tx) h₃ h₃).bind fun _ _ s₄ h₄ => ?_
  refine (GoesAs.execute (Q := fun _ _ => Stored tx row) h₄ ?_).map fun _ _ _ hQ => hQ
  exact ⟨hstored, hsetting⟩

/-- No setting, and these wallets. -/
structure NoSetting (wallets : List (Saved MWallet)) (s : Session Databases) : Prop where
  setting : s.store.walletsDb.setting = []
  wallet : s.store.walletsDb.wallet = wallets

variable {wallets : List (Saved MWallet)}

/-- Methods that only read. -/
theorem leaves_query {α : Type} {read : Databases → Outcome WalletError α}
    (h : NoSetting wallets s) : Leaves (query env.fails .rbatisError read) s (NoSetting wallets)
      fun _ => NoSetting wallets := Leaves.query ⟨h.1, h.2⟩ fun _ _ => ⟨h.1, h.2⟩

theorem noSetting_loadChain {ρ τ : Type} (tables : ChainTables ρ τ) (mw : Saved MWallet)
    (netType : NetType) (h : NoSetting wallets s) :
    Leaves (loadChain env tables mw netType) s (NoSetting wallets) fun _ => NoSetting wallets := by
  refine Leaves.bind (leaves_query h) fun walletAddress s₁ h₁ => ?_
  refine Leaves.bind (leaves_query h₁) fun w s₂ h₂ => ?_
  refine Leaves.bind (Q := fun _ => NoSetting wallets) ?_ fun _ _ h₃ => Leaves.pure h₃ h₃
  cases w with
  | none => exact Leaves.pure h₂ h₂
  | some token =>
    refine Leaves.bind (Q := fun _ => NoSetting wallets) ?_ fun _ _ h₃ => Leaves.pure h₃ h₃
    refine Leaves.bind (leaves_query h₂) fun tokenShared s₃ h₃ => ?_
    refine Leaves.bind (Q := fun _ => NoSetting wallets) (Leaves.lift h₃ fun _ _ => h₃) ?_
    exact fun _ _ h₄ => Leaves.pure h₄ h₄

/-- The first wallet is saved as the current one, in no row. -/
theorem noSetting_saveFirstWallet (count : Nat) (mWallet : Saved MWallet) (netType : NetType)
    (h : NoSetting wallets s) :
    Leaves (saveFirstWallet env count mWallet netType) s (NoSetting wallets)
      fun _ => NoSetting wallets := by
  unfold saveFirstWallet
  split
  · dsimp only
    generalize Chain.eee.chainType (WalletType.ofText mWallet.row.walletType) netType = chainType
    obtain ⟨db, calls⟩ := s
    have hperforms :=
      performs_call env h.setting (.saveCurrentWalletChain mWallet.shared.id chainType) calls
    have hstore : ((saveCurrentWalletChain env mWallet.shared.id chainType).run
        ⟨db, calls⟩).1.store = db := by
      rcases hperforms.store_eq_or_mem with hsame | hmem
      · exact hsame
      · exact List.eq_of_mem_replicate hmem
    have hkept : NoSetting wallets
        ((saveCurrentWalletChain env mWallet.shared.id chainType).run ⟨db, calls⟩).1 := by
      refine ⟨?_, ?_⟩ <;> rw [hstore]
      · exact h.setting
      · exact h.wallet
    exact ⟨hkept, fun _ _ => hkept⟩
  · exact Leaves.pure h h

/-- **A creation** stores a wallet exactly if it gets that far, and never a setting. -/
theorem splits_createWallet (netType : NetType) (parameters : CreateWalletParameters)
    (h : s.store.walletsDb.setting = []) :
    Splits env.fails (createWallet env lib netType parameters) s
      (storingPlan lib netType parameters s.store.walletsDb)
      (WalletsAre s.store.walletsDb) fun s' => ∃ mWallet : Saved MWallet,
        mWallet.row = parameters.mWallet lib ∧
          NoSetting (s.store.walletsDb.wallet ++ [mWallet]) s' := by
  have htype : WalletType.ofText (parameters.mWallet lib).walletType =
      WalletType.ofText parameters.walletType := WalletType.ofText_toString _
  have hrefused : ∀ (e : WalletError) (s' : Session Databases) (I : Session Databases → Prop),
      WalletsAre s.store.walletsDb s' → Splits env.fails
        (Method.lift (.err e) : Method (Session Databases) WalletError Wallet) s'
        (Plan.lift (.err () : Outcome Unit Unit)) (WalletsAre s.store.walletsDb) I :=
    fun e s' I hs' => ⟨fun hgoes => Bool.noConfusion hgoes.1, fun _ => hs'⟩
  unfold createWallet storingPlan
  by_cases hmatch : (WalletType.ofText parameters.walletType).checkChainTypeMatch netType = true
  · simp only [if_pos hmatch]
    refine Splits.read rfl ?_
    split
    · refine (goes_saveWallet htype rfl).splits (R := fun _ _ => True) ?_
      rintro mWallet _ s₁ ⟨⟨w, hrow, hwallet⟩, hsetting⟩
      have h₁ : NoSetting (s.store.walletsDb.wallet ++ [w]) s₁ := ⟨hsetting.trans h, hwallet⟩
      refine Leaves.mono (I := NoSetting (s.store.walletsDb.wallet ++ [w]))
        (Q := fun _ _ => True) ?_ (fun _ h' => ⟨w, hrow, h'⟩) (fun _ _ hQ => hQ)
      refine Leaves.bind (leaves_query h₁) fun count s₂ h₂ => ?_
      refine Leaves.bind (noSetting_saveFirstWallet count mWallet netType h₂) fun _ s₃ h₃ => ?_
      refine Leaves.bind (noSetting_loadChain ethChain mWallet netType h₃) fun _ s₄ h₄ => ?_
      refine Leaves.bind (noSetting_loadChain eeeChain mWallet netType h₄) fun _ s₅ h₅ => ?_
      exact Leaves.bind (noSetting_loadChain btcChain mWallet netType h₅)
        fun _ _ h₆ => Leaves.pure h₆ trivial
    · exact hrefused _ _ _ rfl
  · simp only [if_neg hmatch]
    exact hrefused _ _ _ rfl

end Creation

/-! ## One call -/

namespace CurrentRun

variable {env : Surroundings} {lib : Libraries}
  {getMnemonicContext : Text → Bytes → Except Eee.Error Bytes} {s : CurrentRun}

/-- No setting and no wallet. -/
structure Empty (s : CurrentRun) : Prop where
  setting : s.session.store.walletsDb.setting = []
  wallet : s.session.store.walletsDb.wallet = []
  created : s.created = false

theorem Empty.currentExists (h : Empty s) : CurrentExists env s where
  stored := by simp [h.setting]
  current := by simp [h.created]

/-- Without a setting there is no current wallet. -/
theorem not_currentExists (hsetting : s.session.store.walletsDb.setting = [])
    (hcreated : s.created = true) : ¬ CurrentExists env s := by
  intro h
  obtain ⟨current, hcurrent⟩ := h.current hcreated
  rw [run_currentWalletChain hsetting] at hcurrent
  cases hcurrent

/-- A call that leaves the wallets database as it is. -/
theorem Empty.of_same (h : Empty s) {call : CurrentCall}
    (hsame : WalletsAre s.session.store.walletsDb (s.perform env lib getMnemonicContext call).1) :
    Empty (s.step env lib getMnemonicContext call) where
  setting := (congrArg WalletsDb.setting hsame).trans h.setting
  wallet := (congrArg WalletsDb.wallet hsame).trans h.wallet
  created := by
    have hnone : (s.step env lib getMnemonicContext call).session.store.walletsDb.wallet = [] :=
      (congrArg WalletsDb.wallet hsame).trans h.wallet
    show (s.created || WalletsDb.hasAny _ _) = false
    rw [h.created, WalletsDb.hasAny]
    exact (congrArg (List.any · _) hnone).trans rfl

/-- A call of the settings leaves the databases as they are. -/
theorem store_call (h : s.session.store.walletsDb.setting = []) (call : SettingsCall) :
    ((call.perform env).run s.session).1.store = s.session.store := by
  rcases (performs_call env h call s.session.calls).store_eq_or_mem with hsame | hmem
  · exact hsame
  · exact List.eq_of_mem_replicate hmem

/-- There is no wallet to remove. -/
theorem store_removeWallet (h : Empty s) (walletId password : Text) :
    WalletsAre s.session.store.walletsDb
      ((removeWallet env getMnemonicContext walletId password).run s.session).1 := by
  have hleaves : Leaves (removeWallet env getMnemonicContext walletId password) s.session
      (WalletsAre s.session.store.walletsDb) fun _ _ => True := by
    refine Leaves.bind (Q := fun setting s' => s'.store = s.session.store)
      (Leaves.query rfl fun _ _ => rfl) fun setting s₁ h₁ => ?_
    split
    · exact Leaves.lift (congrArg Databases.walletsDb h₁) fun _ _ => trivial
    · refine Leaves.bind (Q := fun mWallet s' => mWallet = none ∧ s'.store = s.session.store)
        (Leaves.query (congrArg Databases.walletsDb h₁) fun mWallet hread => ⟨?_, h₁⟩) ?_
      · rw [h₁, h.wallet] at hread
        exact (Outcome.ok.inj hread).symm
      · rintro _ s₂ ⟨rfl, h₂⟩
        exact Leaves.lift (congrArg Databases.walletsDb h₂) fun _ _ => trivial
  exact hleaves.ends

theorem Empty.step (h : Empty s) (call : CurrentCall) :
    (StoresNone env lib s call → Empty (s.step env lib getMnemonicContext call)) ∧
    (¬ StoresNone env lib s call →
      ¬ CurrentExists env (s.step env lib getMnemonicContext call)) := by
  cases call with
  | createWallet parameters encryptMnemonic =>
    obtain ⟨hgoes, hstops⟩ := @splits_createWallet env { lib with encryptMnemonic } s.session
      s.netType parameters h.setting
    refine ⟨fun hno => h.of_same (hstops hno), fun hyes => ?_⟩
    obtain ⟨mWallet, hrow, hstored⟩ := hgoes (not_not.mp hyes)
    refine not_currentExists hstored.setting ?_
    rw [h.wallet, List.nil_append] at hstored
    show (s.created || WalletsDb.hasAny s.netType _) = true
    have htype : mWallet.row.walletType = (WalletType.ofNetType s.netType).toString := by
      rw [hrow, WalletType.ofNetType_of_match (chainTypeMatch_of_goes (not_not.mp hyes))]
      rfl
    rw [WalletsDb.hasAny, show List.any _ _ = _ from congrArg (List.any · _) hstored.wallet]
    simp [htype]
  | removeWallet walletId password =>
    exact ⟨fun _ => h.of_same (store_removeWallet h walletId password),
      fun hno => absurd trivial hno⟩
  | saveCurrentWalletChain walletId chainType =>
    have hstore := @store_call env s h.setting (.saveCurrentWalletChain walletId chainType)
    exact ⟨fun _ => h.of_same (congrArg Databases.walletsDb hstore), fun hno => absurd trivial hno⟩
  | changeNetType netType =>
    have hstore : ((changeNetType env netType).run s.session).1.store = s.session.store := by
      have hcall := @store_call env s h.setting (.changeNetType netType)
      rcases hrun : (changeNetType env netType).run s.session with ⟨s', a | e | p⟩ <;>
        simpa [SettingsCall.perform, Method.run_bind, hrun] using hcall
    exact ⟨fun _ => h.of_same (congrArg Databases.walletsDb hstore), fun hno => absurd trivial hno⟩

/-- **There is a current wallet after every call of a run exactly if no wallet is ever created**:
the row that names the current wallet is updated, and never there. -/
theorem currentExists_run_iff (env : Surroundings) (lib : Libraries)
    (getMnemonicContext : Text → Bytes → Except Eee.Error Bytes) (db : Databases)
    (netType : NetType) (calls : List CurrentCall) :
    (∀ calls', calls' <+: calls →
        CurrentExists env (run (step env lib getMnemonicContext) (start db netType) calls')) ↔
      Guarded (step env lib getMnemonicContext) (StoresNone env lib) (start db netType) calls := by
  have hempty : Empty (start db netType) := ⟨rfl, rfl, rfl⟩
  exact forall_prefix_iff_guarded (fun s hs => hs.currentExists)
    (fun s call hs => (hs.step call).1) (fun s call hs => (hs.step call).2) hempty calls

/-- The first wallet of a new store is created, and is not the current one. -/
theorem not_currentExists_of_first :
    ¬ ∀ calls', calls' <+:
        [.createWallet ⟨['n'], ['p'], WalletsRun.phrase, "Normal".toList⟩ fun _ _ => ['m']] →
      CurrentExists (failsAt 100) (run (step (failsAt 100) WalletsRun.seedAddress fun _ _ => .ok [])
        (start WalletsRun.noTokens .main) calls') := by
  intro h
  exact not_currentExists (by decide) (by decide) (h _ List.prefix_rfl)

end CurrentRun

end Cashbox.Wallets
