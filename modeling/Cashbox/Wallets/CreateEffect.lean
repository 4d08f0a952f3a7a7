import Cashbox.Lib.Effect
import Cashbox.Wallets.CreatedEntirely

/-!
# What a creation leaves behind

Wherever `create_wallet` ends, the wallets, their addresses and the backups of their mnemonics
are as they were, or there is a backup more, or there are the backup, the wallet and its
addresses. What it does to the other tables is left open here.
-/

namespace Cashbox.Wallets

open Cashbox.Lib

/-! ## The tables of secrets -/

/-- The wallets, their addresses, and the backups of their mnemonics. -/
structure Secrets where
  wallet : List (Saved MWallet)
  address : List (Saved MAddress)
  mnemonic : List (Saved MMnemonic)

def Databases.secrets (db : Databases) : Secrets where
  wallet := db.walletsDb.wallet
  address := db.walletsDb.address
  mnemonic := db.mnemonicDb

/-- Nothing happens to the tables of secrets. -/
structure KeepsSecrets (s s' : Session Databases) : Prop where
  calls : s.calls ≤ s'.calls
  secrets : s'.store.secrets = s.store.secrets

/-- The row is an address that a chain derives from the mnemonic. -/
def AddressOf (lib : Libraries) (mn walletId : Text) (a : Saved MAddress) : Prop :=
  a.row.walletId = walletId ∧ ∃ (chain : Chain) (walletType : WalletType) (netType : NetType)
    (addr : MAddress), chain.generateAddress lib mn walletType netType = .ok addr ∧
      a.row.address = addr.address

/-- The parameters pass the two checks of a creation. -/
structure Passes (lib : Libraries) (netType : NetType) (parameters : CreateWalletParameters)
    (db : Databases) : Prop where
  chainTypeMatch : (WalletType.ofText parameters.walletType).checkChainTypeMatch netType = true
  /-- No wallet had the mnemonic. -/
  isNew : duplicates (mnemonicDigest lib parameters.mnemonic)
    (WalletType.ofText parameters.walletType) db.walletsDb = []

/-- A wallet is added, with its addresses and its backup. -/
structure AddsWallet (env : Surroundings) (lib : Libraries) (netType : NetType)
    (parameters : CreateWalletParameters) (s s' : Session Databases) (mWallet : Saved MWallet)
    (addresses : List (Saved MAddress)) (backup : Saved MMnemonic) : Prop where
  row : mWallet.row = parameters.mWallet lib
  /-- The identifier was drawn in between. -/
  id : ∃ n, s.calls ≤ n ∧ n < s'.calls ∧ mWallet.shared.id = env.uuid n 0
  derived : ∀ a ∈ addresses, AddressOf lib parameters.mnemonic mWallet.shared.id a
  copied : backup.row = MMnemonic.ofWallet (parameters.mWallet lib)
  passes : Passes lib netType parameters s.store
  secrets : s'.store.secrets =
    { wallet := s.store.secrets.wallet ++ [mWallet]
      address := s.store.secrets.address ++ addresses
      mnemonic := s.store.secrets.mnemonic ++ [backup] }

/-- What a creation does to the tables of secrets. -/
inductive CreateEffect (env : Surroundings) (lib : Libraries) (netType : NetType)
    (parameters : CreateWalletParameters) (s s' : Session Databases) : Prop
  | nothing (h : KeepsSecrets s s')
  | backup (backup : Saved MMnemonic) (hcalls : s.calls ≤ s'.calls)
      (h : s'.store.secrets =
        { s.store.secrets with mnemonic := s.store.secrets.mnemonic ++ [backup] })
  | wallet (mWallet : Saved MWallet) (addresses : List (Saved MAddress))
      (backup : Saved MMnemonic)
      (h : AddsWallet env lib netType parameters s s' mWallet addresses backup)

namespace KeepsSecrets

variable {s s' s'' : Session Databases}

theorem refl (s : Session Databases) : KeepsSecrets s s := ⟨Nat.le_refl _, rfl⟩

theorem trans (h : KeepsSecrets s s') (h' : KeepsSecrets s' s'') : KeepsSecrets s s'' :=
  ⟨Nat.le_trans h.calls h'.calls, h'.secrets.trans h.secrets⟩

/-- An operation keeps the secrets if it changes other tables only. -/
theorem step (h : KeepsSecrets s s') {db : Databases} (hdb : db.secrets = s'.store.secrets) :
    KeepsSecrets s ⟨db, s'.calls + 1⟩ :=
  h.trans ⟨Nat.le_succ _, hdb⟩

end KeepsSecrets

/-! ## Default tokens and addresses -/

section Keeps

variable {env : Surroundings} {s₀ s : Session Databases}

theorem leaves_listByNetType {ρ τ : Type} (tables : ChainTables ρ τ) (netType : NetType)
    (h : KeepsSecrets s₀ s) :
    Leaves (listByNetType env tables netType) s (KeepsSecrets s₀) fun _ => KeepsSecrets s₀ := by
  refine Leaves.bind (Q := fun _ => KeepsSecrets s₀)
    (Leaves.query (h.step rfl) fun _ _ => h.step rfl) ?_
  intro tokensShared s₁ h₁
  refine Leaves.bind (Q := fun _ => KeepsSecrets s₀)
    (Leaves.query (h₁.step rfl) fun _ _ => h₁.step rfl) ?_
  intro tokensDefault s₂ h₂
  exact Leaves.pure h₂ h₂

theorem leaves_generateDefaultTokenOf {ρ τ : Type} (tables : ChainTables ρ τ)
    (wallet : Saved MWallet) (address : Saved MAddress) (netType : NetType)
    (h : KeepsSecrets s₀ s) :
    Leaves (generateDefaultTokenOf env tables wallet address netType) s (KeepsSecrets s₀)
      fun _ => KeepsSecrets s₀ := by
  refine Leaves.bind (Q := fun _ => KeepsSecrets s₀) (Leaves.beginTx (h.step rfl) (h.step rfl)) ?_
  intro tx s₁ h₁
  refine Leaves.bind (leaves_listByNetType tables netType h₁) ?_
  intro defaultTokens s₂ h₂
  refine Leaves.bind (Q := fun _ => KeepsSecrets s₀) (Leaves.inTx (h₂.step rfl) (h₂.step rfl)) ?_
  intro tx s₃ h₃
  refine Leaves.bind (Q := fun _ => KeepsSecrets s₀) (Leaves.inTx (h₃.step rfl) (h₃.step rfl)) ?_
  intro tx s₄ h₄
  exact Leaves.commitTx (h₄.step rfl) (h₄.step rfl) (h₄.step rfl)

theorem leaves_generateDefaultToken (chain : Chain) (wallet : Saved MWallet)
    (address : Saved MAddress) (netType : NetType) (h : KeepsSecrets s₀ s) :
    Leaves (chain.generateDefaultToken env wallet address netType) s (KeepsSecrets s₀)
      fun _ => KeepsSecrets s₀ := by
  cases chain with
  | eth => exact leaves_generateDefaultTokenOf ethChain wallet address netType h
  | eee => exact leaves_generateDefaultTokenOf eeeChain wallet address netType h
  | btc => exact leaves_generateDefaultTokenOf btcChain wallet address netType h

/-- The addresses that are generated are those of the mnemonic. -/
theorem leaves_generateAddresses {lib : Libraries} (wallet : Saved MWallet) (mn : Text)
    (netType : NetType) (chains : List Chain) (h : KeepsSecrets s₀ s) :
    Leaves (generateAddresses env lib wallet mn netType chains) s (KeepsSecrets s₀)
      fun addresses s' => KeepsSecrets s₀ s' ∧
        ∀ a ∈ addresses, AddressOf lib mn wallet.shared.id a := by
  induction chains generalizing s with
  | nil => exact Leaves.pure h ⟨h, fun a ha => nomatch ha⟩
  | cons chain chains ih =>
    unfold generateAddresses
    refine Leaves.bind (Q := fun addr s' => KeepsSecrets s₀ s' ∧
      chain.generateAddress lib mn (WalletType.ofText wallet.row.walletType) netType = .ok addr)
      (Leaves.lift h fun addr haddr => ⟨h, haddr⟩) ?_
    rintro addr s₁ ⟨h₁, haddr⟩
    refine Leaves.get_bind (Leaves.bind (leaves_generateDefaultToken chain wallet _ netType h₁) ?_)
    intro _ s₂ h₂
    refine Leaves.bind (ih h₂) ?_
    rintro addresses s₃ ⟨h₃, haddresses⟩
    refine Leaves.pure h₃ ⟨h₃, fun a ha => ?_⟩
    rcases List.mem_cons.mp ha with rfl | ha
    · exact ⟨rfl, chain, _, netType, addr, haddr, rfl⟩
    · exact haddresses a ha

end Keeps

/-! ## The transaction of the wallets database -/

section Saves

variable {env : Surroundings} {lib : Libraries} {s₀ s : Session Databases}

/-- What the transaction has before the wallet is saved: the addresses of the networks so far,
under the identifier of the wallet if that is drawn already. -/
structure Drafts (env : Surroundings) (lib : Libraries) (mn : Text) (row : MWallet)
    (s₀ s : Session Databases) (mWallet : Saved MWallet) (tx : WalletsDb) : Prop where
  row : mWallet.row = row
  wallet : tx.wallet = s₀.store.secrets.wallet
  address : (mWallet.shared.id = [] ∧ tx.address = s₀.store.secrets.address) ∨
    (∃ n, s₀.calls ≤ n ∧ n < s.calls ∧ mWallet.shared.id = env.uuid n 0) ∧
      ∃ addresses, tx.address = s₀.store.secrets.address ++ addresses ∧
        ∀ a ∈ addresses, AddressOf lib mn mWallet.shared.id a

/-- What is saved of some addresses are the same rows. -/
theorem addressOf_saveBatch {mn walletId : Text} {addresses : List (Saved MAddress)}
    (h : ∀ a ∈ addresses, AddressOf lib mn walletId a) (n : Nat) :
    ∀ a ∈ saveBatch env n addresses, AddressOf lib mn walletId a := by
  intro a ha
  obtain ⟨k, hk, rfl⟩ := List.mem_mapIdx.mp ha
  exact h addresses[k] (List.getElem_mem hk)

/-- The addresses of a network, under the identifier that the wallet has then. -/
theorem leaves_generateAddressToken (hne : ∀ n k, env.uuid n k ≠ []) {mn : Text} {row : MWallet}
    {mWallet : Saved MWallet} {tx : WalletsDb} (netType : NetType) (h : KeepsSecrets s₀ s)
    (hdrafts : Drafts env lib mn row s₀ s mWallet tx) :
    Leaves (generateAddressToken env lib mWallet mn netType) s (KeepsSecrets s₀)
      fun result s' => KeepsSecrets s₀ s' ∧ ∀ n, Drafts env lib mn row s₀ ⟨s'.store, s'.calls + 1⟩
        result.1 { tx with address := tx.address ++ saveBatch env n result.2 } := by
  unfold generateAddressToken
  refine Leaves.get_bind ?_
  -- the identifier that the wallet has from here on, and the addresses under it so far
  obtain ⟨mWallet', hmWallet', hrow, hdrawn, addresses, haddress, hderived⟩ :
      ∃ mWallet' : Saved MWallet,
        (if mWallet.shared.id = [] then ⟨beforeSave env s.calls 0 mWallet.shared, mWallet.row⟩
          else mWallet) = mWallet' ∧ mWallet'.row = row ∧
        (∃ n, s₀.calls ≤ n ∧ n < s.calls + 1 ∧ mWallet'.shared.id = env.uuid n 0) ∧
        ∃ addresses, tx.address = s₀.store.secrets.address ++ addresses ∧
          ∀ a ∈ addresses, AddressOf lib mn mWallet'.shared.id a := by
    by_cases hid : mWallet.shared.id = []
    · have hdrawn : (beforeSave env s.calls 0 mWallet.shared).id = env.uuid s.calls 0 := by
        unfold beforeSave
        rw [if_pos hid]
      have haddress : tx.address = s₀.store.secrets.address := by
        rcases hdrafts.address with ⟨_, haddress⟩ | ⟨⟨n, _, _, hn⟩, _⟩
        · exact haddress
        · rw [hid] at hn
          exact absurd hn.symm (hne n 0)
      rw [if_pos hid]
      exact ⟨_, rfl, hdrafts.row, ⟨s.calls, h.calls, Nat.lt_succ_self _, hdrawn⟩, [],
        by rw [haddress, List.append_nil], fun a ha => nomatch ha⟩
    · rw [if_neg hid]
      rcases hdrafts.address with ⟨hnil, _⟩ | ⟨⟨n, hle, hlt, hn⟩, haddresses⟩
      · exact absurd hnil hid
      · exact ⟨_, rfl, hdrafts.row, ⟨n, hle, Nat.lt_succ_of_lt hlt, hn⟩, haddresses⟩
  dsimp only
  rw [hmWallet']
  refine Leaves.bind ((leaves_generateAddresses mWallet' mn netType Chain.chains
    (KeepsSecrets.refl s)).mono (fun s' h' => h.trans h') fun _ _ hQ => hQ) ?_
  rintro generated s₁ ⟨h₁, hgenerated⟩
  refine Leaves.pure (h.trans h₁) ⟨h.trans h₁, fun n => ⟨hrow, hdrafts.wallet, .inr ⟨?_, ?_⟩⟩⟩
  · obtain ⟨n, hle, hlt, hn⟩ := hdrawn
    exact ⟨n, hle, Nat.lt_of_lt_of_le hlt (Nat.succ_le_succ h₁.calls), hn⟩
  · refine ⟨addresses ++ saveBatch env n generated, ?_, fun a ha => ?_⟩
    · show tx.address ++ saveBatch env n generated = _
      rw [haddress, List.append_assoc]
    · rcases List.mem_append.mp ha with ha | ha
      · exact hderived a ha
      · exact addressOf_saveBatch hgenerated n a ha

theorem leaves_saveAddresses (hne : ∀ n k, env.uuid n k ≠ []) {walletType : WalletType}
    {mn : Text} {row : MWallet} (netTypes : List NetType) {mWallet : Saved MWallet} {tx : WalletsDb}
    (h : KeepsSecrets s₀ s)
    (hdrafts : Drafts env lib mn row s₀ s mWallet tx) :
    Leaves (saveAddresses env lib walletType mn netTypes mWallet tx) s (KeepsSecrets s₀)
      fun result s' => KeepsSecrets s₀ s' ∧ Drafts env lib mn row s₀ s' result.1 result.2 := by
  induction netTypes generalizing s mWallet tx with
  | nil => exact Leaves.pure h ⟨h, hdrafts⟩
  | cons netType netTypes ih =>
    unfold saveAddresses
    by_cases hmatch : walletType.checkChainTypeMatch netType = true
    · rw [if_pos hmatch]
      refine Leaves.bind (leaves_generateAddressToken hne netType h hdrafts) ?_
      rintro ⟨mWallet', addresses⟩ s₁ ⟨h₁, hdrafts₁⟩
      refine Leaves.bind (Q := fun tx s' => KeepsSecrets s₀ s' ∧
        Drafts env lib mn row s₀ s' mWallet' tx) (Leaves.inTx (h₁.step rfl) ?_) ?_
      · exact ⟨h₁.step rfl, hdrafts₁ _⟩
      · rintro tx' s₂ ⟨h₂, hdrafts₂⟩
        exact ih h₂ hdrafts₂
    · rw [if_neg hmatch]
      exact ih h hdrafts

/-- What the transaction has when the wallet is saved. -/
structure Drafted (env : Surroundings) (lib : Libraries) (mn : Text) (row : MWallet)
    (s₀ s : Session Databases) (mWallet : Saved MWallet) (addresses : List (Saved MAddress))
    (tx : WalletsDb) : Prop where
  row : mWallet.row = row
  id : ∃ n, s₀.calls ≤ n ∧ n < s.calls ∧ mWallet.shared.id = env.uuid n 0
  derived : ∀ a ∈ addresses, AddressOf lib mn mWallet.shared.id a
  wallet : tx.wallet = s₀.store.secrets.wallet ++ [mWallet]
  address : tx.address = s₀.store.secrets.address ++ addresses

theorem Drafts.save (hne : ∀ n k, env.uuid n k ≠ []) {mn : Text} {row : MWallet}
    {mWallet : Saved MWallet} {tx : WalletsDb} (h : Drafts env lib mn row s₀ s mWallet tx)
    (hcalls : s₀.calls ≤ s.calls) :
    ∃ addresses, Drafted env lib mn row s₀ ⟨s.store, s.calls + 1⟩
      ⟨beforeSave env s.calls 0 mWallet.shared, mWallet.row⟩ addresses
      { tx with wallet := tx.wallet ++
        [⟨beforeSave env s.calls 0 mWallet.shared, mWallet.row⟩] } := by
  by_cases hid : mWallet.shared.id = []
  · have hdrawn : (beforeSave env s.calls 0 mWallet.shared).id = env.uuid s.calls 0 := by
      unfold beforeSave
      rw [if_pos hid]
    rcases h.address with ⟨_, haddress⟩ | ⟨⟨n, _, _, hn⟩, _⟩
    · refine ⟨[], h.row, ⟨s.calls, hcalls, Nat.lt_succ_self _, hdrawn⟩,
        (fun a ha => nomatch ha), ?_, ?_⟩
      · rw [h.wallet]
      · rw [haddress, List.append_nil]
    · rw [hid] at hn
      exact absurd hn.symm (hne n 0)
  · have hkept : (beforeSave env s.calls 0 mWallet.shared).id = mWallet.shared.id := by
      unfold beforeSave
      rw [if_neg hid]
    rcases h.address with ⟨hnil, _⟩ | ⟨⟨n, hle, hlt, hn⟩, addresses, haddress, hderived⟩
    · exact absurd hnil hid
    · refine ⟨addresses, h.row, ⟨n, hle, Nat.lt_succ_of_lt hlt, hkept.trans hn⟩, ?_, ?_, haddress⟩
      · rw [hkept]
        exact hderived
      · rw [h.wallet]

theorem leaves_saveWallet (hne : ∀ n k, env.uuid n k ≠ []) {netType : NetType}
    {parameters : CreateWalletParameters} (hpasses : Passes lib netType parameters s₀.store)
    (h : KeepsSecrets s₀ s) {walletType : WalletType} :
    Leaves (saveWallet env lib walletType parameters.mnemonic ⟨default, parameters.mWallet lib⟩) s
      (CreateEffect env lib netType parameters s₀)
      fun mWallet s' => ∃ addresses backup,
        AddsWallet env lib netType parameters s₀ s' mWallet addresses backup := by
  have hkeeps : ∀ s', KeepsSecrets s₀ s' → CreateEffect env lib netType parameters s₀ s' := fun _ =>
    CreateEffect.nothing
  unfold saveWallet
  refine Leaves.bind (Q := fun tx s' => KeepsSecrets s₀ s' ∧ tx = s.store.walletsDb)
    (Leaves.beginTx (hkeeps _ (h.step rfl)) ⟨h.step rfl, rfl⟩) ?_
  rintro _ s₁ ⟨h₁, rfl⟩
  have hdrafts : Drafts env lib parameters.mnemonic (parameters.mWallet lib) s₀ s₁
      ⟨default, parameters.mWallet lib⟩ s.store.walletsDb :=
    ⟨rfl, congrArg Secrets.wallet h.secrets, .inl ⟨rfl, congrArg Secrets.address h.secrets⟩⟩
  refine Leaves.bind ((leaves_saveAddresses hne NetType.iter h₁ hdrafts).mono hkeeps
    fun _ _ hQ => hQ) ?_
  rintro ⟨mWallet, tx⟩ s₂ ⟨h₂, hdrafts₂⟩
  refine Leaves.bind (Q := fun result s' => KeepsSecrets s₀ s' ∧ ∃ addresses,
    Drafted env lib parameters.mnemonic (parameters.mWallet lib) s₀ s' result.1 addresses result.2)
    (Leaves.inTx (hkeeps _ (h₂.step rfl)) ⟨h₂.step rfl, hdrafts₂.save hne h₂.calls⟩) ?_
  rintro ⟨mWallet, tx⟩ s₃ ⟨h₃, addresses, hdrafted⟩
  -- the backup is saved whatever becomes of the transaction
  obtain ⟨backup, hbackup⟩ : ∃ backup : Saved MMnemonic,
      backup = ⟨beforeSave env s₃.calls 0 default, MMnemonic.ofWallet mWallet.row⟩ := ⟨_, rfl⟩
  have hsecrets :
      Databases.secrets { s₃.store with mnemonicDb := s₃.store.mnemonicDb ++ [backup] } =
      { s₀.store.secrets with mnemonic := s₀.store.secrets.mnemonic ++ [backup] } := by
    rw [← h₃.secrets]
    rfl
  refine Leaves.bind (Q := fun _ s' => s' =
    ⟨{ s₃.store with mnemonicDb := s₃.store.mnemonicDb ++ [backup] }, s₃.calls + 1⟩)
    (Leaves.execute (hkeeps _ (h₃.step rfl)) ?_ ?_) ?_
  · rw [← hbackup]
    exact .backup backup (Nat.le_succ_of_le h₃.calls) hsecrets
  · rw [← hbackup]
  rintro _ _ rfl
  have hadds : AddsWallet env lib netType parameters s₀
      ⟨{ s₃.store with
        walletsDb := tx
        mnemonicDb := s₃.store.mnemonicDb ++ [backup] }, s₃.calls + 1 + 1⟩
      mWallet addresses backup := by
    obtain ⟨n, hle, hlt, hid⟩ := hdrafted.id
    have hlater : n < s₃.calls + 1 + 1 := by omega
    refine ⟨hdrafted.row, ⟨n, hle, hlater, hid⟩, hdrafted.derived, ?_, hpasses, ?_⟩
    · rw [hbackup, ← hdrafted.row]
    · show Secrets.mk tx.wallet tx.address (s₃.store.mnemonicDb ++ [backup]) = _
      rw [hdrafted.wallet, hdrafted.address, ← h₃.secrets]
      rfl
  refine Leaves.bind (Q := fun _ s' => ∃ addresses backup,
    AddsWallet env lib netType parameters s₀ s' mWallet addresses backup) (Leaves.commitTx
      (.backup backup (by have := h₃.calls; dsimp only; omega) hsecrets) (.wallet _ _ _ hadds)
      ⟨_, _, hadds⟩) ?_
  rintro _ s' ⟨addresses, backup, hadds⟩
  exact Leaves.pure (.wallet _ _ _ hadds) ⟨_, _, hadds⟩

end Saves

/-! ## The whole creation -/

section Creation

variable {env : Surroundings} {s₀ s : Session Databases}

theorem leaves_getSetting (key : SettingType) (h : KeepsSecrets s₀ s) :
    Leaves (getSetting env key) s (KeepsSecrets s₀) fun _ => KeepsSecrets s₀ :=
  Leaves.query (h.step rfl) fun _ _ => h.step rfl

theorem leaves_saveCurrentWalletChain (walletId : Text) (chainType : ChainType)
    (h : KeepsSecrets s₀ s) :
    Leaves (saveCurrentWalletChain env walletId chainType) s (KeepsSecrets s₀)
      fun _ => KeepsSecrets s₀ := by
  refine Leaves.bind (leaves_getSetting _ h) ?_
  intro walletSetting s₁ h₁
  refine Leaves.bind (leaves_getSetting _ h₁) ?_
  intro chainSetting s₂ h₂
  refine Leaves.bind (Q := fun tx s' => KeepsSecrets s₀ s' ∧ ∃ setting,
    tx = { s₂.store.walletsDb with setting := setting } ∧ s'.store = s₂.store)
    (Leaves.beginTx (h₂.step rfl) ⟨h₂.step rfl, _, rfl, rfl⟩) ?_
  rintro _ s₃ ⟨h₃, setting, rfl, hs₃⟩
  refine Leaves.bind (Q := fun tx s' => KeepsSecrets s₀ s' ∧ ∃ setting,
    tx = { s₂.store.walletsDb with setting := setting } ∧ s'.store = s₂.store)
    (Leaves.inTx (h₃.step rfl) ⟨h₃.step rfl, _, rfl, hs₃⟩) ?_
  rintro _ s₄ ⟨h₄, setting, rfl, hs₄⟩
  refine Leaves.bind (Q := fun tx s' => KeepsSecrets s₀ s' ∧ ∃ setting,
    tx = { s₂.store.walletsDb with setting := setting } ∧ s'.store = s₂.store)
    (Leaves.inTx (h₄.step rfl) ⟨h₄.step rfl, _, rfl, hs₄⟩) ?_
  rintro _ s₅ ⟨h₅, setting, rfl, hs₅⟩
  have hsame : Databases.secrets
      { s₅.store with walletsDb := { s₂.store.walletsDb with setting := setting } } =
        s₅.store.secrets := by
    rw [hs₅]
    rfl
  exact Leaves.commitTx (h₅.step rfl) (h₅.step hsame) (h₅.step hsame)

theorem leaves_loadChain {ρ τ : Type} (tables : ChainTables ρ τ) (mw : Saved MWallet)
    (netType : NetType) (h : KeepsSecrets s₀ s) :
    Leaves (loadChain env tables mw netType) s (KeepsSecrets s₀) fun _ => KeepsSecrets s₀ := by
  refine Leaves.bind (Q := fun _ => KeepsSecrets s₀)
    (Leaves.query (h.step rfl) fun _ _ => h.step rfl) ?_
  intro walletAddress s₁ h₁
  refine Leaves.bind (Q := fun _ => KeepsSecrets s₀)
    (Leaves.query (h₁.step rfl) fun _ _ => h₁.step rfl) ?_
  intro w s₂ h₂
  refine Leaves.bind (Q := fun _ => KeepsSecrets s₀) ?_ fun _ _ h₃ => Leaves.pure h₃ h₃
  cases w with
  | none => exact Leaves.pure h₂ h₂
  | some token =>
    refine Leaves.bind (Q := fun _ => KeepsSecrets s₀) ?_ fun _ _ h₃ => Leaves.pure h₃ h₃
    refine Leaves.bind (Q := fun _ => KeepsSecrets s₀)
      (Leaves.query (h₂.step rfl) fun _ _ => h₂.step rfl) ?_
    intro tokenShared s₃ h₃
    refine Leaves.bind (Q := fun _ => KeepsSecrets s₀) (Leaves.lift h₃ fun _ _ => h₃) ?_
    exact fun _ _ h₄ => Leaves.pure h₄ h₄

theorem leaves_loadWallet (mw : Saved MWallet) (netType : NetType) (h : KeepsSecrets s₀ s) :
    Leaves (loadWallet env mw netType) s (KeepsSecrets s₀) fun _ => KeepsSecrets s₀ := by
  refine Leaves.bind (leaves_loadChain ethChain mw netType h) fun _ _ h₁ => ?_
  refine Leaves.bind (leaves_loadChain eeeChain mw netType h₁) fun _ _ h₂ => ?_
  exact Leaves.bind (leaves_loadChain btcChain mw netType h₂) fun _ _ h₃ => Leaves.pure h₃ h₃

/-- After a wallet was saved, a creation reads, and may save a setting. -/
theorem leaves_countAndLoad (mWallet : Saved MWallet) (netType : NetType)
    (h : KeepsSecrets s₀ s) :
    Leaves (do
        let count ← countWallets env netType
        saveFirstWallet env count mWallet netType
        loadWallet env mWallet netType) s (KeepsSecrets s₀) fun _ => KeepsSecrets s₀ := by
  refine Leaves.bind (Q := fun _ => KeepsSecrets s₀)
    (Leaves.query (h.step rfl) fun _ _ => h.step rfl) fun count s₁ h₁ => ?_
  have hfirst : Leaves (saveFirstWallet env count mWallet netType) s₁ (KeepsSecrets s₀)
      fun _ => KeepsSecrets s₀ := by
    unfold saveFirstWallet
    split
    · exact leaves_saveCurrentWalletChain _ _ h₁
    · exact Leaves.pure h₁ h₁
  exact Leaves.bind hfirst fun _ s₂ h₂ => leaves_loadWallet mWallet netType h₂

theorem AddsWallet.keeps {lib : Libraries} {netType : NetType}
    {parameters : CreateWalletParameters} {s' s'' : Session Databases} {mWallet : Saved MWallet}
    {addresses : List (Saved MAddress)}
    {backup : Saved MMnemonic}
    (h : AddsWallet env lib netType parameters s s' mWallet addresses backup)
    (hkeeps : KeepsSecrets s' s'') :
    AddsWallet env lib netType parameters s s'' mWallet addresses backup where
  row := h.row
  id := by
    obtain ⟨n, hle, hlt, hid⟩ := h.id
    exact ⟨n, hle, Nat.lt_of_lt_of_le hlt hkeeps.calls, hid⟩
  derived := h.derived
  copied := h.copied
  passes := h.passes
  secrets := hkeeps.secrets.trans h.secrets

variable {lib : Libraries}

theorem leaves_saveAndLoad (hne : ∀ n k, env.uuid n k ≠ []) {netType : NetType}
    {parameters : CreateWalletParameters} (hpasses : Passes lib netType parameters s₀.store)
    (h : KeepsSecrets s₀ s) :
    Leaves (saveAndLoad env lib netType parameters) s (CreateEffect env lib netType parameters s₀)
      fun _ _ => True := by
  refine Leaves.bind (leaves_saveWallet hne hpasses h) ?_
  rintro mWallet s₁ ⟨addresses, backup, hadds⟩
  exact (leaves_countAndLoad mWallet netType (KeepsSecrets.refl s₁)).mono
    (fun _ h' => .wallet _ _ _ (hadds.keeps h')) fun _ _ _ => trivial

/-- **What a creation leaves behind**, wherever it ends. -/
theorem createEffect_run (hne : ∀ n k, env.uuid n k ≠ []) (lib : Libraries) (netType : NetType)
    (parameters : CreateWalletParameters) (s : Session Databases) :
    CreateEffect env lib netType parameters s
      ((createWallet env lib netType parameters).run s).1 := by
  have h := KeepsSecrets.refl s
  have hleaves : Leaves (createWallet env lib netType parameters) s
      (CreateEffect env lib netType parameters s) fun _ _ => True := by
    unfold createWallet
    dsimp only
    split
    · rename_i hmatch
      refine Leaves.bind (Q := fun ms s' => KeepsSecrets s s' ∧
        ms = duplicates (mnemonicDigest lib parameters.mnemonic)
          (WalletType.ofText parameters.walletType) s.store.walletsDb)
        (Leaves.query (.nothing (h.step rfl)) fun _ hms =>
          ⟨h.step rfl, (Outcome.ok.inj hms).symm⟩) ?_
      rintro ms s₁ ⟨h₁, hms⟩
      split
      · rename_i hempty
        rw [hms, List.isEmpty_iff] at hempty
        exact leaves_saveAndLoad hne ⟨hmatch, hempty⟩ h₁
      · exact Leaves.lift (.nothing h₁) fun _ _ => trivial
    · exact Leaves.lift (.nothing h) fun _ _ => trivial
  exact hleaves.ends

end Creation

/-! ## Identifiers -/

theorem drawsOnce_failsAt (i : Nat) : (failsAt i).DrawsOnce where
  ne_nil _ _ h := by cases h
  injective n n' h := by
    have hlength := congrArg List.length h
    simp [failsAt] at hlength
    exact hlength

def Secrets.walletIds (secrets : Secrets) : List Text := secrets.wallet.map fun w => w.shared.id

instance (secrets : Secrets) (id : Text) : Decidable (id ∈ secrets.walletIds) :=
  inferInstanceAs (Decidable (id ∈ secrets.wallet.map fun w => w.shared.id))

/-- The identifiers of the wallets were drawn, each for one wallet. -/
structure DrawnIds (env : Surroundings) (s : Session Databases) : Prop where
  drawn : ∀ id ∈ s.store.secrets.walletIds, ∃ n < s.calls, id = env.uuid n 0
  nodup : s.store.secrets.walletIds.Nodup

namespace DrawnIds

variable {env : Surroundings} {s s' : Session Databases}

theorem sublist (h : DrawnIds env s) (hcalls : s.calls ≤ s'.calls)
    (hids : s'.store.secrets.walletIds.Sublist s.store.secrets.walletIds) : DrawnIds env s' where
  drawn id hid := by
    obtain ⟨n, hn, hdrawn⟩ := h.drawn id (hids.subset hid)
    exact ⟨n, Nat.lt_of_lt_of_le hn hcalls, hdrawn⟩
  nodup := h.nodup.sublist hids

section Added

variable {lib : Libraries} {netType : NetType} {parameters : CreateWalletParameters}
  {mWallet : Saved MWallet} {addresses : List (Saved MAddress)} {backup : Saved MMnemonic}

/-- The identifier of a new wallet was not drawn before. -/
theorem not_mem (hdraws : env.DrawsOnce) (h : DrawnIds env s)
    (hadds : AddsWallet env lib netType parameters s s' mWallet addresses backup) :
    mWallet.shared.id ∉ s.store.secrets.walletIds := by
  intro hmem
  obtain ⟨n, hn, hid⟩ := h.drawn _ hmem
  obtain ⟨n', hle, _, hid'⟩ := hadds.id
  have heq : n = n' := hdraws.injective _ _ (by rw [← hid, ← hid'])
  omega

theorem adds (hdraws : env.DrawsOnce) (h : DrawnIds env s)
    (hadds : AddsWallet env lib netType parameters s s' mWallet addresses backup) :
    DrawnIds env s' := by
  have hids : s'.store.secrets.walletIds = s.store.secrets.walletIds ++ [mWallet.shared.id] := by
    unfold Secrets.walletIds
    rw [hadds.secrets, List.map_append]
    rfl
  obtain ⟨n, hle, hlt, hid⟩ := hadds.id
  constructor
  · rw [hids, List.forall_mem_append]
    refine ⟨fun id hid => ?_, ?_⟩
    · obtain ⟨n', hn', hdrawn⟩ := h.drawn id hid
      exact ⟨n', Nat.lt_trans (Nat.lt_of_lt_of_le hn' hle) hlt, hdrawn⟩
    · simpa using ⟨n, hlt, hid⟩
  · rw [hids]
    refine List.nodup_append.mpr ⟨h.nodup, List.nodup_singleton _, ?_⟩
    intro id hid id' hid' heq
    rw [List.mem_singleton] at hid'
    subst heq hid'
    exact h.not_mem hdraws hadds hid

end Added

end DrawnIds

end Cashbox.Wallets
