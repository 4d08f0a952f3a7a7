import Cashbox.Wallets.CreateEffect
import Cashbox.Wallets.LoadWallet

/-!
# The rows of the addresses

A creation derives an address on each chain of each network that the wallet is on, and saves
what it derived together with the chain type. It saves none unless all of them were derived.
-/

namespace Cashbox.Wallets

open Cashbox.Lib

/-! ## Derived rows -/

/-- The row is what a chain derives from the mnemonic. -/
def DerivedOn (lib : Libraries) (mn : Text) (chain : Chain) (a : MAddress) : Prop :=
  ∃ (walletType : WalletType) (netType : NetType) (addr : MAddress),
    chain.generateAddress lib mn walletType netType = .ok addr ∧ a.address = addr.address ∧
      a.chainType = (chain.chainType walletType netType).toString

/-- A chain derives the row from the mnemonic, and every chain derives some row. -/
structure RowOf (lib : Libraries) (mn : Text) (a : Saved MAddress) : Prop where
  derived : ∃ chain, DerivedOn lib mn chain a.row
  all : ∀ chain : Chain, ∃ walletType netType addr,
    chain.generateAddress lib mn walletType netType = .ok addr

/-- The addresses are those that were there, and rows of the mnemonic. -/
def AddsRows (lib : Libraries) (mn : Text) (old new : List (Saved MAddress)) : Prop :=
  ∀ a ∈ new, a ∈ old ∨ RowOf lib mn a

theorem AddsRows.refl (lib : Libraries) (mn : Text) (rows : List (Saved MAddress)) :
    AddsRows lib mn rows rows := fun _ => .inl

theorem chainType_of_generateAddress {lib : Libraries} {chain : Chain} {mn : Text}
    {walletType : WalletType} {netType : NetType} {addr : MAddress}
    (h : chain.generateAddress lib mn walletType netType = .ok addr) :
    addr.chainType = (chain.chainType walletType netType).toString := by
  cases chain with
  | eth =>
    obtain ⟨_, _, haddr⟩ := Outcome.bind_eq_ok.mp h
    cases haddr
    rfl
  | eee =>
    obtain ⟨_, _, haddr⟩ := Outcome.bind_eq_ok.mp h
    cases haddr
    rfl
  | btc =>
    obtain ⟨_, _, haddr⟩ := Outcome.bind_eq_ok.mp h
    cases haddr
    rfl

/-! ## Creations -/

section Creation

variable {env : Surroundings} {lib : Libraries} {mn : Text} {s₀ s : Session Databases}

/-- The addresses of the store. -/
abbrev addressRows (s : Session Databases) : List (Saved MAddress) := s.store.walletsDb.address

theorem KeepsSecrets.addsRows (h : KeepsSecrets s₀ s) :
    AddsRows lib mn (addressRows s₀) (addressRows s) := by
  intro a ha
  have hrows : addressRows s = addressRows s₀ := congrArg Secrets.address h.secrets
  exact .inl (hrows ▸ ha)

/-- What the loop over the chains derives. -/
structure Generated (lib : Libraries) (mn : Text) (chains : List Chain)
    (addresses : List (Saved MAddress)) : Prop where
  derived : ∀ a ∈ addresses, ∃ chain, DerivedOn lib mn chain a.row
  all : ∀ chain ∈ chains, ∃ walletType netType addr,
    chain.generateAddress lib mn walletType netType = .ok addr

theorem leaves_generateAddresses_rows (wallet : Saved MWallet) (netType : NetType)
    (chains : List Chain) (h : KeepsSecrets s₀ s) :
    Leaves (generateAddresses env lib wallet mn netType chains) s (KeepsSecrets s₀)
      fun addresses s' => KeepsSecrets s₀ s' ∧ Generated lib mn chains addresses := by
  induction chains generalizing s with
  | nil => exact Leaves.pure h ⟨h, fun a ha => (nomatch ha), fun chain hchain => (nomatch hchain)⟩
  | cons chain chains ih =>
    unfold generateAddresses
    refine Leaves.bind (Q := fun addr s' => KeepsSecrets s₀ s' ∧
      chain.generateAddress lib mn (WalletType.ofText wallet.row.walletType) netType = .ok addr)
      (Leaves.lift h fun addr haddr => ⟨h, haddr⟩) ?_
    rintro addr s₁ ⟨h₁, haddr⟩
    refine Leaves.get_bind (Leaves.bind (leaves_generateDefaultToken chain wallet _ netType h₁) ?_)
    intro _ s₂ h₂
    refine Leaves.bind (ih h₂) ?_
    rintro addresses s₃ ⟨h₃, hgenerated⟩
    have htype := chainType_of_generateAddress haddr
    refine Leaves.pure h₃ ⟨h₃, ?_, ?_⟩
    · intro a ha
      rcases List.mem_cons.mp ha with rfl | ha
      · exact ⟨chain, _, netType, addr, haddr, rfl, htype⟩
      · exact hgenerated.derived a ha
    · intro chain' hchain'
      rcases List.mem_cons.mp hchain' with rfl | hchain'
      · exact ⟨_, netType, addr, haddr⟩
      · exact hgenerated.all chain' hchain'

/-- With all of the chains, what is derived are rows of the mnemonic. -/
theorem Generated.rowOf {addresses : List (Saved MAddress)}
    (h : Generated lib mn Chain.chains addresses) : ∀ a ∈ addresses, RowOf lib mn a := by
  intro a ha
  refine ⟨h.derived a ha, fun chain => h.all chain ?_⟩
  cases chain <;> decide

theorem leaves_generateAddressToken_rows (mWallet : Saved MWallet) (netType : NetType)
    (h : KeepsSecrets s₀ s) :
    Leaves (generateAddressToken env lib mWallet mn netType) s (KeepsSecrets s₀)
      fun result s' => KeepsSecrets s₀ s' ∧ ∀ a ∈ result.2, RowOf lib mn a := by
  unfold generateAddressToken
  refine Leaves.get_bind (Leaves.bind (leaves_generateAddresses_rows _ netType Chain.chains h) ?_)
  rintro addresses s₁ ⟨h₁, hgenerated⟩
  exact Leaves.pure h₁ ⟨h₁, hgenerated.rowOf⟩

/-- To save them does not change the rows. -/
theorem AddsRows.saveBatch {old rows addresses : List (Saved MAddress)}
    (h : AddsRows lib mn old rows) (haddresses : ∀ a ∈ addresses, RowOf lib mn a) (n : Nat) :
    AddsRows lib mn old (rows ++ Wallets.saveBatch env n addresses) := by
  intro a ha
  rcases List.mem_append.mp ha with ha | ha
  · exact h a ha
  · obtain ⟨k, hk, rfl⟩ := List.mem_mapIdx.mp ha
    obtain ⟨hderived, hall⟩ := haddresses addresses[k] (List.getElem_mem hk)
    exact .inr ⟨hderived, hall⟩

theorem leaves_saveAddresses_rows {walletType : WalletType} (netTypes : List NetType)
    {mWallet : Saved MWallet} {tx : WalletsDb} (h : KeepsSecrets s₀ s)
    (htx : AddsRows lib mn (addressRows s₀) tx.address) :
    Leaves (saveAddresses env lib walletType mn netTypes mWallet tx) s (KeepsSecrets s₀)
      fun result s' => KeepsSecrets s₀ s' ∧
        AddsRows lib mn (addressRows s₀) result.2.address := by
  induction netTypes generalizing s mWallet tx with
  | nil => exact Leaves.pure h ⟨h, htx⟩
  | cons netType netTypes ih =>
    unfold saveAddresses
    by_cases hmatch : walletType.checkChainTypeMatch netType = true
    · rw [if_pos hmatch]
      refine Leaves.bind (leaves_generateAddressToken_rows mWallet netType h) ?_
      rintro ⟨mWallet', addresses⟩ s₁ ⟨h₁, haddresses⟩
      refine Leaves.bind (Q := fun tx s' => KeepsSecrets s₀ s' ∧
        AddsRows lib mn (addressRows s₀) tx.address) (Leaves.inTx (h₁.step rfl) ?_) ?_
      · exact ⟨h₁.step rfl, htx.saveBatch haddresses _⟩
      · rintro tx' s₂ ⟨h₂, htx₂⟩
        exact ih h₂ htx₂
    · rw [if_neg hmatch]
      exact ih h htx

/-- The statements that write: before the commit, no address. -/
theorem leaves_saveWallet_rows {walletType : WalletType} (mWallet : Saved MWallet) :
    Leaves (saveWallet env lib walletType mn mWallet) s
      (fun s' => AddsRows lib mn (addressRows s) (addressRows s'))
      fun _ s' => AddsRows lib mn (addressRows s) (addressRows s') := by
  have h := KeepsSecrets.refl s
  unfold saveWallet
  refine Leaves.bind (Q := fun tx s' => KeepsSecrets s s' ∧
    AddsRows lib mn (addressRows s) tx.address)
    (Leaves.beginTx (AddsRows.refl _ _ _) ⟨h.step rfl, AddsRows.refl _ _ _⟩) ?_
  rintro tx s₁ ⟨h₁, htx⟩
  refine Leaves.bind ((leaves_saveAddresses_rows NetType.iter h₁ htx).mono
    (fun _ => KeepsSecrets.addsRows) fun _ _ hQ => hQ) ?_
  rintro ⟨mWallet, tx⟩ s₂ ⟨h₂, htx⟩
  refine Leaves.bind (Q := fun result s' => KeepsSecrets s s' ∧
    AddsRows lib mn (addressRows s) result.2.address)
    (Leaves.inTx h₂.addsRows ⟨h₂.step rfl, htx⟩) ?_
  rintro ⟨mWallet, tx⟩ s₃ ⟨h₃, htx⟩
  -- the backup is in another database
  refine Leaves.bind (Q := fun _ s' => AddsRows lib mn (addressRows s) (addressRows s'))
    (Leaves.execute h₃.addsRows h₃.addsRows h₃.addsRows) ?_
  intro _ s₄ h₄
  refine Leaves.bind (Q := fun _ s' => AddsRows lib mn (addressRows s) (addressRows s'))
    (Leaves.commitTx h₄ htx htx) ?_
  exact fun _ _ h₅ => Leaves.pure h₅ h₅

/-- **The rows of a creation**, wherever it ends, are those that were there and rows of the
mnemonic. -/
theorem addsRows_run (env : Surroundings) (lib : Libraries) (netType : NetType)
    (parameters : CreateWalletParameters) (s : Session Databases) :
    AddsRows lib parameters.mnemonic (addressRows s)
      (addressRows ((createWallet env lib netType parameters).run s).1) := by
  have hkeeps : ∀ {s₁ s' : Session Databases},
      AddsRows lib parameters.mnemonic (addressRows s) (addressRows s₁) → KeepsSecrets s₁ s' →
        AddsRows lib parameters.mnemonic (addressRows s) (addressRows s') := by
    intro s₁ s' hrows h' a ha
    have heq : addressRows s' = addressRows s₁ := congrArg Secrets.address h'.secrets
    exact hrows a (heq ▸ ha)
  have hleaves : Leaves (createWallet env lib netType parameters) s
      (fun s' => AddsRows lib parameters.mnemonic (addressRows s) (addressRows s'))
      fun _ _ => True := by
    unfold createWallet
    dsimp only
    split
    · refine Leaves.bind (Q := fun _ s' => s'.store = s.store)
        (Leaves.query (AddsRows.refl _ _ _) fun _ _ => rfl) fun ms s₁ h₁ => ?_
      have hrows₁ : AddsRows lib parameters.mnemonic (addressRows s) (addressRows s₁) := by
        rw [addressRows, addressRows, h₁]
        exact AddsRows.refl _ _ _
      split
      · have hsave := @leaves_saveWallet_rows env lib parameters.mnemonic s₁
          (WalletType.ofText parameters.walletType) ⟨default, parameters.mWallet lib⟩
        rw [addressRows, h₁] at hsave
        refine Leaves.bind hsave fun mWallet s₂ h₂ => ?_
        exact (leaves_countAndLoad mWallet netType (KeepsSecrets.refl s₂)).mono
          (fun _ => hkeeps h₂) fun _ _ _ => trivial
      · exact Leaves.lift hrows₁ fun _ _ => trivial
    · exact Leaves.lift (AddsRows.refl _ _ _) fun _ _ => trivial
  exact hleaves.ends

end Creation

end Cashbox.Wallets
