import Cashbox.Wallets.AddressRows

/-!
# The wallet of an address

`find_by_address` takes the first row with an address, whatever chain it is on, and loads the
wallet of the row on the network that the chain type of the row belongs to.
-/

namespace Cashbox.Wallets

open Cashbox.Lib

/-! ## The functions -/

/-- `NetType::from_chain_type` -/
def NetType.fromChainType (chainType : Text) : NetType :=
  if "PrivateTest".toList <:+: chainType then privateTest
  else if "Private".toList <:+: chainType then private'
  else if "Test".toList <:+: chainType then test
  else main

example : [Chain.eth, .eee, .btc].map (fun chain => NetType.iter.map fun netType =>
    NetType.fromChainType (chain.chainType .test netType).toString) =
      List.replicate 3 [.test, .test, .private', .privateTest] := by decide

/-- The rows with an address, in the order of the table. -/
def WalletsDb.addressesUnder (address : Text) (db : WalletsDb) : List (Saved MAddress) :=
  db.address.filter fun a => a.row.address = address

/-- `Wallet::find_by_address` -/
def findByAddress (env : Surroundings) (address : Text) :
    Method (Session Databases) WalletError (Option Wallet) := do
  let mAddress ← query env.fails .rbatisError fun db : Databases =>
    .ok (db.walletsDb.addressesUnder address)
  match mAddress with
  | [] =>
    Method.lift (.err (.custom ("wallet address " ++ String.ofList address ++ " is not exist!")))
  | a :: _ => findById env a.row.walletId (NetType.fromChainType a.row.chainType)

/-! ## What is found -/

section

variable {ρ τ : Type} (tables : ChainTables ρ τ) (mw : Saved MWallet) (netType : NetType)
  (db : Databases)

/-- There are not several tokens where one is read, and the shared token of the one that is read
is there. -/
def ChainTables.Loads : Prop :=
  ∃ found, tables.one (tables.storedTokens mw netType db) = .ok found ∧
    ∀ token, found = some token → ∃ a, tables.one (tables.sharedUnder db token) = .ok (some a)

/-- A wallet can be loaded. -/
def Loads : Prop :=
  ethChain.Loads mw netType db ∧ eeeChain.Loads mw netType db ∧ btcChain.Loads mw netType db

end

/-! ## Loading -/

section Loading

variable {ρ τ : Type} {env : Surroundings} {tables : ChainTables ρ τ} {mw : Saved MWallet}
  {netType : NetType} {db : Databases}

/-- What is made of the rows that are found is no panic. -/
def ChainTables.NoPanic (tables : ChainTables ρ τ) : Prop :=
  ∀ {α : Type} (rows : List α) (why : Panic), tables.one rows ≠ .panic why

theorem noPanic_ethChain : ethChain.NoPanic := fun _ _ h => nomatch h

theorem noPanic_eeeChain : eeeChain.NoPanic := fetchOne_ne_panic WalletError.rbatisError

theorem noPanic_btcChain : btcChain.NoPanic := fetchOne_ne_panic WalletError.rbatisError

/-- A query for one row. -/
theorem readsIf_one {α : Type} (hone : tables.NoPanic) (read : Databases → List α) :
    ReadsIf env.fails (query env.fails WalletError.rbatisError fun db => tables.one (read db)) db
      (∃ found, tables.one (read db) = .ok found)
      fun found => tables.one (read db) = .ok found := by
  apply ReadsIf.query
  cases hread : tables.one (read db) with
  | ok found => exact .inl ⟨found, rfl, ⟨found, rfl⟩, rfl⟩
  | err e => exact .inr ⟨e, rfl, fun ⟨_, h⟩ => nomatch h⟩
  | panic why => exact absurd hread (hone _ why)

/-- A token is loaded if its shared token is found. -/
theorem readsIf_loadToken (hone : tables.NoPanic) (token : Saved τ) :
    ReadsIf env.fails (loadToken env tables token) db
      (∃ a, tables.one (tables.sharedUnder db token) = .ok (some a)) fun _ => True := by
  have hshared := @readsIf_one ρ τ env tables db (Saved MChainTokenShared) hone fun db =>
    (tables.shared db.walletsDb).filter fun a => a.shared.id = tables.tokenSharedId token.row
  have hload : ReadsIf env.fails (loadToken env tables token) db
      ((∃ found, tables.one (tables.sharedUnder db token) = .ok found) ∧
        ∃ a, tables.one (tables.sharedUnder db token) = .ok (some a)) fun _ => True := by
    apply hshared.bind
    intro found _ hfound
    have hfound : tables.one (tables.sharedUnder db token) = .ok found := hfound
    apply ReadsIf.map (fun a => (token, a)) _ fun _ hq => hq
    apply ReadsIf.lift
    rw [hfound]
    cases found with
    | none => exact .inr ⟨_, rfl, fun ⟨a, ha⟩ => nomatch ha⟩
    | some a => exact .inl ⟨a, rfl, ⟨a, rfl⟩, trivial⟩
  exact hload.mono (and_iff_right_of_imp fun ⟨a, ha⟩ => ⟨some a, ha⟩) fun _ hq => hq

theorem readsIf_loadTokens (hone : tables.NoPanic) {found : Option (Saved τ)}
    (hfound : tables.one (tables.storedTokens mw netType db) = .ok found) :
    ReadsIf env.fails (loadTokens env tables found) db (tables.Loads mw netType db)
      fun _ => True := by
  cases found with
  | none => exact ReadsIf.pure ⟨none, hfound, fun _ h => (nomatch h)⟩ trivial
  | some token =>
    have htoken : ReadsIf env.fails (loadTokens env tables (some token)) db
        (∃ a, tables.one (tables.sharedUnder db token) = .ok (some a)) fun _ => True :=
      (readsIf_loadToken hone token).map _ fun _ hq => hq
    refine htoken.mono ⟨fun ha => ⟨some token, hfound, fun _ h => ?_⟩, ?_⟩ fun _ hq => hq
    · obtain rfl := Option.some.inj h
      exact ha
    · rintro ⟨found, hfound', hshared⟩
      obtain rfl := Outcome.ok.inj (hfound.symm.trans hfound')
      exact hshared token rfl

/-- A chain is loaded if what is read on it is found. -/
theorem readsIf_loadChain (hone : tables.NoPanic) :
    ReadsIf env.fails (loadChain env tables mw netType) db (tables.Loads mw netType db)
      fun _ => True := by
  have hstored := @readsIf_one ρ τ env tables db (Saved τ) hone fun db =>
    tables.tokensOf mw.shared.id
      (tables.chain.chainType (WalletType.ofText mw.row.walletType) netType) (db.dataDb netType)
  have hload : ReadsIf env.fails (loadChain env tables mw netType) db
      (True ∧ (∃ found, tables.one (tables.storedTokens mw netType db) = .ok found) ∧
        tables.Loads mw netType db) fun _ => True := by
    apply (ReadsIf.read _ _).bind
    intro walletAddress _ _
    apply hstored.bind
    intro found _ hfound
    exact (readsIf_loadTokens hone hfound).map _ fun _ hq => hq
  refine hload.mono ⟨fun h => h.2.2, fun h => ⟨trivial, ?_, h⟩⟩ fun _ hq => hq
  obtain ⟨found, hfound, -⟩ := h
  exact ⟨found, hfound⟩

theorem readsIf_loadWallet :
    ReadsIf env.fails (loadWallet env mw netType) db (Loads mw netType db) fun w => w.m = mw := by
  apply (readsIf_loadChain noPanic_ethChain).bind
  intro eth _ _
  apply (readsIf_loadChain noPanic_eeeChain).bind
  intro eee _ _
  exact (readsIf_loadChain noPanic_btcChain).map (Wallet.mk mw eth eee) fun _ _ => rfl

/-- A wallet that is stored once is found by its identifier. -/
theorem readsIf_findById {walletId : Text}
    (hmw : (db.walletsDb.wallet.filter fun w => w.shared.id = walletId) = [mw]) :
    ReadsIf env.fails (findById env walletId netType) db (Loads mw netType db)
      fun found => ∃ w, found = some w ∧ w.m = mw := by
  have hfind : ReadsIf env.fails (findById env walletId netType) db
      (True ∧ Loads mw netType db) fun found => ∃ w, found = some w ∧ w.m = mw := by
    apply (ReadsIf.read _ _).bind
    rintro ws _ rfl
    rw [hmw]
    exact readsIf_loadWallet.map some fun w hw => ⟨w, rfl, hw⟩
  exact hfind.mono (iff_of_eq (true_and _)) fun _ hq => hq

end Loading

end Cashbox.Wallets
