import Cashbox.Wallets.CreatedEntirely

/-!
# Loading a wallet

`load` reads the tokens of a wallet with a statement for one row, chain by chain, and then the
shared token of that row. So it is only where a wallet has at most one token on each chain that
no token is lost.
-/

namespace Cashbox.Wallets

open Cashbox.Lib

/-- `Wallet::find_by_id` -/
def findById (env : Surroundings) (walletId : Text) (netType : NetType) :
    Method (Session Databases) WalletError (Option Wallet) := do
  let ws ← query env.fails .rbatisError fun db : Databases =>
    .ok (db.walletsDb.wallet.filter fun w => w.shared.id = walletId)
  match ws with
  | [w] => do
    let wallet ← loadWallet env w netType
    pure (some wallet)
  | _ => pure none

/-! ## No token is lost -/

section

variable {ρ τ : Type} (tables : ChainTables ρ τ) (mw : Saved MWallet) (netType : NetType)
  (db : Databases)

/-- The tokens that are stored for a wallet. -/
def ChainTables.storedTokens : List (Saved τ) :=
  tables.tokensOf mw.shared.id
    (tables.chain.chainType (WalletType.ofText mw.row.walletType) netType)
    (db.dataDb netType)

/-- The shared tokens under the identifier of a token. -/
def ChainTables.sharedUnder (token : Saved τ) : List (Saved MChainTokenShared) :=
  (tables.shared db.walletsDb).filter fun a => a.shared.id = tables.tokenSharedId token.row

/-- What is loaded are the tokens that are stored, each with its shared token. -/
structure LoadsTokens (loaded : LoadedChain τ) : Prop where
  tokens : (loaded.tokens.map Prod.fst).Perm (tables.storedTokens mw netType db)
  shared : ∀ t ∈ loaded.tokens, t.2 ∈ tables.sharedUnder db t.1

/-- There is at most one token, and what is wanted of its shared token is found. -/
def LoadsOne : Prop :=
  (tables.storedTokens mw netType db).length ≤ 1 ∧
    ∀ t ∈ tables.storedTokens mw netType db,
      ∃ a, tables.one (tables.sharedUnder db t) = .ok (some a)

end

/-- A wallet is loaded with all of its tokens. -/
def LosesNoToken (env : Surroundings) (mw : Saved MWallet) (netType : NetType)
    (s : Session Databases) : Prop :=
  ∃ wallet, ((loadWallet env mw netType).run s).2 = .ok wallet ∧
    LoadsTokens ethChain mw netType s.store wallet.ethChain ∧
    LoadsTokens eeeChain mw netType s.store wallet.eeeChain ∧
    LoadsTokens btcChain mw netType s.store wallet.btcChain

/-- On each chain there is at most one token, and its shared token is there, but not twice on
the chains that read it with a statement for one row. -/
structure OneTokenEach (mw : Saved MWallet) (netType : NetType) (db : Databases) : Prop where
  eth : (ethChain.storedTokens mw netType db).length ≤ 1 ∧
    ∀ t ∈ ethChain.storedTokens mw netType db, 0 < (ethChain.sharedUnder db t).length
  eee : (eeeChain.storedTokens mw netType db).length ≤ 1 ∧
    ∀ t ∈ eeeChain.storedTokens mw netType db, (eeeChain.sharedUnder db t).length = 1
  btc : (btcChain.storedTokens mw netType db).length ≤ 1 ∧
    ∀ t ∈ btcChain.storedTokens mw netType db, (btcChain.sharedUnder db t).length = 1

/-- The statements that load a wallet: two for each chain, and one for each token. -/
def loadStatements (mw : Saved MWallet) (netType : NetType) (db : Databases) : Nat :=
  (2 + (ethChain.storedTokens mw netType db).length) +
    ((2 + (eeeChain.storedTokens mw netType db).length) +
      (2 + (btcChain.storedTokens mw netType db).length))

/-- What `find_by_id` finds of a wallet that is stored once is what is loaded of it. -/
theorem run_findById {env : Surroundings} {walletId : Text} {mw : Saved MWallet}
    {netType : NetType} {s s' : Session Databases} {wallet : Wallet}
    (hmw : (s.store.walletsDb.wallet.filter fun w => w.shared.id = walletId) = [mw])
    (hfails : env.fails s.calls = false)
    (hload : (loadWallet env mw netType).run ⟨s.store, s.calls + 1⟩ = (s', .ok wallet)) :
    (findById env walletId netType).run s = (s', .ok (some wallet)) := by
  have hquery : (query env.fails WalletError.rbatisError fun db : Databases =>
      .ok (db.walletsDb.wallet.filter fun w => w.shared.id = walletId)).run s =
        (⟨s.store, s.calls + 1⟩, .ok [mw]) := by
    rw [run_query_of_not_fails hfails, hmw]
  exact (Method.run_bind_of_ok hquery).trans (Method.run_bind_of_ok hload)

/-! ## One chain -/

/-- How the tables are read for one row: one that is alone is found, and what is found was
there. -/
structure ChainTables.ReadsOne {ρ τ : Type} (tables : ChainTables ρ τ) : Prop where
  one_nil : ∀ {α : Type}, tables.one ([] : List α) = .ok none
  one_singleton : ∀ {α : Type} (row : α), tables.one [row] = .ok (some row)
  mem_of_one : ∀ {α : Type} {rows : List α} {row : α}, tables.one rows = .ok (some row) → row ∈ rows

theorem mem_of_fetchOne {α : Type} {rows : List α} {row : α}
    (h : fetchOne WalletError.rbatisError rows = .ok (some row)) : row ∈ rows := by
  rcases rows with _ | ⟨row', _ | ⟨row'', rows⟩⟩
  · cases h
  · cases h
    exact List.mem_singleton_self _
  · cases h

theorem fetchOne_eq_some_iff {α : Type} {rows : List α} :
    (∃ row, fetchOne WalletError.rbatisError rows = .ok (some row)) ↔ rows.length = 1 := by
  rcases rows with _ | ⟨row, _ | ⟨row', rows⟩⟩ <;> simp [fetchOne]

theorem readsOne_ethChain : ethChain.ReadsOne where
  one_nil := rfl
  one_singleton _ := rfl
  mem_of_one h := List.mem_of_head? (Outcome.ok.inj h)

theorem readsOne_eeeChain : eeeChain.ReadsOne where
  one_nil := rfl
  one_singleton _ := rfl
  mem_of_one := mem_of_fetchOne

theorem readsOne_btcChain : btcChain.ReadsOne where
  one_nil := rfl
  one_singleton _ := rfl
  mem_of_one := mem_of_fetchOne

section Chain

variable {ρ τ : Type} {tables : ChainTables ρ τ} {env : Surroundings} {mw : Saved MWallet}
  {netType : NetType} {db : Databases}

/-- A token is loaded by one statement. -/
theorem performs_loadToken {token : Saved τ} {a : Saved MChainTokenShared}
    (h : tables.one (tables.sharedUnder db token) = .ok (some a)) (calls : Nat) :
    Performs env.fails (loadToken env tables token) ⟨db, calls⟩ [db] (.ok (token, a)) := by
  have hquery : Performs env.fails
      (query env.fails WalletError.rbatisError fun db : Databases =>
        tables.one ((tables.shared db.walletsDb).filter fun a =>
          a.shared.id = tables.tokenSharedId token.row)) ⟨db, calls⟩ [db] (.ok (some a)) := by
    rw [← h]
    exact Performs.query ..
  exact hquery.bind ((Performs.lift (.ok a) _).bind (Performs.pure _ _))

/-- The statement for one token. -/
theorem performs_one {found : Option (Saved τ)}
    (h : tables.one (tables.storedTokens mw netType db) = .ok found) (calls : Nat) :
    Performs env.fails
      (query env.fails WalletError.rbatisError fun db : Databases =>
        tables.one (tables.tokensOf mw.shared.id
          (tables.chain.chainType (WalletType.ofText mw.row.walletType) netType)
          (db.dataDb netType))) ⟨db, calls⟩ [db] (.ok found) := by
  rw [← h]
  exact Performs.query ..

/-- A chain with at most one token is loaded with it. -/
theorem exists_performs_loadChain (env : Surroundings) (hreads : tables.ReadsOne)
    (h : LoadsOne tables mw netType db) (calls : Nat) :
    ∃ loaded, Performs env.fails (loadChain env tables mw netType) ⟨db, calls⟩
        (List.replicate (2 + (tables.storedTokens mw netType db).length) db) (.ok loaded) ∧
      LoadsTokens tables mw netType db loaded := by
  obtain ⟨hlength, hone⟩ := h
  have htoken := @performs_one ρ τ tables env mw netType db
  unfold loadChain
  dsimp only
  rcases hstored : tables.storedTokens mw netType db with _ | ⟨token, _ | ⟨token', rest⟩⟩
  · rw [hstored, hreads.one_nil] at htoken
    refine ⟨_, (Performs.read _ _ ⟨db, calls⟩).bind ((htoken rfl _).bind (Performs.pure _ _)), ?_,
      ?_⟩
    · rw [hstored]
      exact List.Perm.refl _
    · intro t ht
      cases ht
  · rw [hstored, hreads.one_singleton] at htoken
    obtain ⟨a, ha⟩ := hone token (by rw [hstored]; exact List.mem_singleton_self _)
    have hload : ∀ calls, Performs env.fails (loadTokens env tables (some token)) ⟨db, calls⟩ [db]
        (.ok [(token, a)]) := fun calls =>
      (performs_loadToken ha calls).bind (Performs.pure _ _)
    refine ⟨_, (Performs.read _ _ ⟨db, calls⟩).bind ((htoken rfl _).bind
      ((hload _).bind (Performs.pure _ _))), ?_, ?_⟩
    · rw [hstored]
      exact List.Perm.refl _
    · intro t ht
      obtain rfl := List.mem_singleton.mp ht
      exact hreads.mem_of_one ha
  · rw [hstored] at hlength
    simp at hlength

/-- What is loaded is at most one token. -/
theorem loadsOne_of_run (hreads : tables.ReadsOne) {calls : Nat} {s' : Session Databases}
    {loaded : LoadedChain τ}
    (hrun : (loadChain env tables mw netType).run ⟨db, calls⟩ = (s', .ok loaded))
    (hloads : LoadsTokens tables mw netType db loaded) : LoadsOne tables mw netType db := by
  unfold loadChain at hrun
  dsimp only at hrun
  obtain ⟨s₁, walletAddress, haddress, hrun⟩ := Method.run_bind_eq_ok.mp hrun
  obtain ⟨s₂, w, htoken, hrun⟩ := Method.run_bind_eq_ok.mp hrun
  obtain ⟨s₃, tokens, htokens, hrun⟩ := Method.run_bind_eq_ok.mp hrun
  cases hrun
  obtain ⟨-, rfl, -⟩ := (Performs.read _ _ _).of_ok haddress
  obtain ⟨hone, rfl, -⟩ := (Performs.query _ _ _).of_ok htoken
  have hlength := hloads.tokens.length_eq
  rw [List.length_map] at hlength
  cases w with
  | none =>
    cases htokens
    have hnil : tables.storedTokens mw netType db = [] := List.length_eq_zero_iff.mp hlength.symm
    refine ⟨by rw [hnil]; exact Nat.zero_le 1, fun t ht => ?_⟩
    rw [hnil] at ht
    cases ht
  | some token =>
    obtain ⟨s₄, t, ht, hpure⟩ := Method.run_bind_eq_ok.mp htokens
    cases hpure
    obtain ⟨s₅, found, hfound, hlift⟩ := Method.run_bind_eq_ok.mp ht
    obtain ⟨hshared, rfl, -⟩ := (Performs.query _ _ _).of_ok hfound
    obtain ⟨a, rfl⟩ : ∃ a, found = some a := by
      cases found with
      | none => cases hlift
      | some a => exact ⟨a, rfl⟩
    obtain ⟨token', htoken'⟩ := List.length_eq_one_iff.mp hlength.symm
    have hmem : token ∈ tables.storedTokens mw netType db := hreads.mem_of_one hone
    refine ⟨Nat.le_of_eq hlength.symm, fun t ht => ⟨a, ?_⟩⟩
    rw [htoken', List.mem_singleton] at hmem ht
    rw [ht, ← hmem]
    exact hshared

/-- A chain that is loaded with all of its tokens has at most one, and no statement failed. -/
theorem run_loadChain (hreads : tables.ReadsOne) {calls : Nat} {s' : Session Databases}
    {loaded : LoadedChain τ}
    (hrun : (loadChain env tables mw netType).run ⟨db, calls⟩ = (s', .ok loaded))
    (hloads : LoadsTokens tables mw netType db loaded) :
    LoadsOne tables mw netType db ∧
      s' = ⟨db, calls + (2 + (tables.storedTokens mw netType db).length)⟩ ∧
      ∀ i < 2 + (tables.storedTokens mw netType db).length, env.fails (calls + i) = false := by
  have hone := loadsOne_of_run hreads hrun hloads
  obtain ⟨loaded', hperforms, -⟩ := exists_performs_loadChain env hreads hone calls
  obtain ⟨-, hs', hfails⟩ := hperforms.of_ok hrun
  rw [endOf_replicate, List.length_replicate] at hs'
  rw [List.length_replicate] at hfails
  exact ⟨hone, hs', hfails⟩

end Chain

/-! ## The whole wallet -/

theorem loadsOne_ethChain_iff {mw : Saved MWallet} {netType : NetType} {db : Databases} :
    LoadsOne ethChain mw netType db ↔ (ethChain.storedTokens mw netType db).length ≤ 1 ∧
      ∀ t ∈ ethChain.storedTokens mw netType db, 0 < (ethChain.sharedUnder db t).length := by
  refine and_congr_right fun _ => forall₂_congr fun t _ => ?_
  show (∃ a, Outcome.ok (ethChain.sharedUnder db t).head? = .ok (some a)) ↔ _
  cases ethChain.sharedUnder db t <;> simp

theorem loadsOne_eeeChain_iff {mw : Saved MWallet} {netType : NetType} {db : Databases} :
    LoadsOne eeeChain mw netType db ↔ (eeeChain.storedTokens mw netType db).length ≤ 1 ∧
      ∀ t ∈ eeeChain.storedTokens mw netType db, (eeeChain.sharedUnder db t).length = 1 :=
  and_congr_right fun _ => forall₂_congr fun _ _ => fetchOne_eq_some_iff

theorem loadsOne_btcChain_iff {mw : Saved MWallet} {netType : NetType} {db : Databases} :
    LoadsOne btcChain mw netType db ↔ (btcChain.storedTokens mw netType db).length ≤ 1 ∧
      ∀ t ∈ btcChain.storedTokens mw netType db, (btcChain.sharedUnder db t).length = 1 :=
  and_congr_right fun _ => forall₂_congr fun _ _ => fetchOne_eq_some_iff

section Whole

variable {env : Surroundings} {mw : Saved MWallet} {netType : NetType} {s : Session Databases}

/-- A wallet that is loaded with all of its tokens has at most one on each chain. -/
theorem LosesNoToken.oneTokenEach (h : LosesNoToken env mw netType s) :
    OneTokenEach mw netType s.store ∧
      ∀ i < loadStatements mw netType s.store, env.fails (s.calls + i) = false := by
  obtain ⟨wallet, hok, heth, heee, hbtc⟩ := h
  obtain ⟨s', hrun⟩ : ∃ s', (loadWallet env mw netType).run s = (s', .ok wallet) :=
    ⟨_, Prod.ext rfl hok⟩
  unfold loadWallet at hrun
  obtain ⟨s₁, eth, hrunEth, hrun⟩ := Method.run_bind_eq_ok.mp hrun
  obtain ⟨s₂, eee, hrunEee, hrun⟩ := Method.run_bind_eq_ok.mp hrun
  obtain ⟨s₃, btc, hrunBtc, hrun⟩ := Method.run_bind_eq_ok.mp hrun
  cases hrun
  obtain ⟨honeEth, rfl, hfailsEth⟩ := run_loadChain readsOne_ethChain hrunEth heth
  obtain ⟨honeEee, rfl, hfailsEee⟩ := run_loadChain readsOne_eeeChain hrunEee heee
  obtain ⟨honeBtc, rfl, hfailsBtc⟩ := run_loadChain readsOne_btcChain hrunBtc hbtc
  refine ⟨⟨loadsOne_ethChain_iff.mp honeEth, loadsOne_eeeChain_iff.mp honeEee,
    loadsOne_btcChain_iff.mp honeBtc⟩, fun i hi => ?_⟩
  -- the statement is one of the first chain, of the second, or of the third
  unfold loadStatements at hi
  by_cases hlt : i < 2 + (ethChain.storedTokens mw netType s.store).length
  · exact hfailsEth i hlt
  · obtain ⟨j, rfl⟩ := Nat.exists_eq_add_of_le (Nat.le_of_not_lt hlt)
    rw [← Nat.add_assoc]
    by_cases hlt' : j < 2 + (eeeChain.storedTokens mw netType s.store).length
    · exact hfailsEee j hlt'
    · obtain ⟨k, rfl⟩ := Nat.exists_eq_add_of_le (Nat.le_of_not_lt hlt')
      rw [← Nat.add_assoc]
      exact hfailsBtc k (by omega)

/-- A wallet with at most one token on each chain is loaded with all of them. -/
theorem OneTokenEach.losesNoToken (hone : OneTokenEach mw netType s.store)
    (hfails : ∀ i < loadStatements mw netType s.store, env.fails (s.calls + i) = false) :
    LosesNoToken env mw netType s := by
  obtain ⟨eth, heth, hloadsEth⟩ := exists_performs_loadChain env readsOne_ethChain
    (loadsOne_ethChain_iff.mpr hone.eth) s.calls
  obtain ⟨eee, heee, hloadsEee⟩ := exists_performs_loadChain env readsOne_eeeChain
    (loadsOne_eeeChain_iff.mpr hone.eee)
    (s.calls + (2 + (ethChain.storedTokens mw netType s.store).length))
  obtain ⟨btc, hbtc, hloadsBtc⟩ := exists_performs_loadChain env readsOne_btcChain
    (loadsOne_btcChain_iff.mpr hone.btc)
    (s.calls + (2 + (ethChain.storedTokens mw netType s.store).length) +
      (2 + (eeeChain.storedTokens mw netType s.store).length))
  have hload : Performs env.fails (loadWallet env mw netType) s
      (List.replicate (loadStatements mw netType s.store) s.store) (.ok ⟨mw, eth, eee, btc⟩) :=
    heth.bind_replicate (heee.bind_replicate
      (hbtc.map (Wallet.mk mw eth eee)))
  have hrun := hload.ends fun i hi => hfails i (by rwa [List.length_replicate] at hi)
  exact ⟨⟨mw, eth, eee, btc⟩, by rw [hrun], hloadsEth, hloadsEee, hloadsBtc⟩

end Whole

/-- **Loading loses no token** exactly if the wallet has at most one token on each chain, with
its shared token, and no statement fails. -/
theorem losesNoToken_iff (env : Surroundings) (mw : Saved MWallet) (netType : NetType)
    (s : Session Databases) :
    LosesNoToken env mw netType s ↔
      OneTokenEach mw netType s.store ∧
        ∀ i < loadStatements mw netType s.store, env.fails (s.calls + i) = false :=
  ⟨LosesNoToken.oneTokenEach, fun ⟨hone, hfails⟩ => hone.losesNoToken hfails⟩

/-! ### Two tokens -/

/-- Two tokens that a new wallet has on one chain. -/
def twoDefaultTokens : Databases where
  walletsDb :=
    ⟨[], [], [], [⟨⟨['e'], 0, 0⟩, default⟩, ⟨⟨['f'], 0, 0⟩, default⟩], [], [],
      [⟨⟨['d'], 0, 0⟩, ⟨['e'], NetType.main.toString, 0, 1⟩, []⟩,
        ⟨⟨['g'], 0, 0⟩, ⟨['f'], NetType.main.toString, 1, 1⟩, []⟩], [], [], [], [], [], []⟩
  mnemonicDb := []
  dataDb _ := ⟨[], [], [], [], [], [], []⟩

/-- The databases after a wallet was created. -/
def twoTokens : Session Databases :=
  ((createWallet (failsAt 100) oneAddress .main ⟨['n'], ['p'], ['m'], "Normal".toList⟩).run
    ⟨twoDefaultTokens, 0⟩).1

/-- Of the two tokens of a new wallet one is lost. -/
theorem not_losesNoToken_twoTokens :
    ∃ mw ∈ twoTokens.store.walletsDb.wallet, ¬ LosesNoToken (failsAt 100) mw .main twoTokens := by
  refine ⟨twoTokens.store.walletsDb.wallet.head (by decide), List.head_mem _, ?_⟩
  intro h
  have hlength := h.oneTokenEach.1.eth.1
  revert hlength
  decide

end Cashbox.Wallets
