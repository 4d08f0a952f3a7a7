import Cashbox.Wallets.CreateWallet

/-!
# A wallet is created entirely or not at all

The plan of a creation is read off what is known before it starts: the wallets, the settings
and the default tokens that are there, and the addresses that can be derived. It tells which
commit is the first that leaves something behind, and whether a creation in which no operation
fails comes to its end. `create_wallet` follows this plan, so that it decides when a wallet is
created entirely or not at all.
-/

namespace Cashbox.Wallets

open Cashbox.Lib

/-! ## The plan of a creation -/

section Plans

variable {ρ τ : Type} (tables : ChainTables ρ τ)

/-- The shared tokens of the default tokens of a network. -/
def ChainTables.defaultIds (netType : NetType) (db : WalletsDb) :
    Outcome WalletError (List Text) := do
  let rows ← tables.list (tables.defaultsOf netType db)
  pure (rows.map fun t => (tables.base t.row).chainTokenSharedId)

def ChainTables.listPlan (netType : NetType) (db : WalletsDb) : Plan (List (Saved ρ)) := do
  let _ ← Plan.query (tables.sharedOf netType db)
  Plan.query (tables.list (tables.defaultsOf netType db))

/-- The default tokens are committed, which is nothing if there are none. -/
def ChainTables.tokensPlan (netType : NetType) (db : WalletsDb) : Plan Unit := do
  Plan.quiet
  let rows ← tables.listPlan netType db
  Plan.quiet
  Plan.quiet
  Plan.adds (!rows.isEmpty)

def ChainTables.loadTokenPlan (id : Text) (db : WalletsDb) : Plan (Saved MChainTokenShared) := do
  let shared ← Plan.query (tables.one ((tables.shared db).filter fun a => a.shared.id = id))
  Plan.lift (Outcome.okOr () shared)

def ChainTables.loadTokensPlan (db : WalletsDb) : Option Text → Plan Unit
  | none => pure ()
  | some id => do
    let _ ← tables.loadTokenPlan id db
    pure ()

/-- A chain is loaded: one of the default tokens is its token. -/
def ChainTables.loadPlan (netType : NetType) (db : WalletsDb) : Plan Unit := do
  Plan.quiet
  let id ← Plan.query (tables.defaultIds netType db >>= tables.one)
  tables.loadTokensPlan db id

end Plans

def Chain.tokensPlan (chain : Chain) (netType : NetType) (db : WalletsDb) : Plan Unit :=
  match chain with
  | eth => ethChain.tokensPlan netType db
  | eee => eeeChain.tokensPlan netType db
  | btc => btcChain.tokensPlan netType db

def addressesPlan (lib : Libraries) (mn : Text) (walletType : WalletType) (netType : NetType)
    (db : WalletsDb) : List Chain → Plan Unit
  | [] => pure ()
  | chain :: rest => do
    let _ ← Plan.lift (chain.generateAddress lib mn walletType netType)
    chain.tokensPlan netType db
    addressesPlan lib mn walletType netType db rest

def networksPlan (lib : Libraries) (mn : Text) (walletType : WalletType) (db : WalletsDb) :
    List NetType → Plan Unit
  | [] => pure ()
  | netType :: rest =>
    if walletType.checkChainTypeMatch netType then do
      addressesPlan lib mn walletType netType db Chain.chains
      Plan.quiet
      networksPlan lib mn walletType db rest
    else
      networksPlan lib mn walletType db rest

/-- The mnemonic is saved in any case. -/
def saveWalletPlan (lib : Libraries) (mn : Text) (walletType : WalletType) (db : WalletsDb) :
    Plan Unit := do
  Plan.quiet
  networksPlan lib mn walletType db NetType.iter
  Plan.quiet
  Plan.adds true
  Plan.quiet

/-- Where one row of a setting is wanted. -/
def settingOf (key : SettingType) (db : WalletsDb) :
    Outcome WalletError (Option (Saved MSetting)) :=
  fetchOne .rbatisError (db.setting.filter fun m => m.row.keyStr = key.toString)

def currentWalletPlan (db : WalletsDb) : Plan Unit := do
  let _ ← Plan.query (settingOf .currentWallet db)
  let _ ← Plan.query (settingOf .currentChain db)
  Plan.quiet
  Plan.quiet
  Plan.quiet
  Plan.quiet

def firstWalletPlan (walletType : WalletType) (db : WalletsDb) : Plan Unit :=
  if (db.wallet.filter fun w => w.row.walletType = walletType.toString).isEmpty then
    currentWalletPlan db
  else
    pure ()

def loadWalletPlan (netType : NetType) (db : WalletsDb) : Plan Unit := do
  ethChain.loadPlan netType db
  eeeChain.loadPlan netType db
  btcChain.loadPlan netType db

def creationPlan (lib : Libraries) (netType : NetType) (parameters : CreateWalletParameters)
    (db : WalletsDb) : Plan Unit :=
  let walletType := WalletType.ofText parameters.walletType
  if walletType.checkChainTypeMatch netType then do
    Plan.quiet
    if (duplicates (mnemonicDigest lib parameters.mnemonic) walletType db).isEmpty then do
      saveWalletPlan lib parameters.mnemonic walletType db
      Plan.quiet
      firstWalletPlan walletType db
      loadWalletPlan netType db
    else
      Plan.lift (.err () : Outcome Unit Unit)
  else
    Plan.lift (.err () : Outcome Unit Unit)

/-! ## Rows -/

/-- The tokens in the database of a network. -/
def DataDb.rows (db : DataDb) : Nat :=
  db.ethChainToken.length + db.eeeChainToken.length + db.btcChainToken.length

/-- The rows that a creation adds before the wallet itself. -/
def Databases.rows (db : Databases) : Nat :=
  db.mnemonicDb.length + (db.dataDb .main).rows + (db.dataDb .test).rows +
    (db.dataDb .private').rows + (db.dataDb .privateTest).rows

theorem rows_updateDataDb (db : Databases) (netType : NetType) (d : DataDb) :
    (db.updateDataDb netType fun _ => d).rows + (db.dataDb netType).rows = db.rows + d.rows := by
  cases netType <;> simp [Databases.rows, Databases.updateDataDb] <;> omega

theorem updateDataDb_self (db : Databases) (netType : NetType) :
    (db.updateDataDb netType fun _ => db.dataDb netType) = db := by
  have hdata : (fun n => if n = netType then db.dataDb netType else db.dataDb n) = db.dataDb := by
    funext n
    split
    · next h => rw [h]
    · rfl
  show { db with dataDb := fun n => if n = netType then db.dataDb netType else db.dataDb n } = db
  rw [hdata]

/-- The shared tokens of the tokens of a wallet, in order. -/
def ChainTables.tokenIds {ρ τ : Type} (tables : ChainTables ρ τ) (walletId : Text)
    (chainType : ChainType) (db : DataDb) : List Text :=
  (tables.tokensOf walletId chainType db).map fun t => tables.tokenSharedId t.row

def Chain.tokenIds (chain : Chain) (walletId : Text) (chainType : ChainType) (db : DataDb) :
    List Text :=
  match chain with
  | eth => ethChain.tokenIds walletId chainType db
  | eee => eeeChain.tokenIds walletId chainType db
  | btc => btcChain.tokenIds walletId chainType db

def Chain.defaultIds (chain : Chain) (netType : NetType) (db : WalletsDb) :
    Outcome WalletError (List Text) :=
  match chain with
  | eth => ethChain.defaultIds netType db
  | eee => eeeChain.defaultIds netType db
  | btc => btcChain.defaultIds netType db

/-! ## The tables of a chain -/

/-- The tables are those of a database, and a new token has the columns it is selected by. -/
structure ChainTables.Lawful {ρ τ : Type} (tables : ChainTables ρ τ) : Prop where
  tokens_setTokens : ∀ rows addresses (db : DataDb),
    tables.tokens { tables.setTokens rows db with tokenAddress := addresses } = rows
  setTokens_tokens : ∀ db, tables.setTokens (tables.tokens db) db = db
  tokenAddress_setTokens : ∀ rows db, (tables.setTokens rows db).tokenAddress = db.tokenAddress
  rows_setTokens : ∀ rows addresses (db : DataDb),
    DataDb.rows { tables.setTokens rows db with tokenAddress := addresses } +
      (tables.tokens db).length = db.rows + rows.length
  token_sharedId : ∀ t shared walletId chainType,
    tables.tokenSharedId (tables.token t shared walletId chainType) =
      (tables.base t).chainTokenSharedId
  token_walletId : ∀ t shared walletId chainType,
    tables.tokenWalletId (tables.token t shared walletId chainType) = walletId
  token_chainType : ∀ t shared walletId chainType,
    tables.tokenChainType (tables.token t shared walletId chainType) = chainType.toString
  one_map : ∀ {α β : Type} (f : α → β) (rows : List α),
    tables.one (rows.map f) = tables.one rows >>= fun row => .ok (row.map f)
  tokenIds_chain : ∀ walletId chainType db,
    tables.chain.tokenIds walletId chainType db = tables.tokenIds walletId chainType db
  defaultIds_chain : ∀ netType db,
    tables.chain.defaultIds netType db = tables.defaultIds netType db
  /-- The tables of the other chains are not touched. -/
  tokenIds_of_ne : ∀ chain, chain ≠ tables.chain → ∀ rows addresses walletId chainType db,
    chain.tokenIds walletId chainType
        { tables.setTokens rows db with tokenAddress := addresses } =
      chain.tokenIds walletId chainType db

theorem fetchOne_map {α β : Type} (f : α → β) (rows : List α) :
    fetchOne WalletError.rbatisError (rows.map f) =
      fetchOne WalletError.rbatisError rows >>= fun row => .ok (row.map f) := by
  rcases rows with _ | ⟨row, _ | ⟨row', rows⟩⟩ <;> rfl

theorem lawful_ethChain : ethChain.Lawful where
  tokens_setTokens _ _ _ := rfl
  setTokens_tokens _ := rfl
  tokenAddress_setTokens _ _ := rfl
  rows_setTokens rows _ db := by
    simp only [ethChain, DataDb.rows]
    omega
  token_sharedId _ _ _ _ := rfl
  token_walletId _ _ _ _ := rfl
  token_chainType _ _ _ _ := rfl
  one_map f rows := by cases rows <;> rfl
  tokenIds_chain _ _ _ := rfl
  defaultIds_chain _ _ := rfl
  tokenIds_of_ne chain hne _ _ _ _ _ := by
    cases chain <;> first | rfl | exact absurd rfl hne

theorem lawful_eeeChain : eeeChain.Lawful where
  tokens_setTokens _ _ _ := rfl
  setTokens_tokens _ := rfl
  tokenAddress_setTokens _ _ := rfl
  rows_setTokens rows _ db := by
    simp only [eeeChain, DataDb.rows]
    omega
  token_sharedId _ _ _ _ := rfl
  token_walletId _ _ _ _ := rfl
  token_chainType _ _ _ _ := rfl
  one_map := fetchOne_map
  tokenIds_chain _ _ _ := rfl
  defaultIds_chain _ _ := rfl
  tokenIds_of_ne chain hne _ _ _ _ _ := by
    cases chain <;> first | rfl | exact absurd rfl hne

theorem lawful_btcChain : btcChain.Lawful where
  tokens_setTokens _ _ _ := rfl
  setTokens_tokens _ := rfl
  tokenAddress_setTokens _ _ := rfl
  rows_setTokens rows _ db := by
    simp only [btcChain, DataDb.rows]
    omega
  token_sharedId _ _ _ _ := rfl
  token_walletId _ _ _ _ := rfl
  token_chainType _ _ _ _ := rfl
  one_map := fetchOne_map
  tokenIds_chain _ _ _ := rfl
  defaultIds_chain _ _ := rfl
  tokenIds_of_ne chain hne _ _ _ _ _ := by
    cases chain <;> first | rfl | exact absurd rfl hne

/-! ## Default tokens -/

theorem map_row_saveBatch {κ : Type} (env : Surroundings) (n : Nat) (rows : List (Saved κ)) :
    (saveBatch env n rows).map Saved.row = rows.map Saved.row := by
  apply List.ext_getElem
  · simp [saveBatch]
  · intro i _ _
    simp [saveBatch]

/-- The tokens of a wallet are saved in the database of a network. -/
def SavesTokens {ρ τ : Type} (tables : ChainTables ρ τ) (walletId : Text) (chainType : ChainType)
    (netType : NetType) (db db' : Databases) : Prop :=
  ∃ tokens addresses,
    db' = db.updateDataDb netType (fun _ =>
      { tables.setTokens (tables.tokens (db.dataDb netType) ++ tokens) (db.dataDb netType) with
        tokenAddress := (db.dataDb netType).tokenAddress ++ addresses }) ∧
    tables.defaultIds netType db.walletsDb =
      .ok (tokens.map fun t => tables.tokenSharedId t.row) ∧
    ∀ t ∈ tokens, tables.tokenWalletId t.row = walletId ∧
      tables.tokenChainType t.row = chainType.toString

section Tokens

variable {ρ τ : Type} {tables : ChainTables ρ τ} {env : Surroundings}

variable (tables env) in
theorem follows_listByNetType (netType : NetType) (s : Session Databases) :
    Follows env.fails Databases.rows false (listByNetType env tables netType) s
      (tables.listPlan netType s.store.walletsDb)
      fun tokens rows s' => s'.store = s.store ∧
        tables.list (tables.defaultsOf netType s.store.walletsDb) = .ok rows ∧
          tokens.map Prod.fst = rows.map Saved.row := by
  refine (Follows.query (Q := fun _ _ s' => s'.store = s.store) fun _ _ => rfl).seq ?_
  rintro tokensShared _ s₁ hs₁
  have hquery : Follows env.fails Databases.rows false
      (query env.fails WalletError.rbatisError fun db : Databases =>
        tables.list (tables.defaultsOf netType db.walletsDb)) s₁
      (Plan.query (tables.list (tables.defaultsOf netType s₁.store.walletsDb)))
      fun tokensDefault rows s' => s'.store = s.store ∧
        tables.list (tables.defaultsOf netType s.store.walletsDb) = .ok rows ∧
          tokensDefault = rows :=
    Follows.query fun rows hrows => ⟨hs₁, by rw [← hs₁]; exact hrows, rfl⟩
  rw [hs₁] at hquery
  refine hquery.map ?_
  rintro tokensDefault rows s₂ ⟨hs₂, hrows, rfl⟩
  exact ⟨hs₂, hrows, by rw [List.map_map]; rfl⟩

theorem map_sharedId_saveBatch (hlaw : tables.Lawful)
    {defaultTokens : List (ρ × MChainTokenShared)} {walletId : Text} {chainType : ChainType}
    {n : Nat} :
    (saveBatch env n (defaultTokens.map fun t =>
        (⟨default, tables.token t.1 t.2 walletId chainType⟩ : Saved τ))).map
          (fun t => tables.tokenSharedId t.row) =
      (defaultTokens.map Prod.fst).map fun t => (tables.base t).chainTokenSharedId := by
  have hrow := map_row_saveBatch env n (defaultTokens.map fun t =>
    (⟨default, tables.token t.1 t.2 walletId chainType⟩ : Saved τ))
  have hids := congrArg (List.map tables.tokenSharedId) hrow
  simpa only [List.map_map, Function.comp_def, hlaw.token_sharedId] using hids

theorem columns_of_mem_saveBatch (hlaw : tables.Lawful)
    {defaultTokens : List (ρ × MChainTokenShared)} {walletId : Text} {chainType : ChainType}
    {n : Nat} {t : Saved τ}
    (ht : t ∈ saveBatch env n (defaultTokens.map fun t =>
      (⟨default, tables.token t.1 t.2 walletId chainType⟩ : Saved τ))) :
    tables.tokenWalletId t.row = walletId ∧
      tables.tokenChainType t.row = chainType.toString := by
  have hrow := List.mem_map_of_mem (f := Saved.row) ht
  rw [map_row_saveBatch, List.map_map] at hrow
  obtain ⟨defaultToken, _, htoken⟩ := List.mem_map.mp hrow
  rw [← htoken]
  exact ⟨hlaw.token_walletId .., hlaw.token_chainType ..⟩

theorem follows_generateDefaultTokenOf (hlaw : tables.Lawful) (wallet : Saved MWallet)
    (address : Saved MAddress) (netType : NetType) (s : Session Databases) :
    Follows env.fails Databases.rows false
      (generateDefaultTokenOf env tables wallet address netType) s
      (tables.tokensPlan netType s.store.walletsDb)
      fun _ _ s' => SavesTokens tables wallet.shared.id
        (tables.chain.chainType (WalletType.ofText wallet.row.walletType) netType) netType
        s.store s'.store := by
  refine (Follows.beginTx (Q := fun tx _ s' => tx = s.store.dataDb netType ∧ s'.store = s.store)
    ⟨rfl, rfl⟩).seq ?_
  rintro tx _ s₁ ⟨rfl, hs₁⟩
  have hlist := follows_listByNetType tables env netType s₁
  rw [hs₁] at hlist
  refine hlist.seq ?_
  rintro defaultTokens rows s₂ ⟨hs₂, hrows, hdefaults⟩
  -- the rows that are saved, of which the identifiers of the shared tokens are known
  refine (Follows.inTx (Q := fun tx _ s' => s'.store = s.store ∧ ∃ tokens,
    tx = tables.setTokens (tables.tokens (s.store.dataDb netType) ++ tokens)
      (s.store.dataDb netType) ∧
    tables.defaultIds netType s.store.walletsDb =
      .ok (tokens.map fun t => tables.tokenSharedId t.row) ∧
    ∀ t ∈ tokens, tables.tokenWalletId t.row = wallet.shared.id ∧
      tables.tokenChainType t.row = (tables.chain.chainType
        (WalletType.ofText wallet.row.walletType) netType).toString) ?_).seq ?_
  · refine ⟨hs₂, _, rfl, ?_, ?_⟩
    · rw [ChainTables.defaultIds, hrows, map_sharedId_saveBatch hlaw, hdefaults, List.map_map]
      rfl
    · intro t ht
      exact columns_of_mem_saveBatch hlaw ht
  rintro tx _ s₃ ⟨hs₃, tokens, rfl, hids, htokens⟩
  refine (Follows.inTx (Q := fun tx _ s' => s'.store = s.store ∧ ∃ addresses,
    tx = { tables.setTokens (tables.tokens (s.store.dataDb netType) ++ tokens)
        (s.store.dataDb netType) with
      tokenAddress := (s.store.dataDb netType).tokenAddress ++ addresses } ∧
    addresses.length = rows.length) ?_).seq ?_
  · refine ⟨hs₃, _, by rw [hlaw.tokenAddress_setTokens], ?_⟩
    have hlength := congrArg List.length hdefaults
    rw [List.length_map, List.length_map] at hlength
    rw [saveBatch, List.length_mapIdx, List.length_map, hlength]
  rintro tx _ s₄ ⟨hs₄, addresses, rfl, haddresses⟩
  have hlength : tokens.length = rows.length := by
    have hsame := hids
    rw [ChainTables.defaultIds, hrows] at hsame
    have hlists := congrArg List.length (Outcome.ok.inj hsame)
    rwa [List.length_map, List.length_map, eq_comm] at hlists
  refine Follows.writes (Performs.commitTx _ _ _ _) ?_ ?_ ⟨tokens, addresses, ?_, hids, htokens⟩
  · -- without a default token the tables are written back as they were
    intro hempty
    have hrows : rows = [] := List.isEmpty_iff.mp (by simpa using hempty)
    rw [hrows] at hlength haddresses
    rw [List.eq_nil_of_length_eq_zero hlength, List.eq_nil_of_length_eq_zero haddresses,
      List.append_nil, List.append_nil, hlaw.setTokens_tokens, hs₄]
    exact updateDataDb_self s.store netType
  · intro hsome
    have hrows : rows ≠ [] := fun hnil => by
      rw [hnil] at hsome
      cases hsome
    have hpos := List.length_pos_iff.mpr hrows
    have hupdate := rows_updateDataDb s.store netType
      { tables.setTokens (tables.tokens (s.store.dataDb netType) ++ tokens)
          (s.store.dataDb netType) with
        tokenAddress := (s.store.dataDb netType).tokenAddress ++ addresses }
    have hset := hlaw.rows_setTokens (tables.tokens (s.store.dataDb netType) ++ tokens)
      ((s.store.dataDb netType).tokenAddress ++ addresses) (s.store.dataDb netType)
    rw [List.length_append] at hset
    rw [hs₄]
    omega
  · rw [hs₄]

end Tokens

/-! ## What a creation has saved -/

/-- For the chains and networks that are done, the tokens of the wallet are the default tokens,
and elsewhere it has none. -/
structure Created (db₀ : Databases) (walletType : WalletType) (walletId : Text)
    (done : List (NetType × Chain)) (db : Databases) : Prop where
  walletsDb : db.walletsDb = db₀.walletsDb
  filled : ∀ netType chain, (netType, chain) ∈ done →
    chain.defaultIds netType db₀.walletsDb =
      .ok (chain.tokenIds walletId (chain.chainType walletType netType) (db.dataDb netType))
  empty : ∀ netType chain, (netType, chain) ∉ done →
    chain.tokenIds walletId (chain.chainType walletType netType) (db.dataDb netType) = []

section Created

variable {db₀ db db' : Databases} {walletType : WalletType} {walletId : Text}
  {done : List (NetType × Chain)}

/-- One more chain on one more network is done. -/
theorem Created.step (h : Created db₀ walletType walletId done db) {netType : NetType}
    {chain : Chain} (hnew : (netType, chain) ∉ done) {ids : List Text}
    (hwalletsDb : db'.walletsDb = db.walletsDb)
    (hids : chain.defaultIds netType db.walletsDb = .ok ids)
    (hown : chain.tokenIds walletId (chain.chainType walletType netType) (db'.dataDb netType) =
      chain.tokenIds walletId (chain.chainType walletType netType) (db.dataDb netType) ++ ids)
    (hothers : ∀ netType' chain', (netType', chain') ≠ (netType, chain) → ∀ chainType,
      chain'.tokenIds walletId chainType (db'.dataDb netType') =
        chain'.tokenIds walletId chainType (db.dataDb netType')) :
    Created db₀ walletType walletId ((netType, chain) :: done) db' where
  walletsDb := hwalletsDb.trans h.walletsDb
  filled netType' chain' hmem := by
    by_cases heq : (netType', chain') = (netType, chain)
    · obtain ⟨rfl, rfl⟩ := Prod.mk.inj heq
      rw [hown, h.empty _ _ hnew, List.nil_append, ← h.walletsDb]
      exact hids
    · rw [hothers _ _ heq]
      exact h.filled _ _ ((List.mem_cons.mp hmem).resolve_left heq)
  empty netType' chain' hmem := by
    rw [List.mem_cons, not_or] at hmem
    rw [hothers _ _ hmem.1]
    exact h.empty _ _ hmem.2

/-- The tokens that are saved are added to those of the wallet. -/
theorem tokenIds_of_savesTokens {ρ τ : Type} {tables : ChainTables ρ τ} (hlaw : tables.Lawful)
    {chainType : ChainType} {netType : NetType}
    (h : SavesTokens tables walletId chainType netType db db') :
    ∃ ids, tables.defaultIds netType db.walletsDb = .ok ids ∧
      tables.tokenIds walletId chainType (db'.dataDb netType) =
        tables.tokenIds walletId chainType (db.dataDb netType) ++ ids := by
  obtain ⟨tokens, addresses, rfl, hids, htokens⟩ := h
  refine ⟨_, hids, ?_⟩
  have hall : tokens.filter (fun t => tables.tokenWalletId t.row = walletId ∧
      tables.tokenChainType t.row = chainType.toString) = tokens :=
    List.filter_eq_self.mpr fun t ht => decide_eq_true (htokens t ht)
  have hdata : (db.updateDataDb netType fun _ =>
      { tables.setTokens (tables.tokens (db.dataDb netType) ++ tokens) (db.dataDb netType) with
        tokenAddress := (db.dataDb netType).tokenAddress ++ addresses }).dataDb netType =
      { tables.setTokens (tables.tokens (db.dataDb netType) ++ tokens) (db.dataDb netType) with
        tokenAddress := (db.dataDb netType).tokenAddress ++ addresses } := if_pos rfl
  rw [hdata, ChainTables.tokenIds, ChainTables.tokensOf, hlaw.tokens_setTokens,
    List.filter_append, hall, List.map_append]
  rfl

/-- A chain is done when its tokens are saved. -/
theorem Created.savesTokens {ρ τ : Type} {tables : ChainTables ρ τ} (hlaw : tables.Lawful)
    {netType : NetType} (h : Created db₀ walletType walletId done db)
    (hnew : (netType, tables.chain) ∉ done)
    (hsaves : SavesTokens tables walletId (tables.chain.chainType walletType netType) netType
      db db') :
    Created db₀ walletType walletId ((netType, tables.chain) :: done) db' := by
  obtain ⟨ids, hids, hown⟩ := tokenIds_of_savesTokens hlaw hsaves
  rw [← hlaw.defaultIds_chain] at hids
  rw [← hlaw.tokenIds_chain, ← hlaw.tokenIds_chain] at hown
  obtain ⟨tokens, addresses, rfl, _, _⟩ := hsaves
  refine h.step hnew rfl hids hown ?_
  intro netType' chain' hne chainType
  by_cases hnet : netType' = netType
  · subst hnet
    have hchain : chain' ≠ tables.chain := fun heq => hne (by rw [heq])
    rw [← hlaw.tokenIds_of_ne chain' hchain (tables.tokens (db.dataDb netType') ++ tokens)
      ((db.dataDb netType').tokenAddress ++ addresses) walletId chainType (db.dataDb netType')]
    exact congrArg _ (if_pos rfl)
  · exact congrArg _ (if_neg hnet)

end Created

variable {env : Surroundings} {lib : Libraries} {db₀ : Databases} {walletType : WalletType}

/-- `generate_default_token` follows its plan, and then the chain is done. -/
theorem follows_generateDefaultToken {wallet : Saved MWallet} {address : Saved MAddress}
    {netType : NetType} {chain : Chain} {done : List (NetType × Chain)} {s : Session Databases}
    (htype : WalletType.ofText wallet.row.walletType = walletType)
    (h : Created db₀ walletType wallet.shared.id done s.store) (hnew : (netType, chain) ∉ done) :
    Follows env.fails Databases.rows false
      (chain.generateDefaultToken env wallet address netType) s
      (chain.tokensPlan netType db₀.walletsDb)
      fun _ _ s' =>
        Created db₀ walletType wallet.shared.id ((netType, chain) :: done) s'.store := by
  rw [← h.walletsDb]
  cases chain with
  | eth =>
    refine (follows_generateDefaultTokenOf lawful_ethChain wallet address netType s).mono ?_
    intro _ _ s' hsaves
    exact h.savesTokens lawful_ethChain hnew (htype ▸ hsaves)
  | eee =>
    refine (follows_generateDefaultTokenOf lawful_eeeChain wallet address netType s).mono ?_
    intro _ _ s' hsaves
    exact h.savesTokens lawful_eeeChain hnew (htype ▸ hsaves)
  | btc =>
    refine (follows_generateDefaultTokenOf lawful_btcChain wallet address netType s).mono ?_
    intro _ _ s' hsaves
    exact h.savesTokens lawful_btcChain hnew (htype ▸ hsaves)

/-- The chains of a network. -/
theorem follows_generateAddresses {wallet : Saved MWallet} {mn : Text} {netType : NetType}
    (htype : WalletType.ofText wallet.row.walletType = walletType) {chains : List Chain}
    (hnodup : chains.Nodup) {done : List (NetType × Chain)} {s : Session Databases}
    (h : Created db₀ walletType wallet.shared.id done s.store)
    (hnew : ∀ chain ∈ chains, (netType, chain) ∉ done) :
    Follows env.fails Databases.rows false
      (generateAddresses env lib wallet mn netType chains) s
      (addressesPlan lib mn walletType netType db₀.walletsDb chains)
      fun _ _ s' => ∃ done', Created db₀ walletType wallet.shared.id done' s'.store ∧
        ∀ x, x ∈ done' ↔ x ∈ done ∨ x.1 = netType ∧ x.2 ∈ chains := by
  induction chains generalizing done s with
  | nil => exact Follows.pure ⟨done, h, by simp⟩
  | cons chain rest ih =>
    rw [List.nodup_cons] at hnodup
    unfold generateAddresses addressesPlan
    simp only [htype]
    refine (Follows.lift (Q := fun _ _ s' => s'.store = s.store) fun _ _ => rfl).seq ?_
    intro address _ s₁ hs₁
    refine Follows.get_bind ?_
    refine (follows_generateDefaultToken htype (hs₁ ▸ h)
      (hnew chain List.mem_cons_self)).seq ?_
    intro _ _ s₂ hcreated
    refine (ih hnodup.2 hcreated ?_).map ?_
    · intro chain' hmem hdone
      rcases List.mem_cons.mp hdone with heq | hdone
      · exact hnodup.1 ((Prod.mk.inj heq).2 ▸ hmem)
      · exact hnew chain' (List.mem_cons_of_mem _ hmem) hdone
    · rintro _ _ s₃ ⟨done', hcreated', hmem⟩
      refine ⟨done', hcreated', fun x => ?_⟩
      rw [hmem, List.mem_cons, List.mem_cons, Prod.ext_iff]
      tauto

/-! ## The identifier of the wallet -/

/-- What `before_save` makes of an identifier: a new one if there is none yet. -/
def NewId (env : Surroundings) (shared : Shared) (id : Text) : Prop :=
  shared.id = [] ∧ (∃ n k, id = env.uuid n k) ∨ shared.id ≠ [] ∧ id = shared.id

theorem newId_beforeSave (env : Surroundings) (n k : Nat) (shared : Shared) :
    NewId env shared (beforeSave env n k shared).id := by
  unfold beforeSave
  by_cases hid : shared.id = []
  · rw [if_pos hid]
    exact .inl ⟨hid, n, k, rfl⟩
  · rw [if_neg hid]
    exact .inr ⟨hid, rfl⟩

theorem newId_iff {env : Surroundings} {shared : Shared} (h : shared.id ≠ []) (id : Text) :
    NewId env shared id ↔ id = shared.id := by
  constructor
  · rintro (⟨hnil, _⟩ | ⟨_, heq⟩)
    · exact absurd hnil h
    · exact heq
  · intro heq
    exact .inr ⟨h, heq⟩

theorem NewId.ne_nil {env : Surroundings} (hne : ∀ n k, env.uuid n k ≠ []) {shared : Shared}
    {id : Text} (h : NewId env shared id) : id ≠ [] := by
  rcases h with ⟨_, n, k, rfl⟩ | ⟨hid, rfl⟩
  · exact hne n k
  · exact hid

/-- The identifier is drawn for the first network, and kept for the others. -/
theorem follows_generateAddressToken (hne : ∀ n k, env.uuid n k ≠ []) {wallet : Saved MWallet}
    {mn : Text} {netType : NetType}
    (htype : WalletType.ofText wallet.row.walletType = walletType)
    {done : List (NetType × Chain)} {s : Session Databases}
    (h : ∀ id, NewId env wallet.shared id → Created db₀ walletType id done s.store)
    (hnew : ∀ chain, (netType, chain) ∉ done) :
    Follows env.fails Databases.rows false (generateAddressToken env lib wallet mn netType) s
      (addressesPlan lib mn walletType netType db₀.walletsDb Chain.chains)
      fun r _ s' => r.1.row = wallet.row ∧ ∃ done',
        (∀ id, NewId env r.1.shared id → Created db₀ walletType id done' s'.store) ∧
          ∀ x, x ∈ done' ↔ x ∈ done ∨ x.1 = netType := by
  refine Follows.get_bind ?_
  generalize hwallet : (if wallet.shared.id = [] then
    (⟨beforeSave env s.calls 0 wallet.shared, wallet.row⟩ : Saved MWallet) else wallet) = wallet'
  have hid : NewId env wallet.shared wallet'.shared.id := by
    rw [← hwallet]
    split
    · exact newId_beforeSave ..
    · next hid => exact .inr ⟨hid, rfl⟩
  have hrow : wallet'.row = wallet.row := by
    rw [← hwallet]
    split <;> rfl
  refine (follows_generateAddresses (hrow ▸ htype) (by decide) (h _ hid)
    fun chain _ => hnew chain).map ?_
  rintro _ _ s' ⟨done', hcreated, hmem⟩
  refine ⟨hrow, done', fun id hnewId => ?_, fun x => ?_⟩
  · rw [newId_iff (hid.ne_nil hne)] at hnewId
    rw [hnewId]
    exact hcreated
  · have hchains : x.2 ∈ Chain.chains := by cases x.2 <;> decide
    rw [hmem, and_iff_left hchains]

/-- The networks of the type of the wallet. -/
theorem follows_saveAddresses (hne : ∀ n k, env.uuid n k ≠ []) {mn : Text}
    {netTypes : List NetType} (hnodup : netTypes.Nodup) {mWallet : Saved MWallet} {tx : WalletsDb}
    (htype : WalletType.ofText mWallet.row.walletType = walletType)
    {done : List (NetType × Chain)} {s : Session Databases}
    (h : ∀ id, NewId env mWallet.shared id → Created db₀ walletType id done s.store)
    (hnew : ∀ netType ∈ netTypes, ∀ chain, (netType, chain) ∉ done) :
    Follows env.fails Databases.rows false
      (saveAddresses env lib walletType mn netTypes mWallet tx) s
      (networksPlan lib mn walletType db₀.walletsDb netTypes)
      fun r _ s' => r.1.row = mWallet.row ∧ (∃ address, r.2 = { tx with address := address }) ∧
        ∃ done', (∀ id, NewId env r.1.shared id → Created db₀ walletType id done' s'.store) ∧
          ∀ x, x ∈ done' ↔
            x ∈ done ∨ x.1 ∈ netTypes ∧ walletType.checkChainTypeMatch x.1 = true := by
  -- on the networks, of which each adds its chain
  induction netTypes generalizing mWallet tx done s with
  | nil => exact Follows.pure ⟨rfl, ⟨_, rfl⟩, done, h, by simp⟩
  | cons netType rest ih =>
    rw [List.nodup_cons] at hnodup
    unfold saveAddresses networksPlan
    split
    · next hmatch =>
      refine (follows_generateAddressToken hne htype h (hnew netType List.mem_cons_self)).seq ?_
      rintro ⟨mWallet', addresses⟩ _ s₁ ⟨hrow, done₁, hcreated₁, hmem₁⟩
      refine (Follows.inTx (Q := fun tx' _ s' => s'.store = s₁.store ∧
        ∃ address, tx' = { tx with address := address }) ⟨rfl, _, rfl⟩).seq ?_
      rintro _ _ s₂ ⟨hs₂, address, rfl⟩
      refine (ih hnodup.2 (hrow ▸ htype) (hs₂ ▸ hcreated₁) ?_).mono ?_
      · intro netType' hmem chain hdone
        rcases (hmem₁ _).mp hdone with hdone | heq
        · exact hnew netType' (List.mem_cons_of_mem _ hmem) chain hdone
        · exact hnodup.1 (heq ▸ hmem)
      · rintro r _ s' ⟨hrow', ⟨address', htx⟩, done', hcreated', hmem'⟩
        refine ⟨hrow'.trans hrow, ⟨address', htx⟩, done', hcreated', fun x => ?_⟩
        rw [hmem', hmem₁, List.mem_cons]
        constructor
        · rintro ((hdone | rfl) | ⟨hrest, hmatch'⟩)
          · exact .inl hdone
          · exact .inr ⟨.inl rfl, hmatch⟩
          · exact .inr ⟨.inr hrest, hmatch'⟩
        · rintro (hdone | ⟨heq | hrest, hmatch'⟩)
          · exact .inl (.inl hdone)
          · exact .inl (.inr heq)
          · exact .inr ⟨hrest, hmatch'⟩
    · -- the wallet has no chain of this network
      next hmatch =>
      refine (ih hnodup.2 htype h fun netType' hmem =>
        hnew netType' (List.mem_cons_of_mem _ hmem)).mono ?_
      rintro r _ s' ⟨hrow, htx, done', hcreated', hmem'⟩
      refine ⟨hrow, htx, done', hcreated', fun x => ?_⟩
      rw [hmem', List.mem_cons]
      constructor
      · rintro (hdone | ⟨hrest, hmatch'⟩)
        · exact .inl hdone
        · exact .inr ⟨.inr hrest, hmatch'⟩
      · rintro (hdone | ⟨rfl | hrest, hmatch'⟩)
        · exact .inl hdone
        · exact absurd hmatch' hmatch
        · exact .inr ⟨hrest, hmatch'⟩

/-! ## The wallet is saved -/

/-- The identifiers that are drawn are new. -/
structure Surroundings.Fresh (env : Surroundings) (db : Databases) : Prop where
  ne_nil : ∀ n k, env.uuid n k ≠ []
  eth : ∀ n k netType, ∀ t ∈ (db.dataDb netType).ethChainToken, t.row.walletId ≠ env.uuid n k
  eee : ∀ n k netType, ∀ t ∈ (db.dataDb netType).eeeChainToken, t.row.walletId ≠ env.uuid n k
  btc : ∀ n k netType, ∀ t ∈ (db.dataDb netType).btcChainToken, t.row.walletId ≠ env.uuid n k

/-- A wallet with a new identifier has no token. -/
theorem Surroundings.Fresh.created (hfresh : env.Fresh db₀) {id : Text}
    (hid : NewId env default id) : Created db₀ walletType id [] db₀ where
  walletsDb := rfl
  filled _ _ h := nomatch h
  empty netType chain _ := by
    obtain ⟨_, n, k, rfl⟩ | ⟨h, _⟩ := hid
    · cases chain with
      | eth =>
        exact List.map_eq_nil_iff.mpr <| List.filter_eq_nil_iff.mpr fun t ht h =>
          hfresh.eth n k netType t ht (of_decide_eq_true h).1
      | eee =>
        exact List.map_eq_nil_iff.mpr <| List.filter_eq_nil_iff.mpr fun t ht h =>
          hfresh.eee n k netType t ht (of_decide_eq_true h).1
      | btc =>
        exact List.map_eq_nil_iff.mpr <| List.filter_eq_nil_iff.mpr fun t ht h =>
          hfresh.btc n k netType t ht (of_decide_eq_true h).1
    · exact absurd rfl h

/-- The wallet is there, and on the networks of its type it has the default tokens. -/
structure SavedWallet (db₀ : Databases) (walletType : WalletType) (mWallet : Saved MWallet)
    (db : Databases) : Prop where
  walletsDb : ∃ address, db.walletsDb =
    { db₀.walletsDb with
      address := address
      wallet := db₀.walletsDb.wallet ++ [mWallet] }
  filled : ∀ netType, walletType.checkChainTypeMatch netType = true → ∀ chain : Chain,
    chain.defaultIds netType db₀.walletsDb =
      .ok (chain.tokenIds mWallet.shared.id (chain.chainType walletType netType)
        (db.dataDb netType))

theorem follows_saveWallet {s : Session Databases} (hfresh : env.Fresh s.store) {mn : Text}
    {row : MWallet} (htype : WalletType.ofText row.walletType = walletType) :
    Follows env.fails Databases.rows false (saveWallet env lib walletType mn ⟨default, row⟩) s
      (saveWalletPlan lib mn walletType s.store.walletsDb)
      fun mWallet _ s' => mWallet.row = row ∧ SavedWallet s.store walletType mWallet s'.store := by
  refine (Follows.beginTx (Q := fun tx _ s' => tx = s.store.walletsDb ∧ s'.store = s.store)
    ⟨rfl, rfl⟩).seq ?_
  rintro tx _ s₁ ⟨rfl, hs₁⟩
  refine (follows_saveAddresses hfresh.ne_nil (by decide) htype
    (fun id hid => hs₁ ▸ hfresh.created hid) fun _ _ _ => List.not_mem_nil).seq ?_
  rintro ⟨mWallet, tx⟩ _ s₂ ⟨hrow, ⟨address, htx⟩, done, hcreated, hdone⟩
  obtain rfl : tx = _ := htx
  -- the wallet is saved in the transaction, and has an identifier then
  refine (Follows.inTx (Q := fun r _ s' => s'.store = s₂.store ∧ r.1.row = row ∧
    NewId env mWallet.shared r.1.shared.id ∧
      r.2 = { s.store.walletsDb with
      address := address
      wallet := s.store.walletsDb.wallet ++ [r.1] })
    ⟨rfl, hrow, newId_beforeSave .., rfl⟩).seq ?_
  rintro ⟨mWallet', tx'⟩ _ s₃ ⟨hs₃, hrow', hid, htx'⟩
  have hcreated' := hcreated _ hid
  rw [← hs₃] at hcreated'
  refine (Follows.writes (Performs.execute _ _ _) (fun hfalse => by cases hfalse) (fun _ => ?_)
    (Q := fun _ _ s' => Created s.store walletType mWallet'.shared.id done s'.store)
    ⟨hcreated'.walletsDb, hcreated'.filled, hcreated'.empty⟩).bind ?_
  · simp only [Databases.rows, List.length_append, List.length_singleton]
    omega
  intro _ _ s₄ _ hcreated₄
  refine (Follows.writesLater (Performs.commitTx _ _ _ _) ?_
    (Q := fun _ _ s' => SavedWallet s.store walletType mWallet' s'.store) ⟨?_, ?_⟩).map ?_
  · exact Nat.le_refl s₄.store.rows
  · exact ⟨address, htx'⟩
  · intro netType hmatch chain
    exact hcreated₄.filled netType chain
      ((hdone _).mpr (.inr ⟨NetType.mem_iter netType, hmatch⟩))
  · intro _ _ s₅ hsaved
    exact ⟨hrow', hsaved⟩

/-- At its end the mnemonic is saved. -/
theorem mem_marks_saveWalletPlan {mn : Text} {db : WalletsDb}
    (h : (saveWalletPlan lib mn walletType db).ends = .ok ()) :
    true ∈ (saveWalletPlan lib mn walletType db).marks := by
  refine Plan.mem_marks_bind h fun _ h => ?_
  refine Plan.mem_marks_bind h fun _ h => ?_
  refine Plan.mem_marks_bind h fun _ h => ?_
  exact List.mem_cons_self

/-! ## After the wallet is saved -/

theorem follows_getSetting {key : SettingType} {db : WalletsDb} {s : Session Databases}
    (hsetting : s.store.walletsDb.setting = db.setting) :
    Follows env.fails Databases.rows true (getSetting env key) s (Plan.query (settingOf key db))
      fun _ _ s' => s'.store = s.store := by
  rw [settingOf, ← hsetting]
  exact Follows.query fun _ _ => rfl

/-- The settings change, and nothing else. -/
theorem follows_saveCurrentWalletChain {walletId : Text} {chainType : ChainType} {db : WalletsDb}
    {s : Session Databases} (hsetting : s.store.walletsDb.setting = db.setting) :
    Follows env.fails Databases.rows true (saveCurrentWalletChain env walletId chainType) s
      (currentWalletPlan db) fun _ _ s' => ∃ setting,
        s'.store = { s.store with walletsDb := { s.store.walletsDb with setting := setting } } := by
  refine (follows_getSetting hsetting).seqLater ?_
  intro walletSetting _ s₁ hs₁
  refine (follows_getSetting (hs₁ ▸ hsetting)).seqLater ?_
  intro chainSetting _ s₂ hs₂
  refine (Follows.beginTx (Q := fun tx _ s' => tx = s.store.walletsDb ∧ s'.store = s.store)
    ⟨by rw [hs₂, hs₁], by rw [hs₂, hs₁]⟩).seqLater ?_
  rintro tx _ s₃ ⟨rfl, hs₃⟩
  refine (Follows.inTx (Q := fun tx _ s' => s'.store = s.store ∧
    ∃ setting, tx = { s.store.walletsDb with setting := setting }) ⟨hs₃, _, rfl⟩).seqLater ?_
  rintro _ _ s₄ ⟨hs₄, setting, rfl⟩
  refine (Follows.inTx (Q := fun tx _ s' => s'.store = s.store ∧
    ∃ setting, tx = { s.store.walletsDb with setting := setting }) ⟨hs₄, _, rfl⟩).seqLater ?_
  rintro _ _ s₅ ⟨hs₅, setting', rfl⟩
  exact Follows.writesLater (Performs.commitTx _ _ _ _) (Nat.le_refl s₅.store.rows)
    ⟨setting', by rw [hs₅]⟩

section Load

variable {ρ τ : Type} {tables : ChainTables ρ τ}

theorem follows_loadToken {token : Saved τ} {db : WalletsDb} {s : Session Databases}
    (hshared : tables.shared s.store.walletsDb = tables.shared db) :
    Follows env.fails Databases.rows true (loadToken env tables token) s
      (tables.loadTokenPlan (tables.tokenSharedId token.row) db)
      fun _ _ s' => s'.store = s.store := by
  unfold ChainTables.loadTokenPlan
  rw [← hshared]
  refine (Follows.query (Q := fun a b s' => a = b ∧ s'.store = s.store)
    fun _ _ => ⟨rfl, rfl⟩).seqLater ?_
  rintro tokenShared _ s₁ ⟨rfl, hs₁⟩
  have hlift : Plan.lift (Outcome.okOr () tokenShared) = Plan.lift (Outcome.okOr
      (WalletError.noneError tables.sharedName (tables.tokenSharedId token.row)) tokenShared) := by
    cases tokenShared <;> rfl
  rw [hlift]
  refine (Follows.lift (Q := fun _ _ s' => s'.store = s.store) fun _ _ => hs₁).map ?_
  exact fun _ _ _ hs => hs

/-- A chain of a saved wallet is loaded. -/
theorem follows_loadChain (hlaw : tables.Lawful) {mw : Saved MWallet} {netType : NetType}
    (htype : WalletType.ofText mw.row.walletType = walletType) {db : WalletsDb}
    {s : Session Databases} (hshared : tables.shared s.store.walletsDb = tables.shared db)
    (hids : tables.defaultIds netType db =
      .ok (tables.tokenIds mw.shared.id (tables.chain.chainType walletType netType)
        (s.store.dataDb netType))) :
    Follows env.fails Databases.rows true (loadChain env tables mw netType) s
      (tables.loadPlan netType db) fun _ _ s' => s'.store = s.store := by
  unfold loadChain ChainTables.loadPlan
  rw [hids, htype]
  refine (Follows.read (Q := fun _ _ s' => s'.store = s.store) rfl).seqLater ?_
  intro walletAddress _ s₁ hs₁
  -- one of the tokens is found exactly if one of the default tokens is
  have hquery : Follows env.fails Databases.rows true
      (query env.fails WalletError.rbatisError fun db : Databases =>
        tables.one (tables.tokensOf mw.shared.id (tables.chain.chainType walletType netType)
          (db.dataDb netType))) s₁
      (Plan.query (tables.one (tables.tokenIds mw.shared.id
        (tables.chain.chainType walletType netType) (s.store.dataDb netType))))
      fun w id s' => s'.store = s.store ∧ id = w.map fun t => tables.tokenSharedId t.row := by
    rw [ChainTables.tokenIds, hlaw.one_map, ← hs₁]
    exact Follows.same (Performs.query ..) (Ends.mapErr_bind fun _ _ => ⟨rfl, rfl⟩)
  refine hquery.seqLater ?_
  rintro w _ s₂ ⟨hs₂, rfl⟩
  refine Follows.map (Q := fun _ _ s' => s'.store = s.store) ?_ fun _ _ _ hs => hs
  cases w with
  | none => exact Follows.pure hs₂
  | some token =>
    refine (follows_loadToken (hs₂ ▸ hshared)).seqLater ?_
    intro _ _ s₃ hs₃
    exact Follows.pure (hs₃.trans hs₂)

end Load

theorem follows_saveFirstWallet {count : Nat} {mWallet : Saved MWallet} {netType : NetType}
    {db : WalletsDb} {s : Session Databases} (hsetting : s.store.walletsDb.setting = db.setting)
    (hcount : count =
      (db.wallet.filter fun w => w.row.walletType = walletType.toString).length + 1) :
    Follows env.fails Databases.rows true (saveFirstWallet env count mWallet netType) s
      (firstWalletPlan walletType db) fun _ _ s' => ∃ setting,
        s'.store = { s.store with walletsDb := { s.store.walletsDb with setting := setting } } := by
  have hfirst : count = 1 ↔
      (db.wallet.filter fun w => w.row.walletType = walletType.toString).isEmpty = true := by
    rw [hcount, List.isEmpty_iff, ← List.length_eq_zero_iff]
    exact Nat.succ_inj
  unfold saveFirstWallet firstWalletPlan
  by_cases h : count = 1
  · rw [if_pos h, if_pos (hfirst.mp h)]
    exact follows_saveCurrentWalletChain hsetting
  · rw [if_neg h, if_neg (mt hfirst.mpr h)]
    exact Follows.pure ⟨s.store.walletsDb.setting, rfl⟩

theorem follows_loadWallet {mWallet : Saved MWallet} {netType : NetType}
    (hmatch : walletType.checkChainTypeMatch netType = true)
    (htype : WalletType.ofText mWallet.row.walletType = walletType) {s : Session Databases}
    {db : Databases} (hsaved : SavedWallet db₀ walletType mWallet db)
    {setting : List (Saved MSetting)}
    (hs : s.store = { db with walletsDb := { db.walletsDb with setting := setting } }) :
    Follows env.fails Databases.rows true (loadWallet env mWallet netType) s
      (loadWalletPlan netType db₀.walletsDb) fun _ _ _ => True := by
  obtain ⟨address, hwalletsDb⟩ := hsaved.walletsDb
  have hids := hsaved.filled netType hmatch
  have hdata : s.store.dataDb = db.dataDb := by rw [hs]
  rw [← hdata] at hids
  refine (follows_loadChain lawful_ethChain htype ?_ (hids .eth)).seqLater ?_
  · rw [hs, hwalletsDb]
    rfl
  intro eth _ s₁ hs₁
  refine (follows_loadChain lawful_eeeChain htype ?_ (hs₁ ▸ hids .eee)).seqLater ?_
  · rw [hs₁, hs, hwalletsDb]
    rfl
  intro eee _ s₂ hs₂
  refine (follows_loadChain lawful_btcChain htype ?_ (hs₂ ▸ hs₁ ▸ hids .btc)).map ?_
  · rw [hs₂, hs₁, hs, hwalletsDb]
    rfl
  intro btc _ s₃ _
  exact trivial

/-! ## The whole creation -/

theorem follows_saveAndLoad {netType : NetType} {parameters : CreateWalletParameters}
    {s : Session Databases} (hfresh : env.Fresh s.store)
    (hmatch : (WalletType.ofText parameters.walletType).checkChainTypeMatch netType = true) :
    Follows env.fails Databases.rows false (saveAndLoad env lib netType parameters) s
      (do
        saveWalletPlan lib parameters.mnemonic (WalletType.ofText parameters.walletType)
          s.store.walletsDb
        Plan.quiet
        firstWalletPlan (WalletType.ofText parameters.walletType) s.store.walletsDb
        loadWalletPlan netType s.store.walletsDb) fun _ _ _ => True := by
  have htype : WalletType.ofText (parameters.mWallet lib).walletType =
      WalletType.ofText parameters.walletType := WalletType.ofText_toString _
  refine (follows_saveWallet hfresh htype).bind ?_
  rintro mWallet _ s₁ hends ⟨hrow, hsaved⟩
  rw [Bool.false_or, List.contains_iff_mem.mpr (mem_marks_saveWalletPlan hends)]
  obtain ⟨address, hwalletsDb⟩ := hsaved.walletsDb
  refine (Follows.read (Q := fun count _ s' => s'.store = s₁.store ∧ count =
    (s.store.walletsDb.wallet.filter fun w =>
      w.row.walletType = (WalletType.ofText parameters.walletType).toString).length + 1)
    ⟨rfl, ?_⟩).seqLater ?_
  · -- the wallets that are counted are those before, and the new one
    have hnew : mWallet.row.walletType = (WalletType.ofText parameters.walletType).toString := by
      rw [hrow]
      rfl
    show (s₁.store.walletsDb.wallet.filter fun w =>
      w.row.walletType = (WalletType.ofNetType netType).toString).length = _
    rw [hwalletsDb, WalletType.ofNetType_of_match hmatch, List.filter_append, List.length_append,
      List.filter_singleton, decide_eq_true hnew, cond_true, List.length_singleton]
  rintro count _ s₂ ⟨hs₂, hcount⟩
  refine (follows_saveFirstWallet (by rw [hs₂, hwalletsDb]) hcount).seqLater ?_
  rintro _ _ s₃ ⟨setting, hs₃⟩
  exact follows_loadWallet hmatch (hrow ▸ htype) hsaved (hs₂ ▸ hs₃)

theorem follows_createWallet {netType : NetType} {parameters : CreateWalletParameters}
    {s : Session Databases} (hfresh : env.Fresh s.store) :
    Follows env.fails Databases.rows false (createWallet env lib netType parameters) s
      (creationPlan lib netType parameters s.store.walletsDb) fun _ _ _ => True := by
  unfold createWallet creationPlan
  by_cases hmatch : (WalletType.ofText parameters.walletType).checkChainTypeMatch netType = true
  · simp only [if_pos hmatch]
    refine (Follows.read (Q := fun ms _ s' => s'.store = s.store ∧ ms =
      duplicates (mnemonicDigest lib parameters.mnemonic)
        (WalletType.ofText parameters.walletType) s.store.walletsDb) ⟨rfl, rfl⟩).seq ?_
    rintro _ _ s₁ ⟨hs₁, rfl⟩
    split
    · rw [← hs₁]
      exact follows_saveAndLoad (hs₁ ▸ hfresh) hmatch
    · exact Follows.stop
  · simp only [if_neg hmatch]
    exact Follows.stop

/-- A wallet is created entirely or not at all: every row that a creation adds is one of the
new wallet or its mnemonic, so that after an error the databases are as they were. -/
def CreatedEntirely (s : Session Databases)
    (result : Session Databases × Outcome WalletError Wallet) : Prop :=
  result.2.IsErr → result.1.store = s.store

/-- **All or nothing**: a wallet is created entirely or not at all exactly if the plan of its
creation is harmless. -/
theorem createdEntirely_iff (env : Surroundings) (lib : Libraries) (netType : NetType)
    (parameters : CreateWalletParameters) (s : Session Databases) (hfresh : env.Fresh s.store) :
    CreatedEntirely s ((createWallet env lib netType parameters).run s) ↔
      (creationPlan lib netType parameters s.store.walletsDb).Harmless env.fails s.calls :=
  (follows_createWallet hfresh).unchanged_iff

/-! ### A creation that is cut short

The tokens of the first chain are committed, and the transaction for those of the second
chain cannot be begun. -/

/-- One token that a new wallet has on the first chain. -/
def oneDefaultToken : Databases where
  walletsDb :=
    ⟨[], [], [], [⟨⟨['e'], 0, 0⟩, default⟩], [], [],
      [⟨⟨['d'], 0, 0⟩, ⟨['e'], NetType.main.toString, 0, 1⟩, []⟩], [], [], [], [], [], []⟩
  mnemonicDb := []
  dataDb _ := ⟨[], [], [], [], [], [], []⟩

/-- Libraries that derive the same address from every phrase. -/
def oneAddress : Libraries where
  keccak256 _ := []
  encryptMnemonic _ _ := ['m']
  generateEthAddress _ := .ok (['a'], ['p'])
  generateEeeAddress _ := some (['a'], ['p'])
  generateBtcAddress _ _ := .ok (['a'], ['p'])

/-- One operation fails, and the identifiers are all different. -/
def failsAt (i : Nat) : Surroundings where
  fails n := n = i
  uuid n k := List.replicate (n + 1) 'u' ++ List.replicate k 'k'
  nowTsSeconds _ := 0

theorem fresh_oneDefaultToken (i : Nat) : (failsAt i).Fresh oneDefaultToken where
  ne_nil _ _ h := by cases h
  eth _ _ _ _ ht := nomatch ht
  eee _ _ _ _ ht := nomatch ht
  btc _ _ _ _ ht := nomatch ht

/-- A creation that fails before something is committed, and one that succeeds. -/
theorem createdEntirely_of_fails_early :
    CreatedEntirely ⟨oneDefaultToken, 0⟩
        ((createWallet (failsAt 3) oneAddress .main ⟨['n'], ['p'], ['m'], "Normal".toList⟩).run
          ⟨oneDefaultToken, 0⟩) ∧
      CreatedEntirely ⟨oneDefaultToken, 0⟩
        ((createWallet (failsAt 100) oneAddress .main ⟨['n'], ['p'], ['m'], "Normal".toList⟩).run
          ⟨oneDefaultToken, 0⟩) ∧
      ¬ ((createWallet (failsAt 100) oneAddress .main ⟨['n'], ['p'], ['m'], "Normal".toList⟩).run
          ⟨oneDefaultToken, 0⟩).2.IsErr := by
  have hiff := fun i => createdEntirely_iff (failsAt i) oneAddress .main
    ⟨['n'], ['p'], ['m'], "Normal".toList⟩ ⟨oneDefaultToken, 0⟩ (fresh_oneDefaultToken i)
  refine ⟨(hiff 3).mpr (.inr (.inl ⟨3, by decide, rfl⟩)), (hiff 100).mpr (.inr (.inr ?_)),
    by decide⟩
  exact ⟨by decide, by decide⟩

/-- There is a token of a wallet that is not there. -/
theorem not_createdEntirely_of_fails_late :
    ¬ CreatedEntirely ⟨oneDefaultToken, 0⟩
      ((createWallet (failsAt 8) oneAddress .main ⟨['n'], ['p'], ['m'], "Normal".toList⟩).run
        ⟨oneDefaultToken, 0⟩) := by
  intro h
  have htokens := congrArg (fun db => (db.dataDb .main).ethChainToken.length) (h (by decide))
  revert htokens
  decide

end Cashbox.Wallets
