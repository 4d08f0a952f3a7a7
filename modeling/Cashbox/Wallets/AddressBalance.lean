import Cashbox.Lib.Effect
import Cashbox.Wallets.KeyedRows
import Cashbox.Wallets.Settings

/-!
# Balances of addresses

`update_address_balance` finds or adds the token of a wallet on the active network, then finds or
adds the balance of an address in it, and commits both. The tables are chosen by the chain type,
and the contract of a new token on Ethereum is looked up in the database of the wallets.

Over any sequence of updates and changes of the network each balance has one row, with what the
last successful update under its key has written.
-/

namespace Cashbox.Wallets

open Cashbox.Lib

/-! ## Tokens -/

/-- The chain whose tables are used for a chain type. -/
def ChainType.chain : ChainType → Chain
  | .eth | .ethTest | .ethPrivate | .ethPrivateTest => .eth
  | .eee | .eeeTest | .eeePrivate | .eeePrivateTest => .eee
  | .btc | .btcTest | .btcPrivate | .btcPrivateTest => .btc

/-- The token of a wallet on a chain type: the wallet, the chain type and the shared token. -/
abbrev TokenKey := Text × Text × Text

def ChainTables.tokenKey {ρ τ : Type} (tables : ChainTables ρ τ) (t : τ) : TokenKey :=
  (tables.tokenWalletId t, tables.tokenChainType t, tables.tokenSharedId t)

def MTokenAddress.tokenKey (t : MTokenAddress) : TokenKey := (t.walletId, t.chainType, t.tokenId)

/-- What a balance is about: its token and its address. -/
def MTokenAddress.key (t : MTokenAddress) : TokenKey × Text := (t.tokenKey, t.addressId)

/-- `MEthChainToken::default` with what is filled in for a balance. -/
def MEthChainToken.ofBalance (t : MTokenAddress) (contractAddr : Text) : MEthChainToken where
  nextId := []
  chainTokenSharedId := t.tokenId
  walletId := t.walletId
  chainType := t.chainType
  contractAddress := contractAddr
  show' := cTrue
  decimal := 0

def MEeeChainToken.ofBalance (t : MTokenAddress) : MEeeChainToken where
  nextId := []
  chainTokenSharedId := t.tokenId
  walletId := t.walletId
  chainType := t.chainType
  show' := cTrue
  decimal := 0

def MBtcChainToken.ofBalance (t : MTokenAddress) : MBtcChainToken where
  nextId := []
  chainTokenSharedId := t.tokenId
  walletId := t.walletId
  chainType := t.chainType
  show' := cTrue
  decimal := 0

/-! ## The functions -/

section Functions

variable (env : Surroundings)

/-- A token of the library of a network. -/
def fetchLibraryToken (read : WalletsDb → List (Saved MEthChainTokenDefault))
    (tokenSharedId netType : Text) :
    Method (Session Databases) WalletError (Option (Saved MEthChainTokenDefault)) :=
  query env.fails .rbatisError fun db => fetchOne .rbatisError
    ((read db.walletsDb).filter fun t =>
      t.row.chainTokenSharedId = tokenSharedId ∧ t.row.netType = netType)

def queryContractBySharedId (tokenSharedId netType : Text) :
    Method (Session Databases) WalletError Text := do
  let tokenAuth ← fetchLibraryToken env WalletsDb.ethChainTokenAuth tokenSharedId netType
  match tokenAuth with
  | some token => pure token.row.contractAddress
  | none => do
    let tokenNonAuth ← fetchLibraryToken env WalletsDb.ethChainTokenNonAuth tokenSharedId netType
    match tokenNonAuth with
    | some token => pure token.row.contractAddress
    | none => do
      let tokenDefault ←
        fetchLibraryToken env WalletsDb.ethChainTokenDefault tokenSharedId netType
      match tokenDefault with
      | some token => pure token.row.contractAddress
      | none =>
        Method.lift (.err (.custom ("token shared id " ++ String.ofList tokenSharedId ++ "," ++
          String.ofList netType ++ " not exist in token liberay")))

/-- The token of a balance is found, or a new one is made and saved. -/
def keepToken {ρ τ : Type} (tables : ChainTables ρ τ)
    (token : Method (Session Databases) WalletError τ) (key : TokenKey) (tx : DataDb) :
    Method (Session Databases) WalletError DataDb := do
  let found ← fetchIn env (fun db => rowsUnder tables.tokenKey key (tables.tokens db)) tx
  match found with
  | some _ => pure tx
  | none => do
    let row ← token
    statement env (fun n db => do
      let rows ← putRow env n ⟨default, row⟩ (tables.tokens db)
      .ok (tables.setTokens rows db)) tx

/-- The token of a balance on its chain. -/
def keepChainToken (netType : NetType) (t : MTokenAddress) (tx : DataDb) :
    Chain → Method (Session Databases) WalletError DataDb
  | .eth =>
    let token := do
      let contractAddr ← queryContractBySharedId env t.tokenId netType.toString
      pure (MEthChainToken.ofBalance t contractAddr)
    keepToken env ethChain token t.tokenKey tx
  | .eee => keepToken env eeeChain (pure (MEeeChainToken.ofBalance t)) t.tokenKey tx
  | .btc => keepToken env btcChain (pure (MBtcChainToken.ofBalance t)) t.tokenKey tx

/-- The balance is found and changed, or it is saved. -/
def keepBalance (t : Saved MTokenAddress) (tx : DataDb) :
    Method (Session Databases) WalletError DataDb := do
  let found ← fetchIn env (fun db => rowsUnder MTokenAddress.key t.row.key db.tokenAddress) tx
  match found with
  | some targetAddress =>
    statement env (fun n db => do
      let rows ← putRow env n
        ⟨targetAddress.shared, { targetAddress.row with balance := t.row.balance, status := 1 }⟩
        db.tokenAddress
      .ok { db with tokenAddress := rows }) tx
  | none =>
    statement env (fun n db => do
      let rows ← insertRow env n ⟨t.shared, { t.row with status := 1 }⟩ db.tokenAddress
      .ok { db with tokenAddress := rows }) tx

def updateAddressBalance (netType : NetType) (tokenAddress : Saved MTokenAddress) :
    Method (Session Databases) WalletError Unit := do
  let tx ← beginTx env.fails .rbatisError fun db : Databases => db.dataDb netType
  let chainType ← Method.lift (ChainType.ofText tokenAddress.row.chainType)
  let tx ← keepChainToken env netType tokenAddress.row tx chainType.chain
  let tx ← keepBalance env tokenAddress tx
  commitTx env.fails .rbatisError (fun db tx => db.updateDataDb netType fun _ => tx) tx

def queryAddressBalance (netType : NetType) (walletId : Text) :
    Method (Session Databases) WalletError (List (Saved MTokenAddress)) :=
  query env.fails .rbatisError fun db : Databases => .ok ((db.dataDb netType).tokenAddress.filter
    fun m => m.row.walletId = walletId ∧ m.row.status = 1)

end Functions

/-! ## Runs -/

inductive BalanceCall where
  /-- With an identifier, where the caller has set one. -/
  | updateAddressBalance (tokenAddress : Saved MTokenAddress)
  | changeNetType (netType : NetType)

/-- The databases, the active network, and what was written by the updates that returned `Ok`,
with the network that was active. -/
structure BalanceRun where
  session : Session Databases
  netType : NetType
  written : List (NetType × MTokenAddress)

namespace BalanceRun

def start (db : Databases) (netType : NetType) : BalanceRun := ⟨⟨db, 0⟩, netType, []⟩

/-- What a call leaves and returns. -/
def perform (env : Surroundings) (s : BalanceRun) :
    BalanceCall → Session Databases × Outcome WalletError Unit
  | .updateAddressBalance tokenAddress =>
    (updateAddressBalance env s.netType tokenAddress).run s.session
  | .changeNetType netType =>
    let (session, result) := (changeNetType env netType).run s.session
    (session, result >>= fun _ => .ok ())

def step (env : Surroundings) (s : BalanceRun) (call : BalanceCall) : BalanceRun :=
  let (session, result) := s.perform env call
  match call with
  | .updateAddressBalance tokenAddress =>
    { session := session
      netType := s.netType
      written := if result.isOk then s.written ++ [(s.netType, tokenAddress.row)] else s.written }
  | .changeNetType netType =>
    { s with session := session, netType := if result.isOk then netType else s.netType }

/-- The balance that was last written under a key on a network. -/
def lastWritten (s : BalanceRun) (netType : NetType) (key : TokenKey × Text) : Option Text :=
  ((s.written.filter fun w => w.1 = netType ∧ w.2.key = key).getLast?).map fun w => w.2.balance

end BalanceRun

/-- The keys of the tokens in the table of a chain. -/
def DataDb.tokenKeys (db : DataDb) : Chain → List TokenKey
  | .eth => db.ethChainToken.map fun m => ethChain.tokenKey m.row
  | .eee => db.eeeChainToken.map fun m => eeeChain.tokenKey m.row
  | .btc => db.btcChainToken.map fun m => btcChain.tokenKey m.row

/-- In the database of a network there is one balance for each key and one token for each key. -/
structure DataDb.OneEach (db : DataDb) : Prop where
  balances : Kept MTokenAddress.key db.tokenAddress
  tokens : ∀ chain, (db.tokenKeys chain).Nodup

/-! ## One call -/

/-- The token is in the table of its chain once it is kept, and nothing else has changed. -/
structure TokenKept (chain : Chain) (key : TokenKey) (tx tx' : DataDb) : Prop where
  balances : tx'.tokenAddress = tx.tokenAddress
  self : tx'.tokenKeys chain = insertUnique id key (tx.tokenKeys chain)
  others : ∀ c, c ≠ chain → tx'.tokenKeys c = tx.tokenKeys c

/-- The balance is the only one under its key, and nothing else has changed. -/
structure BalanceKept (t : MTokenAddress) (tx tx' : DataDb) : Prop where
  tokens : tx'.tokenKeys = tx.tokenKeys
  balance : ∃ m, Puts MTokenAddress.key tx.tokenAddress m tx'.tokenAddress ∧ m.row.key = t.key ∧
    m.row.balance = t.balance ∧ m.row.status = 1

/-- The tables of a chain have the keys of its tokens, and what is set there changes nothing
else. -/
structure ChainTables.HasKeys {ρ τ : Type} (tables : ChainTables ρ τ) : Prop where
  keys : ∀ db : DataDb,
    db.tokenKeys tables.chain = (tables.tokens db).map fun m => tables.tokenKey m.row
  keys_setTokens : ∀ rows db,
    (tables.setTokens rows db).tokenKeys tables.chain = rows.map fun m => tables.tokenKey m.row
  others : ∀ rows db c, c ≠ tables.chain →
    (tables.setTokens rows db).tokenKeys c = db.tokenKeys c
  balances : ∀ rows db, (tables.setTokens rows db).tokenAddress = db.tokenAddress

theorem hasKeys_ethChain : ethChain.HasKeys where
  keys _ := rfl
  keys_setTokens _ _ := rfl
  others rows db c hc := by
    cases c with
    | eth => exact absurd rfl hc
    | eee => rfl
    | btc => rfl
  balances _ _ := rfl

theorem hasKeys_eeeChain : eeeChain.HasKeys where
  keys _ := rfl
  keys_setTokens _ _ := rfl
  others rows db c hc := by
    cases c with
    | eth => rfl
    | eee => exact absurd rfl hc
    | btc => rfl
  balances _ _ := rfl

theorem hasKeys_btcChain : btcChain.HasKeys where
  keys _ := rfl
  keys_setTokens _ _ := rfl
  others rows db c hc := by
    cases c with
    | eth => rfl
    | eee => rfl
    | btc => exact absurd rfl hc
  balances _ _ := rfl

section Call

variable {env : Surroundings} {s : Session Databases} {tx : DataDb} {db : Databases}

/-- A method that has only read so far. -/
abbrev Reads (db : Databases) (s : Session Databases) : Prop := s.store = db

theorem leaves_fetchIn {α : Type} {read : DataDb → List α}
    {Q : Option α → Session Databases → Prop} (h : Reads db s)
    (hQ : ∀ found s', Reads db s' → fetchOne WalletError.rbatisError (read tx) = .ok found →
      Q found s') : Leaves (fetchIn env read tx) s (Reads db) Q :=
  Leaves.query h fun found hfound => hQ found _ h hfound

theorem leaves_statement {write : Nat → DataDb → Outcome WalletError DataDb}
    {Q : DataDb → Session Databases → Prop} (h : Reads db s)
    (hQ : ∀ tx' s', Reads db s' → write s.calls tx = .ok tx' → Q tx' s') :
    Leaves (statement env write tx) s (Reads db) Q :=
  Leaves.operation h h fun tx' htx' => hQ tx' _ h htx'

theorem leaves_queryContractBySharedId (tokenSharedId netType : Text) (h : Reads db s) :
    Leaves (queryContractBySharedId env tokenSharedId netType) s (Reads db)
      fun _ => Reads db := by
  apply Leaves.bind (Q := fun _ => Reads db) (Leaves.query h fun _ _ => h)
  intro tokenAuth s₁ h₁
  cases tokenAuth with
  | some token => exact Leaves.pure h₁ h₁
  | none =>
    apply Leaves.bind (Q := fun _ => Reads db) (Leaves.query h₁ fun _ _ => h₁)
    intro tokenNonAuth s₂ h₂
    cases tokenNonAuth with
    | some token => exact Leaves.pure h₂ h₂
    | none =>
      apply Leaves.bind (Q := fun _ => Reads db) (Leaves.query h₂ fun _ _ => h₂)
      intro tokenDefault s₃ h₃
      cases tokenDefault with
      | some token => exact Leaves.pure h₃ h₃
      | none => exact Leaves.lift h₃ fun _ he => nomatch he

/-- A token is found, or a row with its key is added to the table. -/
theorem leaves_keepToken {ρ τ : Type} {tables : ChainTables ρ τ} (htables : tables.HasKeys)
    {token : Method (Session Databases) WalletError τ} {key : TokenKey} (h : Reads db s)
    (htoken : ∀ s, Reads db s → Leaves token s (Reads db) fun row s' =>
      Reads db s' ∧ tables.tokenKey row = key) :
    Leaves (keepToken env tables token key tx) s (Reads db) fun tx' s' =>
      Reads db s' ∧ TokenKept tables.chain key tx tx' := by
  apply Leaves.bind (leaves_fetchIn h fun found s' h' hfound => And.intro h' hfound)
  rintro found s₁ ⟨h₁, hfound⟩
  have hrows := rowsUnder_of_fetchOne hfound
  cases found with
  | some m =>
    apply Leaves.pure h₁
    have hm : m ∈ rowsUnder tables.tokenKey key (tables.tokens tx) := by simp [hrows]
    have hmem : key ∈ tx.tokenKeys tables.chain := by
      rw [htables.keys]
      exact List.mem_map.mpr ⟨m, mem_rowsUnder.mp hm⟩
    exact ⟨h₁, rfl, (insertUnique_of_mem (by simpa using hmem)).symm, fun _ _ => rfl⟩
  | none =>
    apply Leaves.bind (htoken s₁ h₁)
    rintro row s₂ ⟨h₂, hkey⟩
    apply leaves_statement h₂
    intro tx' s₃ h₃ hwrite
    obtain ⟨rows, hput, hset⟩ := Outcome.bind_eq_ok.mp hwrite
    obtain rfl := Outcome.ok.inj hset
    -- a row without an identifier is inserted
    have hinsert : insertRow env s₂.calls ⟨default, row⟩ (tables.tokens tx) = .ok rows := hput
    unfold insertRow at hinsert
    dsimp only at hinsert
    split_ifs at hinsert
    obtain rfl := Outcome.ok.inj hinsert
    have hnot : key ∉ tx.tokenKeys tables.chain := by
      rw [htables.keys]
      intro hmem
      obtain ⟨m, hm⟩ := List.mem_map.mp hmem
      have hunder := mem_rowsUnder.mpr hm
      rw [hrows] at hunder
      simp at hunder
    refine ⟨h₃, htables.balances _ _, ?_, htables.others _ _⟩
    rw [htables.keys_setTokens, insertUnique_of_not_mem (by simpa using hnot), htables.keys,
      List.map_append, List.map_singleton, hkey]

theorem leaves_keepChainToken (netType : NetType) (t : MTokenAddress) (chain : Chain)
    (h : Reads db s) : Leaves (keepChainToken env netType t tx chain) s (Reads db)
      fun tx' s' => Reads db s' ∧ TokenKept chain t.tokenKey tx tx' := by
  cases chain with
  | eth =>
    apply leaves_keepToken hasKeys_ethChain h
    intro s h
    apply Leaves.bind (leaves_queryContractBySharedId _ _ h)
    exact fun contractAddr s' h' => Leaves.pure h' ⟨h', rfl⟩
  | eee => exact leaves_keepToken hasKeys_eeeChain h fun s h => Leaves.pure h ⟨h, rfl⟩
  | btc => exact leaves_keepToken hasKeys_btcChain h fun s h => Leaves.pure h ⟨h, rfl⟩

theorem leaves_keepBalance (huuid : ∀ n k, env.uuid n k ≠ []) (t : Saved MTokenAddress)
    (hkept : Kept MTokenAddress.key tx.tokenAddress) (h : Reads db s) :
    Leaves (keepBalance env t tx) s (Reads db) fun tx' s' =>
      Reads db s' ∧ BalanceKept t.row tx tx' := by
  apply Leaves.bind (leaves_fetchIn h fun found s' h' hfound => And.intro h' hfound)
  rintro found s₁ ⟨h₁, hfound⟩
  have hrows := rowsUnder_of_fetchOne hfound
  cases found with
  | some target =>
    have hmem : target ∈ rowsUnder MTokenAddress.key t.row.key tx.tokenAddress := by simp [hrows]
    obtain ⟨htarget, hkey⟩ := mem_rowsUnder.mp hmem
    apply leaves_statement h₁
    intro tx' s₂ h₂ hwrite
    obtain ⟨rows, hput, hset⟩ := Outcome.bind_eq_ok.mp hwrite
    obtain rfl := Outcome.ok.inj hset
    obtain ⟨m, hrow, hputs⟩ := puts_putRow (m := ⟨target.shared,
      { target.row with balance := t.row.balance, status := 1 }⟩) hkept htarget rfl rfl hput
    refine ⟨h₂, rfl, m, hputs, ?_, ?_, ?_⟩ <;> rw [hrow]
    exact hkey
  | none =>
    apply leaves_statement h₁
    intro tx' s₂ h₂ hwrite
    obtain ⟨rows, hinsert, hset⟩ := Outcome.bind_eq_ok.mp hwrite
    obtain rfl := Outcome.ok.inj hset
    obtain ⟨m, hrow, hputs⟩ :=
      puts_insertRow (m := ⟨t.shared, { t.row with status := 1 }⟩) hkept huuid hrows hinsert
    refine ⟨h₂, rfl, m, hputs, ?_, ?_, ?_⟩ <;> rw [hrow]
    rfl

/-- **One update** keeps the token and the balance on the active network, or changes nothing. -/
theorem allOrNothing_updateAddressBalance (huuid : ∀ n k, env.uuid n k ≠ []) (netType : NetType)
    (t : Saved MTokenAddress)
    (hkept : Kept MTokenAddress.key (s.store.dataDb netType).tokenAddress) :
    AllOrNothing (updateAddressBalance env netType t) s fun _ db => ∃ chainType tx tx',
      ChainType.ofText t.row.chainType = .ok chainType ∧
      TokenKept chainType.chain t.row.tokenKey (s.store.dataDb netType) tx ∧
      BalanceKept t.row tx tx' ∧ db = s.store.updateDataDb netType fun _ => tx' := by
  have hreads : Reads s.store s := rfl
  apply AllOrNothing.bind (P := fun tx _ => tx = s.store.dataDb netType)
    (Leaves.beginTx hreads ⟨hreads, rfl⟩)
  rintro _ s₁ h₁ rfl
  apply AllOrNothing.bind (P := fun c _ => ChainType.ofText t.row.chainType = .ok c)
    (Leaves.lift rfl fun _ hc => ⟨rfl, hc⟩)
  intro chainType s₂ h₂ hchain
  have h₂ : Reads s.store s₂ := h₂.trans h₁
  apply AllOrNothing.bind (P := fun tx _ => TokenKept chainType.chain t.row.tokenKey
    (s.store.dataDb netType) tx)
  · rw [h₂]
    exact leaves_keepChainToken netType t.row chainType.chain h₂
  intro tx s₃ h₃ htoken
  have h₃ : Reads s.store s₃ := h₃.trans h₂
  apply AllOrNothing.bind (P := fun tx' _ => BalanceKept t.row tx tx')
  · rw [h₃]
    exact leaves_keepBalance huuid t (htoken.balances ▸ hkept) h₃
  intro tx' s₄ h₄ hbalance
  apply AllOrNothing.commitTx
  rw [h₄, h₃]
  exact ⟨chainType, tx, tx', hchain, htoken, hbalance, rfl⟩
theorem allOrNothing_changeNetType (netType : NetType) :
    AllOrNothing (changeNetType env netType) s fun _ db => db.dataDb = s.store.dataDb := by
  have hreads : Reads s.store s := rfl
  apply AllOrNothing.bind (P := fun _ _ => True) (Leaves.query hreads fun _ _ => ⟨hreads, trivial⟩)
  intro setting s₁ h₁ _
  apply AllOrNothing.operation rfl
  show s₁.store.dataDb = _
  rw [h₁]

end Call

/-! ## Every run -/

section Run

variable {env : Surroundings} {s : BalanceRun}

/-- What is written last under a key is what was written last before, or just now. -/
theorem lastWritten_append (s : BalanceRun) (netType : NetType) (t : MTokenAddress) (n : NetType)
    (k : TokenKey × Text) :
    BalanceRun.lastWritten { s with written := s.written ++ [(netType, t)] } n k =
      if netType = n ∧ t.key = k then some t.balance else s.lastWritten n k := by
  unfold BalanceRun.lastWritten
  rw [List.filter_append]
  split_ifs with h
  · rw [List.filter_cons_of_pos (by simpa using h), List.filter_nil, List.getLast?_concat]
    rfl
  · rw [List.filter_cons_of_neg (by simpa using h), List.filter_nil, List.append_nil]

/-- The invariant: every network has one row each, what was written last is there, and every token
that was written is in the table of its chain. -/
structure BalanceRun.Holds (s : BalanceRun) : Prop where
  oneEach : ∀ n, (s.session.store.dataDb n).OneEach
  balances : ∀ n k b, s.lastWritten n k = some b →
    ∃ m, rowsUnder MTokenAddress.key k (s.session.store.dataDb n).tokenAddress = [m] ∧
      m.row.balance = b ∧ m.row.status = 1
  tokens : ∀ w ∈ s.written, ∃ chainType, ChainType.ofText w.2.chainType = .ok chainType ∧
    w.2.tokenKey ∈ (s.session.store.dataDb w.1).tokenKeys chainType.chain

theorem holds_start {db : Databases} (hdb : ∀ n, (db.dataDb n).OneEach) (netType : NetType) :
    (BalanceRun.start db netType).Holds where
  oneEach := hdb
  balances n k b h := by cases h
  tokens w hw := by cases hw

/-- The databases of the networks decide, and what was written. -/
theorem BalanceRun.Holds.congr (h : s.Holds) {session : Session Databases} (netType : NetType)
    (hdata : session.store.dataDb = s.session.store.dataDb) :
    BalanceRun.Holds { s with session := session, netType := netType } where
  oneEach n := by
    show (session.store.dataDb n).OneEach
    rw [hdata]
    exact h.oneEach n
  balances n k b hb := by
    show ∃ m, rowsUnder _ k (session.store.dataDb n).tokenAddress = [m] ∧ _
    rw [hdata]
    exact h.balances n k b hb
  tokens w hw := by
    show ∃ chainType, _ ∧ _ ∈ (session.store.dataDb w.1).tokenKeys _
    rw [hdata]
    exact h.tokens w hw

/-- A token that is kept stays unique, and those that were there stay. -/
theorem TokenKept.mem {chain c : Chain} {key k : TokenKey} {tx tx' : DataDb}
    (h : TokenKept chain key tx tx') (hk : k ∈ tx.tokenKeys c) : k ∈ tx'.tokenKeys c := by
  by_cases hc : c = chain
  · rw [hc] at hk ⊢
    rw [h.self]
    exact mem_insertUnique.mpr (Or.inl hk)
  · rwa [h.others c hc]

theorem TokenKept.nodup {chain : Chain} {key : TokenKey} {tx tx' : DataDb}
    (h : TokenKept chain key tx tx') (htx : ∀ c, (tx.tokenKeys c).Nodup) (c : Chain) :
    (tx'.tokenKeys c).Nodup := by
  by_cases hc : c = chain
  · rw [hc, h.self]
    have hnodup := @insertUnique_nodup TokenKey TokenKey _ id key (tx.tokenKeys chain)
    simpa using hnodup (by simpa using htx chain)
  · rw [h.others c hc]
    exact htx c

theorem TokenKept.key_mem {chain : Chain} {key : TokenKey} {tx tx' : DataDb}
    (h : TokenKept chain key tx tx') : key ∈ tx'.tokenKeys chain := by
  rw [h.self]
  have hmem := @key_mem_insertUnique TokenKey TokenKey _ id key (tx.tokenKeys chain)
  simpa using hmem

/-- A successful update keeps the invariant. -/
theorem holds_written (h : s.Holds) {t : MTokenAddress} {chainType : ChainType} {tx tx' : DataDb}
    {calls : Nat} (hchain : ChainType.ofText t.chainType = .ok chainType)
    (htoken : TokenKept chainType.chain t.tokenKey (s.session.store.dataDb s.netType) tx)
    (hbalance : BalanceKept t tx tx') :
    BalanceRun.Holds
      { session := ⟨s.session.store.updateDataDb s.netType fun _ => tx', calls⟩
        netType := s.netType
        written := s.written ++ [(s.netType, t)] } := by
  obtain ⟨m, hputs, hkey, hm, hstatus⟩ := hbalance.balance
  rw [htoken.balances] at hputs
  have hdata (n : NetType) : (s.session.store.updateDataDb s.netType fun _ => tx').dataDb n =
      if n = s.netType then tx' else s.session.store.dataDb n := rfl
  constructor
  · intro n
    rw [hdata]
    split_ifs with hn
    · refine ⟨hputs.kept, fun c => ?_⟩
      rw [hbalance.tokens]
      exact htoken.nodup (h.oneEach s.netType).tokens c
    · exact h.oneEach n
  · intro n k b hb
    have hlast := lastWritten_append s s.netType t n k
    rw [hdata]
    change BalanceRun.lastWritten { s with written := s.written ++ [(s.netType, t)] } n k = _ at hb
    rw [hlast] at hb
    split_ifs at hb with hnow
    · -- the balance that was written just now
      obtain ⟨rfl, rfl⟩ := hnow
      rw [if_pos rfl, ← hkey]
      exact ⟨m, hputs.self, hm.trans (Option.some.inj hb), hstatus⟩
    · obtain ⟨m', hrows, hm'⟩ := h.balances n k b hb
      split_ifs with hn
      · -- another key on the same network
        have hne : k ≠ m.row.key := fun heq => hnow ⟨hn.symm, (heq.trans hkey).symm⟩
        rw [hputs.others k hne, ← hn]
        exact ⟨m', hrows, hm'⟩
      · -- another network
        exact ⟨m', hrows, hm'⟩
  · intro w hw
    rw [hdata]
    rcases List.mem_append.mp hw with hw | hw
    · obtain ⟨c, hc, hmem⟩ := h.tokens w hw
      refine ⟨c, hc, ?_⟩
      split_ifs with hn
      · rw [hbalance.tokens]
        exact htoken.mem (hn ▸ hmem)
      · exact hmem
    · -- the token that was written just now
      obtain rfl := List.mem_singleton.mp hw
      refine ⟨chainType, hchain, ?_⟩
      rw [if_pos rfl, hbalance.tokens]
      exact htoken.key_mem

section Step

variable {session : Session Databases}

theorem step_updateAddressBalance {t : Saved MTokenAddress} {result : Outcome WalletError Unit}
    (hrun : (updateAddressBalance env s.netType t).run s.session = (session, result)) :
    s.perform env (.updateAddressBalance t) = (session, result) ∧
      s.step env (.updateAddressBalance t) =
        { session := session
          netType := s.netType
          written := if result.isOk then s.written ++ [(s.netType, t.row)] else s.written } := by
  simp only [BalanceRun.step, BalanceRun.perform, hrun, and_self]

theorem step_changeNetType {netType : NetType} {result : Outcome WalletError Nat}
    (hrun : (changeNetType env netType).run s.session = (session, result)) :
    s.perform env (.changeNetType netType) = (session, result >>= fun _ => .ok ()) ∧
      s.step env (.changeNetType netType) =
        { s with session := session, netType := if result.isOk then netType else s.netType } := by
  simp only [BalanceRun.step, BalanceRun.perform, hrun, true_and]
  cases result <;> rfl

end Step

/-- **One step** keeps the invariant. -/
theorem holds_step (huuid : ∀ n k, env.uuid n k ≠ []) (h : s.Holds) (call : BalanceCall) :
    (s.step env call).Holds := by
  cases call with
  | updateAddressBalance t =>
    have hupdate := allOrNothing_updateAddressBalance huuid s.netType t
      (h.oneEach s.netType).balances
    unfold AllOrNothing at hupdate
    rcases hrun : (updateAddressBalance env s.netType t).run s.session with ⟨session, result⟩
    rw [(step_updateAddressBalance hrun).2]
    rw [hrun] at hupdate
    rcases hupdate with
      ⟨hfails, hsame⟩ | ⟨_, rfl, chainType, tx, tx', hchain, htoken, hbalance, hdb⟩
    · -- nothing was written
      have hfails : result.isOk = false := hfails
      rw [hfails]
      exact h.congr s.netType (congrArg Databases.dataDb hsame)
    · have hsession : session = ⟨s.session.store.updateDataDb s.netType fun _ => tx',
          session.calls⟩ := by
        rw [← hdb]
      rw [hsession]
      exact holds_written h hchain htoken hbalance
  | changeNetType netType =>
    have hchange := @allOrNothing_changeNetType env s.session netType
    unfold AllOrNothing at hchange
    rcases hrun : (changeNetType env netType).run s.session with ⟨session, result⟩
    rw [(step_changeNetType hrun).2]
    rw [hrun] at hchange
    rcases hchange with ⟨_, hsame⟩ | ⟨_, _, hdata⟩
    · exact h.congr _ (congrArg Databases.dataDb hsame)
    · exact h.congr _ hdata

/-- Calls that return an error change neither the databases nor the active network. -/
theorem step_of_err (huuid : ∀ n k, env.uuid n k ≠ []) (h : s.Holds) (call : BalanceCall)
    (herr : (s.perform env call).2.IsErr) :
    (s.step env call).session.store = s.session.store ∧ (s.step env call).netType = s.netType := by
  cases call with
  | updateAddressBalance t =>
    have hupdate := allOrNothing_updateAddressBalance huuid s.netType t
      (h.oneEach s.netType).balances
    unfold AllOrNothing at hupdate
    rcases hrun : (updateAddressBalance env s.netType t).run s.session with ⟨session, result⟩
    obtain ⟨hperform, hstep⟩ := step_updateAddressBalance hrun
    rw [hperform] at herr
    rw [hstep]
    rw [hrun] at hupdate
    rcases hupdate with ⟨_, hsame⟩ | ⟨_, rfl, _⟩
    · exact ⟨hsame, rfl⟩
    · cases herr
  | changeNetType netType =>
    have hchange := @allOrNothing_changeNetType env s.session netType
    unfold AllOrNothing at hchange
    rcases hrun : (changeNetType env netType).run s.session with ⟨session, result⟩
    obtain ⟨hperform, hstep⟩ := step_changeNetType hrun
    rw [hperform] at herr
    rw [hstep]
    rw [hrun] at hchange
    rcases hchange with ⟨hfails, hsame⟩ | ⟨_, rfl, _⟩
    · have hfails : result.isOk = false := hfails
      rw [hfails]
      exact ⟨hsame, rfl⟩
    · cases herr

theorem holds_run (huuid : ∀ n k, env.uuid n k ≠ []) (h : s.Holds) (calls : List BalanceCall) :
    (run (BalanceRun.step env) s calls).Holds := by
  induction calls generalizing s with
  | nil => exact h
  | cons call calls ih => exact ih (holds_step huuid h call)

end Run

/-! ## What a run leaves -/

/-- What is promised of the balances after a run. -/
structure BalancesKept (env : Surroundings) (s : BalanceRun) : Prop where
  /-- A network has at most one row for each key. -/
  unique : ∀ n,
    ((s.session.store.dataDb n).tokenAddress.map fun m => m.row.key).Nodup
  /-- A query finds, under each key of the wallet that was written on the active network, what was
  written last. -/
  queried : ∀ env' walletId rows,
    ((queryAddressBalance env' s.netType walletId).run s.session).2 = .ok rows →
      ∀ k b, k.1.1 = walletId → s.lastWritten s.netType k = some b →
        (rowsUnder MTokenAddress.key k rows).map (fun m => m.row.balance) = [b]
  /-- It is answered unless the database fails. -/
  answered : ∀ walletId,
    ((queryAddressBalance env.calm s.netType walletId).run s.session).2.isOk = true
  /-- Each token that was written has one row. -/
  tokens : ∀ w ∈ s.written, ∃ chainType, ChainType.ofText w.2.chainType = .ok chainType ∧
    ((s.session.store.dataDb w.1).tokenKeys chainType.chain).count w.2.tokenKey = 1
  /-- A call that returns an error changes nothing. -/
  errors : ∀ call, (s.perform env call).2.IsErr →
    (s.step env call).session.store = s.session.store ∧ (s.step env call).netType = s.netType

/-- A query returns the rows of the wallet that are displayed. -/
theorem eq_of_queryAddressBalance {env : Surroundings} {netType : NetType} {walletId : Text}
    {s : Session Databases} {rows : List (Saved MTokenAddress)}
    (h : ((queryAddressBalance env netType walletId).run s).2 = .ok rows) :
    rows = (s.store.dataDb netType).tokenAddress.filter
      fun m => m.row.walletId = walletId ∧ m.row.status = 1 := by
  unfold queryAddressBalance at h
  by_cases hfails : env.fails s.calls = true
  · rw [run_query_of_fails hfails] at h
    cases h
  · rw [run_query_of_not_fails (Bool.eq_false_iff.mpr hfails)] at h
    exact (Outcome.ok.inj h).symm

/-- **Balances.** After every sequence of updates and changes of the network, starting from
databases with one row each, the last update under a key counts. -/
theorem balancesKept_run (env : Surroundings) (huuid : ∀ n k, env.uuid n k ≠ [])
    (db : Databases) (hdb : ∀ n, (db.dataDb n).OneEach) (netType : NetType)
    (calls : List BalanceCall) :
    BalancesKept env (run (BalanceRun.step env) (BalanceRun.start db netType) calls) := by
  have h := holds_run huuid (holds_start hdb netType) calls
  generalize run (BalanceRun.step env) (BalanceRun.start db netType) calls = s at h
  constructor
  · exact fun n => (h.oneEach n).balances.keys
  · intro env' walletId rows hquery k b hk hlast
    obtain ⟨m, hrows, hm, hstatus⟩ := h.balances s.netType k b hlast
    have hmem : m ∈ rowsUnder MTokenAddress.key k (s.session.store.dataDb s.netType).tokenAddress :=
      by simp [hrows]
    have hkey := (mem_rowsUnder.mp hmem).2
    have hwallet : m.row.walletId = walletId := by
      rw [← hk, ← hkey]
      rfl
    -- the row of the key is one of the wallet's, and displayed
    have hfilter : rowsUnder MTokenAddress.key k rows = [m] := by
      rw [eq_of_queryAddressBalance hquery]
      unfold rowsUnder at hrows ⊢
      rw [List.filter_filter]
      have hcomm : (fun a : Saved MTokenAddress => decide (a.row.key = k) &&
          decide (a.row.walletId = walletId ∧ a.row.status = 1)) =
          fun a => decide (a.row.walletId = walletId ∧ a.row.status = 1) &&
            decide (a.row.key = k) := funext fun a => Bool.and_comm ..
      rw [hcomm, ← List.filter_filter, hrows]
      simp [hwallet, hstatus]
    rw [hfilter, List.map_singleton, hm]
  · intro walletId
    rfl
  · intro w hw
    obtain ⟨chainType, hchain, hmem⟩ := h.tokens w hw
    exact ⟨chainType, hchain, List.count_eq_one_of_mem ((h.oneEach w.1).tokens _) hmem⟩
  · exact fun call => step_of_err huuid h call


/-! ## A balance that is written twice -/

/-- Nothing fails, and every operation draws an identifier of its own. -/
def numbered : Surroundings where
  fails _ := false
  uuid n k := List.replicate (n + 1) 'u' ++ List.replicate k 'k'
  nowTsSeconds _ := 0

/-- Databases without rows. -/
def noRows : Databases where
  walletsDb := ⟨[], [], [], [], [], [], [], [], [], [], [], [], []⟩
  mnemonicDb := []
  dataDb _ := ⟨[], [], [], [], [], [], []⟩

theorem oneEach_noRows (n : NetType) : (noRows.dataDb n).OneEach where
  balances := .nil
  tokens chain := by cases chain <;> exact List.nodup_nil

/-- The balance of an address in a token of a wallet. -/
def balanceOf (balance : Text) : BalanceCall :=
  .updateAddressBalance ⟨default, ⟨['w'], "EEE".toList, ['t'], ['a'], balance, 0⟩⟩

theorem balancesKept_run_twice : BalancesKept numbered (run (BalanceRun.step numbered)
    (BalanceRun.start noRows .main) [balanceOf ['1'], balanceOf ['2']]) :=
  balancesKept_run numbered (fun _ _ => by simp [numbered]) noRows oneEach_noRows .main _

example : (((queryAddressBalance numbered .main ['w']).run (run (BalanceRun.step numbered)
    (BalanceRun.start noRows .main)
      [balanceOf ['1'], .changeNetType .test, balanceOf ['3'], .changeNetType .main,
        balanceOf ['2']]).session).2 >>= fun rows => .ok (rows.map fun m => m.row.balance)) =
    (.ok [['2']] : Outcome WalletError _) := by
  decide

end Cashbox.Wallets
