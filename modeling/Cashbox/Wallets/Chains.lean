import Mathlib.Data.List.Sort
import Cashbox.Lib.LeftJoin
import Cashbox.Lib.Plan
import Cashbox.Wallets.Database

/-!
# The chains of a wallet

A wallet has an address and some tokens on each of three chains. What a chain does when a
wallet is created or loaded is the same on all three but for its tables, the columns of a
token, and the statements that select the rows.
-/

namespace Cashbox.Wallets

open Cashbox.Lib

/-! ## Types of wallets and chains -/

inductive WalletType where
  | normal
  | test
  deriving DecidableEq, Repr

namespace WalletType

def toString : WalletType → Text
  | normal => "Normal".toList
  | test => "Test".toList

/-- Any other text is a test wallet, too. -/
def ofText (walletType : Text) : WalletType :=
  if walletType = normal.toString then normal else test

def ofNetType (netType : NetType) : WalletType := if netType = .main then normal else test

def checkChainTypeMatch (walletType : WalletType) (netType : NetType) : Bool :=
  if walletType = normal ∧ netType = .main then true
  else walletType = test ∧ netType ≠ .main

@[simp] theorem ofText_toString (walletType : WalletType) :
    ofText walletType.toString = walletType := by
  cases walletType <;> decide

theorem toString_injective : Function.Injective toString :=
  Function.LeftInverse.injective ofText_toString

/-- On a network there are wallets of one type. -/
theorem ofNetType_of_match {walletType : WalletType} {netType : NetType}
    (h : walletType.checkChainTypeMatch netType = true) : ofNetType netType = walletType := by
  revert h
  cases walletType <;> cases netType <;> decide

end WalletType

inductive ChainType where
  | btc
  | btcTest
  | eth
  | ethTest
  | eee
  | eeeTest
  | btcPrivate
  | btcPrivateTest
  | ethPrivate
  | ethPrivateTest
  | eeePrivate
  | eeePrivateTest
  deriving DecidableEq, Repr

def ChainType.toString : ChainType → Text
  | btc => "BTC".toList
  | btcTest => "BtcTest".toList
  | btcPrivate => "BtcPrivate".toList
  | btcPrivateTest => "BtcPrivateTest".toList
  | eth => "ETH".toList
  | ethTest => "EthTest".toList
  | ethPrivate => "EthPrivate".toList
  | ethPrivateTest => "EthPrivateTest".toList
  | eee => "EEE".toList
  | eeeTest => "EeeTest".toList
  | eeePrivate => "EeePrivate".toList
  | eeePrivateTest => "EeePrivateTest".toList

/-- The chains that a wallet is on. -/
inductive Chain where
  | eth
  | eee
  | btc
  deriving DecidableEq, Repr

/-- `WalletTrait::chains` -/
def Chain.chains : List Chain := [eth, eee, btc]

/-- `Chain2WalletType::chain_type` -/
def Chain.chainType : Chain → WalletType → NetType → ChainType
  | eth, .normal, .main => .eth
  | eth, .test, .test => .ethTest
  | eth, .test, .private' => .ethPrivate
  | eth, .test, .privateTest => .ethPrivateTest
  | eth, _, _ => .ethTest
  | eee, .normal, .main => .eee
  | eee, .test, .test => .eeeTest
  | eee, .test, .private' => .eeePrivate
  | eee, .test, .privateTest => .eeePrivateTest
  | eee, _, _ => .eeeTest
  | btc, .normal, .main => .btc
  | btc, .test, .test => .btcTest
  | btc, .test, .private' => .btcPrivate
  | btc, .test, .privateTest => .btcPrivateTest
  | btc, _, _ => .btcTest

/-! ## Addresses -/

/-- The libraries that derive keys and addresses and keep secrets. -/
structure Libraries where
  keccak256 : Bytes → Bytes
  encryptMnemonic : Bytes → Bytes → Text
  /-- `pri_from_mnemonic` and `generate_eth_address` -/
  generateEthAddress : Text → Except WalletError (Text × Text)
  /-- `seed_from_phrase`, which may fail, and what is made of the seed -/
  generateEeeAddress : Text → Option (Text × Text)
  generateBtcAddress : Bytes → Text → Except WalletError (Text × Text)

/-- `MAddress::default` with what a chain fills in. -/
def MAddress.ofChain (chainType : ChainType) (address publicKey : Text) : MAddress where
  walletId := []
  chainType := chainType.toString
  address := address
  publicKey := publicKey
  isWalletAddress := 0
  show' := 0

/-- `ChainTrait::generate_address`. The bytes of the mnemonic are those of a string, so that it
can always be read as one. -/
def Chain.generateAddress (lib : Libraries) (chain : Chain) (mn : Text) (walletType : WalletType)
    (netType : NetType) : Outcome WalletError MAddress :=
  let chainType := chain.chainType walletType netType
  match chain with
  | eth => do
    let (addr, puk) ← Outcome.ofExcept (lib.generateEthAddress mn)
    pure (MAddress.ofChain chainType addr puk)
  | eee => do
    -- `unwrap`: a phrase without a seed is a panic here
    let (addr, puk) ← Outcome.ofSome (lib.generateEeeAddress mn)
    pure (MAddress.ofChain chainType addr puk)
  | btc => do
    let (addr, puk) ← Outcome.ofExcept (lib.generateBtcAddress mn.asBytes chainType.toString)
    pure (MAddress.ofChain chainType addr puk)

/-! ## Tables -/

/-- What differs between the chains: `ρ` are the rows of the default tokens, and `τ` those of
the tokens. -/
structure ChainTables (ρ τ : Type) where
  chain : Chain
  /-- The table of the shared tokens, as errors name it. -/
  sharedName : String
  shared : WalletsDb → List (Saved MChainTokenShared)
  defaults : WalletsDb → List (Saved ρ)
  base : ρ → MChainTokenDefault
  /-- Which of the default tokens of a network are listed. -/
  list : List (Saved ρ) → Outcome WalletError (List (Saved ρ))
  tokens : DataDb → List (Saved τ)
  setTokens : List (Saved τ) → DataDb → DataDb
  /-- The token of a wallet that is made of a default token. -/
  token : ρ → MChainTokenShared → Text → ChainType → τ
  tokenSharedId : τ → Text
  tokenWalletId : τ → Text
  tokenChainType : τ → Text
  /-- What is made of the rows that are found where one is wanted. -/
  one : {α : Type} → List α → Outcome WalletError (Option α)

def cTrue : UInt32 := 1

/-- `where net_type = … order by position`, of any status. -/
def EthChain.list (rows : List (Saved MEthChainTokenDefault)) :
    Outcome WalletError (List (Saved MEthChainTokenDefault)) :=
  .ok (rows.insertionSort fun a b => a.row.position ≤ b.row.position)

/-- What the statement is written to select; the result is an `Option`. Its `order position by`
is no SQL: where a wallet is created, this is one of the operations that may fail. -/
def EeeChain.list (rows : List (Saved MEeeChainTokenDefault)) :
    Outcome WalletError (List (Saved MEeeChainTokenDefault)) := do
  let row ← fetchOne .rbatisError (rows.filter fun t => t.row.status = 1)
  pure row.toList

def BtcChain.list (rows : List (Saved MBtcChainTokenDefault)) :
    Outcome WalletError (List (Saved MBtcChainTokenDefault)) :=
  .ok ((rows.filter fun t => t.row.status = 1).insertionSort
    fun a b => b.row.position ≤ a.row.position)

def ethChain : ChainTables MEthChainTokenDefault MEthChainToken where
  chain := .eth
  sharedName := "m_eth_chain_token_shared"
  shared db := db.ethChainTokenShared
  defaults db := db.ethChainTokenDefault
  base t := t.toMChainTokenDefault
  list := EthChain.list
  tokens db := db.ethChainToken
  setTokens rows db := { db with ethChainToken := rows }
  token t _ walletId chainType :=
    { nextId := []
      chainTokenSharedId := t.chainTokenSharedId
      walletId := walletId
      chainType := chainType.toString
      contractAddress := t.contractAddress
      show' := cTrue
      -- the decimals are not filled in on this chain
      decimal := 0 }
  tokenSharedId t := t.chainTokenSharedId
  tokenWalletId t := t.walletId
  tokenChainType t := t.chainType
  -- `limit 1`
  one rows := .ok rows.head?

def eeeChain : ChainTables MEeeChainTokenDefault MEeeChainToken where
  chain := .eee
  sharedName := "m_eee_chain_token_shared"
  shared db := db.eeeChainTokenShared
  defaults db := db.eeeChainTokenDefault
  base t := t
  list := EeeChain.list
  tokens db := db.eeeChainToken
  setTokens rows db := { db with eeeChainToken := rows }
  token t shared walletId chainType :=
    { nextId := []
      chainTokenSharedId := t.chainTokenSharedId
      walletId := walletId
      chainType := chainType.toString
      show' := cTrue
      decimal := shared.decimal }
  tokenSharedId t := t.chainTokenSharedId
  tokenWalletId t := t.walletId
  tokenChainType t := t.chainType
  one := fetchOne .rbatisError

def btcChain : ChainTables MBtcChainTokenDefault MBtcChainToken where
  chain := .btc
  sharedName := "m_btc_chain_token_shared"
  shared db := db.btcChainTokenShared
  defaults db := db.btcChainTokenDefault
  base t := t
  list := BtcChain.list
  tokens db := db.btcChainToken
  setTokens rows db := { db with btcChainToken := rows }
  token t shared walletId chainType :=
    { nextId := []
      chainTokenSharedId := t.chainTokenSharedId
      walletId := walletId
      chainType := chainType.toString
      show' := cTrue
      decimal := shared.decimal }
  tokenSharedId t := t.chainTokenSharedId
  tokenWalletId t := t.walletId
  tokenChainType t := t.chainType
  one := fetchOne .rbatisError

/-! ## Default tokens -/

section

variable {ρ τ : Type} (env : Surroundings) (tables : ChainTables ρ τ)

/-- The default tokens of a network. -/
def ChainTables.defaultsOf (netType : NetType) (db : WalletsDb) : List (Saved ρ) :=
  (tables.defaults db).filter fun t => (tables.base t.row).netType = netType.toString

/-- `…TokenShared::list_by_net_type`, a left join. -/
def ChainTables.sharedOf (netType : NetType) (db : WalletsDb) :
    Outcome WalletError (List (Saved MChainTokenShared)) :=
  decodeRows .rbatisError (leftJoin (fun b : Saved ρ => (tables.base b.row).chainTokenSharedId)
    (fun a => a.shared.id) (tables.shared db) (tables.defaultsOf netType db))

/-- The last one under the identifier counts. -/
def findShared (tokensShared : List (Saved MChainTokenShared)) (id : Text) : MChainTokenShared :=
  ((tokensShared.filter fun a => a.shared.id = id).getLast?.map fun a => a.row).getD default

/-- `…TokenDefault::list_by_net_type` -/
def listByNetType (netType : NetType) :
    Method (Session Databases) WalletError (List (ρ × MChainTokenShared)) := do
  let tokensShared ← query env.fails .rbatisError fun db =>
    tables.sharedOf netType db.walletsDb
  let tokensDefault ← query env.fails .rbatisError fun db =>
    tables.list (tables.defaultsOf netType db.walletsDb)
  pure (tokensDefault.map fun t =>
    (t.row, findShared tokensShared (tables.base t.row).chainTokenSharedId))

/-- `save_batch` -/
def saveBatch {κ : Type} (n : Nat) (rows : List (Saved κ)) : List (Saved κ) :=
  rows.mapIdx fun k r => ⟨beforeSave env n k r.shared, r.row⟩

/-- `generate_default_token` of a chain -/
def generateDefaultTokenOf (wallet : Saved MWallet) (address : Saved MAddress)
    (netType : NetType) : Method (Session Databases) WalletError Unit := do
  let walletType := WalletType.ofText wallet.row.walletType
  let chainType := tables.chain.chainType walletType netType
  let tx ← beginTx env.fails .rbatisError fun db : Databases => db.dataDb netType
  let defaultTokens ← listByNetType env tables netType
  let tokens : List (Saved τ) := defaultTokens.map fun t =>
    ⟨default, tables.token t.1 t.2 wallet.shared.id chainType⟩
  let tokenAddressBalances : List (Saved MTokenAddress) := defaultTokens.map fun t =>
    ⟨default,
      { walletId := wallet.shared.id
        chainType := chainType.toString
        tokenId := (tables.base t.1).chainTokenSharedId
        addressId := address.shared.id
        balance := ['0']
        status := 1 }⟩
  let tx ← inTx env.fails .rbatisError
    (fun n db => tables.setTokens (tables.tokens db ++ saveBatch env n tokens) db) tx
  let tx ← inTx env.fails .rbatisError
    (fun n (db : DataDb) =>
      { db with tokenAddress := db.tokenAddress ++ saveBatch env n tokenAddressBalances }) tx
  commitTx env.fails .rbatisError (fun db dataDb => db.updateDataDb netType fun _ => dataDb) tx

end

/-- `ChainTrait::generate_default_token` -/
def Chain.generateDefaultToken (env : Surroundings) (chain : Chain) (wallet : Saved MWallet)
    (address : Saved MAddress) (netType : NetType) :
    Method (Session Databases) WalletError Unit :=
  match chain with
  | eth => generateDefaultTokenOf env ethChain wallet address netType
  | eee => generateDefaultTokenOf env eeeChain wallet address netType
  | btc => generateDefaultTokenOf env btcChain wallet address netType

/-! ## Loading -/

/-- What is loaded of a chain. -/
structure LoadedChain (τ : Type) where
  walletId : Text
  chainType : Text
  walletAddress : Option (Saved MAddress)
  tokens : List (Saved τ × Saved MChainTokenShared)

section

variable {ρ τ : Type} (env : Surroundings) (tables : ChainTables ρ τ)

/-- The tokens of a wallet. -/
def ChainTables.tokensOf (walletId : Text) (chainType : ChainType) (db : DataDb) :
    List (Saved τ) :=
  (tables.tokens db).filter fun t =>
    tables.tokenWalletId t.row = walletId ∧ tables.tokenChainType t.row = chainType.toString

/-- `load` of a token -/
def loadToken (token : Saved τ) :
    Method (Session Databases) WalletError (Saved τ × Saved MChainTokenShared) := do
  let id := tables.tokenSharedId token.row
  let tokenShared ← query env.fails .rbatisError fun db : Databases =>
    tables.one ((tables.shared db.walletsDb).filter fun a => a.shared.id = id)
  let tokenShared ← Method.lift (Outcome.okOr (.noneError tables.sharedName id) tokenShared)
  pure (token, tokenShared)

def loadTokens : Option (Saved τ) →
    Method (Session Databases) WalletError (List (Saved τ × Saved MChainTokenShared))
  | none => pure []
  | some w => do
    let token ← loadToken env tables w
    pure [token]

/-- `load` of a chain -/
def loadChain (mw : Saved MWallet) (netType : NetType) :
    Method (Session Databases) WalletError (LoadedChain τ) := do
  let walletType := WalletType.ofText mw.row.walletType
  let chainType := tables.chain.chainType walletType netType
  let walletAddress ← query env.fails .rbatisError fun db : Databases =>
    .ok (db.walletsDb.address.filter fun a =>
      a.row.walletId = mw.shared.id ∧ a.row.chainType = chainType.toString).head?
  let w ← query env.fails .rbatisError fun db : Databases =>
    tables.one (tables.tokensOf mw.shared.id chainType (db.dataDb netType))
  let tokens ← loadTokens env tables w
  pure
    { walletId := mw.shared.id
      chainType := chainType.toString
      walletAddress := walletAddress
      tokens := tokens }

end

end Cashbox.Wallets
