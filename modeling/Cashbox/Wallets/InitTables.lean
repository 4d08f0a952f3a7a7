import Cashbox.Wallets.Database

/-!
# Creating the databases

The six databases are made of tables that the first start creates, with the tokens that
every wallet has. A start is known to be the first by the version number of the wallets
database, which it sets before anything else.
-/

namespace Cashbox.Wallets.InitTables

open Cashbox.Lib

/-! ## Tables -/

inductive DbNameType where
  | cashboxWallets
  | cashboxMnemonic
  | walletMainnet
  | walletPrivate
  | walletTestnet
  | walletTestnetPrivate
  deriving DecidableEq

/-- `Db::data_db` -/
def dataDb : NetType → DbNameType
  | .main => .walletMainnet
  | .test => .walletTestnet
  | .private' => .walletPrivate
  | .privateTest => .walletTestnetPrivate

/-- The name of the table of a type; the script of the type creates the table of this name. -/
inductive TableName where
  | mWallet | mChainTypeMeta | mAddress | mSetting | mMnemonic
  | mEthChainTokenShared | mEthChainTokenAuth | mEthChainTokenNonAuth | mEthChainTokenDefault
  | mEeeChainTokenShared | mEeeChainTokenAuth | mEeeChainTokenDefault
  | mBtcChainTokenShared | mBtcChainTokenAuth | mBtcChainTokenDefault
  | mTokenAddress | mEthChainToken | mEthChainTx | mEeeChainToken | mEeeChainTx | mEeeTokenxTx
  | mBtcChainToken | mBtcChainTx | mBtcInputTx | mBtcOutputTx | mSubChainBasicInfo
  | mAccountInfoSyncProg
  deriving DecidableEq

/-- The columns of a shared token that depend on the chain. -/
inductive Fees where
  | gas (gasLimit : Int64) (gasPrice : Text)
  | feePerByte (fee : Int64)
  deriving DecidableEq

structure TokenShared extends MChainTokenShared where
  fees : Fees
  deriving DecidableEq

structure TokenDefault extends MChainTokenDefault where
  /-- a column of the table of Ethereum only -/
  contractAddress : Option Text
  deriving DecidableEq

/-- The rows that the first start saves. -/
inductive Row where
  | tokenShared (row : Saved TokenShared)
  | tokenDefault (row : Saved TokenDefault)
  deriving DecidableEq

/-! ## Statements -/

/-- What is executed with the text of a script or of a statement. -/
inductive Statement where
  | setUserVersion (version : Int)
  /-- `CREATE TABLE IF NOT EXISTS` -/
  | createTable (name : TableName)
  | deleteFrom (name : TableName)
  /-- `drop table if exists` -/
  | dropTable (name : TableName)
  deriving DecidableEq

structure Database where
  userVersion : Int
  tables : TableName → Option (List Row)

namespace Database

/-- A file without tables. -/
def fresh : Database := ⟨0, fun _ => none⟩

def setTable (d : Database) (name : TableName) (rows : Option (List Row)) : Database :=
  { d with tables := fun t => if t = name then rows else d.tables t }

/-- The database after a statement, or none where there is no such table. -/
def exec (d : Database) : Statement → Option Database
  | .setUserVersion version => some { d with userVersion := version }
  | .createTable name => some (d.setTable name (some ((d.tables name).getD [])))
  | .deleteFrom name => if (d.tables name).isSome then some (d.setTable name (some [])) else none
  | .dropTable name => some (d.setTable name none)

end Database

structure Databases where
  db : DbNameType → Database
  /-- the statements that were executed since the start, which the code does not keep -/
  executed : List (DbNameType × Statement)

namespace Databases

def fresh : Databases := ⟨fun _ => .fresh, []⟩

def setDb (s : Databases) (rb : DbNameType) (d : Database) : Databases :=
  { s with db := fun name => if name = rb then d else s.db name }

end Databases

inductive Error where
  /-- an error of the database -/
  | sql
  | text (err : String)
  deriving DecidableEq

/-- What a start does. -/
abbrev Start := Method (Session Databases) Error

section Code

variable (env : Surroundings)

/-- `RBatis::exec` -/
def exec (rb : DbNameType) (sql : Statement) : Start Unit :=
  operation env.fails .sql fun _ s =>
    match (s.db rb).exec sql with
    | some d => ({ s.setDb rb d with executed := (rb, sql) :: s.executed }, .ok ())
    | none => (s, .err .sql)

/-- The rows of a table of the wallets database. -/
def select (name : TableName) (found : List Row → Outcome Error α) : Start α :=
  query env.fails .sql fun s =>
    match (s.db .cashboxWallets).tables name with
    | some rows => found rows
    | none => .err .sql

/-- `before_save` and `insert` of a new row. -/
def save {ρ : Type} (name : TableName) (row : ρ) (toRow : Saved ρ → Row) : Start (Saved ρ) :=
  operation env.fails .sql fun n s =>
    let saved : Saved ρ := ⟨beforeSave env n 0 default, row⟩
    match (s.db .cashboxWallets).tables name with
    | some rows =>
      (s.setDb .cashboxWallets
        ((s.db .cashboxWallets).setTable name (some (rows ++ [toRow saved]))), .ok saved)
    | none => (s, .err .sql)

/-! ## Creating the tables -/

inductive DbCreateType where
  | notExists
  | cleanData
  | drop
  deriving DecidableEq

/-- `create_table`: the script that creates a table, and the name of a table. -/
def createTable (rb : DbNameType) (sql name : TableName) : DbCreateType → Start Unit
  | .notExists => exec env rb (.createTable sql)
  | .cleanData => do
    exec env rb (.createTable sql)
    exec env rb (.deleteFrom name)
  | .drop => do
    exec env rb (.dropTable name)
    exec env rb (.createTable sql)

/-- Calls of `create_table`, one after the other. -/
def createTables (rb : DbNameType) (createType : DbCreateType) :
    List (TableName × TableName) → Start Unit
  | [] => pure ()
  | (sql, name) :: tables => do
    createTable env rb sql name createType
    createTables rb createType tables

end Code

/-- The scripts and names of `create_table_mnemonic`. -/
def mnemonicTables : List (TableName × TableName) := [(.mMnemonic, .mMnemonic)]

/-- The scripts and names of `create_table_wallets`. -/
def walletsTables : List (TableName × TableName) :=
  [(.mWallet, .mWallet),
    (.mChainTypeMeta, .mChainTypeMeta),
    (.mAddress, .mAddress),
    (.mSetting, .mSetting),
    -- the name is that of another table
    (.mEthChainTokenShared, .mEeeChainTokenShared),
    (.mEthChainTokenAuth, .mEthChainTokenAuth),
    (.mEthChainTokenNonAuth, .mEthChainTokenNonAuth),
    (.mEthChainTokenDefault, .mEthChainTokenDefault),
    (.mEeeChainTokenShared, .mEeeChainTokenShared),
    (.mEeeChainTokenAuth, .mEeeChainTokenAuth),
    (.mEeeChainTokenDefault, .mEeeChainTokenDefault),
    (.mBtcChainTokenShared, .mBtcChainTokenShared),
    (.mBtcChainTokenAuth, .mBtcChainTokenAuth),
    (.mBtcChainTokenDefault, .mBtcChainTokenDefault)]

/-- The scripts and names of `create_table_data`. -/
def dataTables : List (TableName × TableName) :=
  [(.mTokenAddress, .mTokenAddress),
    (.mEthChainToken, .mEthChainToken),
    (.mEthChainTx, .mEthChainTx),
    (.mEeeChainToken, .mEeeChainToken),
    (.mEeeChainTx, .mEeeChainTx),
    (.mEeeTokenxTx, .mEeeTokenxTx),
    (.mBtcChainToken, .mBtcChainToken),
    (.mBtcChainTx, .mBtcChainTx),
    (.mBtcInputTx, .mBtcInputTx),
    (.mBtcOutputTx, .mBtcOutputTx),
    (.mSubChainBasicInfo, .mSubChainBasicInfo),
    (.mAccountInfoSyncProg, .mAccountInfoSyncProg)]

section Create

variable (env : Surroundings) (createType : DbCreateType)

def createTableWallets : Start Unit := createTables env .cashboxWallets createType walletsTables

def createTableMnemonic : Start Unit := createTables env .cashboxMnemonic createType mnemonicTables

def createTableData (rb : DbNameType) : Start Unit := createTables env rb createType dataTables

/-- The loop of `create` over the networks. -/
def createData : List NetType → Start Unit
  | [] => pure ()
  | netType :: netTypes => do
    createTableData env createType (dataDb netType)
    createData netTypes

def create : Start Unit := do
  createTableWallets env createType
  createTableMnemonic env createType
  createData env createType NetType.iter

end Create

/-! ## Inserting the tokens -/

/-- The token of a chain that every wallet has, with its tables. -/
structure ChainToken where
  shared : TokenShared
  tableShared : TableName
  tableDefault : TableName
  contractAddress : Option Text
  /-- the queries for a row end in `limit 1` -/
  limited : Bool

def eth : ChainToken where
  shared :=
    { tokenType := "Eth".toList
      fees := .gas 0 []
      decimal := 18
      name := "Ethereum".toList
      symbol := "ETH".toList
      projectName := "ethereum".toList
      projectHome := "https://ethereum.org/zh/".toList
      projectNote :=
        "Ethereum is a global, open-source platform for decentralized applications.".toList
      logoUrl := []
      logoBytes := [] }
  tableShared := .mEthChainTokenShared
  tableDefault := .mEthChainTokenDefault
  contractAddress := some []
  limited := true

def eee : ChainToken where
  shared :=
    { tokenType := "Eee".toList
      fees := .gas 0 []
      decimal := 15
      name := "EEE".toList
      symbol := "EEE".toList
      projectName := "EEE".toList
      projectHome := "https://scry.info".toList
      projectNote := "EEE is a global".toList
      logoUrl := []
      logoBytes := [] }
  tableShared := .mEeeChainTokenShared
  tableDefault := .mEeeChainTokenDefault
  contractAddress := none
  limited := true

def btc : ChainToken where
  shared :=
    { tokenType := "Btc".toList
      fees := .feePerByte 19
      decimal := 18
      name := "Bitcoin".toList
      symbol := "BTC".toList
      projectName := "Bitcoin".toList
      projectHome := "https://bitcoin.org/en/".toList
      projectNote :=
        "Bitcoin is a global, open-source platform for decentralized applications.".toList
      logoUrl := []
      logoBytes := [] }
  tableShared := .mBtcChainTokenShared
  tableDefault := .mBtcChainTokenDefault
  contractAddress := none
  limited := false

namespace ChainToken

variable (chain : ChainToken)

/-- The row that a query finds; without a limit several rows are an error. -/
def fetch (rows : List α) : Outcome Error (Option α) :=
  if chain.limited then .ok rows.head? else fetchOne .sql rows

/-- The shared tokens of the type of the token. -/
def rowsShared (rows : List Row) : List (Saved TokenShared) :=
  rows.filterMap fun
    | .tokenShared r => if r.row.tokenType = chain.shared.tokenType then some r else none
    | .tokenDefault _ => none

/-- The defaults of a shared token on a network. -/
def rowsDefault (sharedId netType : Text) (rows : List Row) : List (Saved TokenDefault) :=
  rows.filterMap fun
    | .tokenDefault r =>
      if r.row.chainTokenSharedId = sharedId ∧ r.row.netType = netType then some r else none
    | .tokenShared _ => none

/-- The default on a network. -/
def tokenDefault (sharedId : Text) (netType : NetType) : TokenDefault where
  chainTokenSharedId := sharedId
  netType := netType.toString
  position := 0
  status := 1
  contractAddress := chain.contractAddress

variable (env : Surroundings)

/-- The loop over the networks. -/
def insertDefaults (sharedId : Text) : List NetType → Start Unit
  | [] => pure ()
  | netType :: netTypes => do
    let old ← select env chain.tableDefault fun rows =>
      chain.fetch (rowsDefault sharedId netType.toString rows)
    match old with
    | none =>
      let _ ← save env chain.tableDefault (chain.tokenDefault sharedId netType) .tokenDefault
      insertDefaults sharedId netTypes
    | some _ => insertDefaults sharedId netTypes

/-- One of the three parts of `insert_chain_token`. -/
def insert : Start Unit := do
  let old ← select env chain.tableShared fun rows => chain.fetch (chain.rowsShared rows)
  let tokenShared ← match old with
    | some t => pure t
    | none => save env chain.tableShared chain.shared .tokenShared
  chain.insertDefaults env tokenShared.shared.id NetType.iter

end ChainToken

def insertChainToken (env : Surroundings) : Start Unit := do
  eth.insert env
  eee.insert env
  btc.insert env

/-! ## Starts -/

/-- `VERSION` -/
def version : Int := 1

/-- `update`: there is nothing to update yet, but 0 is no version to update from. -/
def update (from' : Int) : Start Unit :=
  if from' = version then pure ()
  else if from' = 0 then Method.lift (.panic .assertFailed)
  else pure ()

def initTables (env : Surroundings) (createType : DbCreateType) : Start Unit := do
  let userVersion ← query env.fails .sql fun s => .ok (s.db .cashboxWallets).userVersion
  if userVersion = 0 then
    exec env .cashboxWallets (.setUserVersion version)
    create env createType
    insertChainToken env
  else if userVersion ≠ version then
    if userVersion < version then update userVersion
    else Method.lift (.err (.text
      "Current application version is higher,please uninstall and reinstall"))
  else pure ()

end Cashbox.Wallets.InitTables
