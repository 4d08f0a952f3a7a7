import Cashbox.Lib.Upsert
import Cashbox.Wallets.Chains

/-!
# Replacing a list of tokens

Seven functions replace the active tokens of a table, in one transaction: all rows are
disabled, and for each token of the list the shared token is saved and then the row that
refers to it. They are one algorithm over different tables. Five of them look the shared
token up outside of the transaction, where a token that the list names twice is not found.
-/

namespace Cashbox.Wallets

open Cashbox.Lib

/-! ## Rows and tables -/

/-- The rows of the tables that hold lists of tokens. -/
class TokenRow (ρ : Type) where
  base : ρ → MChainTokenDefault
  /-- Empty on the chains whose tokens have no contract. -/
  contractAddress : ρ → Text
  make : MChainTokenDefault → Text → ρ
  base_make : ∀ b c, base (make b c) = b
  contractAddress_make : ∀ b r, contractAddress (make b (contractAddress r)) = contractAddress r
  make_base : ∀ r, make (base r) (contractAddress r) = r

instance : TokenRow MChainTokenDefault where
  base r := r
  contractAddress _ := []
  make b _ := b
  base_make _ _ := rfl
  contractAddress_make _ _ := rfl
  make_base _ := rfl

instance : TokenRow MEthChainTokenDefault where
  base r := r.toMChainTokenDefault
  contractAddress r := r.contractAddress
  make b contractAddress := { b with contractAddress }
  base_make _ _ := rfl
  contractAddress_make _ _ := rfl
  make_base _ := rfl

namespace TokenRow

variable {ρ : Type} [TokenRow ρ]

/-- A row with another status. -/
def setStatus (status : Int64) (r : ρ) : ρ := make { base r with status } (contractAddress r)

/-- The row that is there takes the contract and the position of the token. -/
def setPosition (token r : ρ) : ρ :=
  make { base r with position := (base token).position } (contractAddress token)

/-- The token becomes a row, with its shared token. -/
def setSharedId (chainTokenSharedId : Text) (token : ρ) : ρ :=
  make { base token with chainTokenSharedId } (contractAddress token)

end TokenRow

/-- The tables that a list is kept in. -/
structure TokenTables (ρ : Type) where
  shared : List (Saved MChainTokenShared)
  rows : List (Saved ρ)

/-- What differs between the functions. -/
structure TokenTable (ρ : Type) where
  /-- Whether shared tokens are looked up in the transaction. -/
  inTx : Bool
  read : WalletsDb → TokenTables ρ
  write : TokenTables ρ → WalletsDb → WalletsDb
  read_write : ∀ tx db, read (write tx db) = tx
  write_read : ∀ db, write (read db) db = db
  write_write : ∀ tx tx' db, write tx (write tx' db) = write tx db

/-- The databases after tables are committed. -/
def TokenTable.commit {ρ : Type} (table : TokenTable ρ) (tx : TokenTables ρ) (db : Databases) :
    Databases := { db with walletsDb := table.write tx db.walletsDb }

@[simp] theorem TokenTable.read_commit {ρ : Type} (table : TokenTable ρ) (tx : TokenTables ρ)
    (db : Databases) : table.read (table.commit tx db).walletsDb = tx := table.read_write ..

/-- A token of a list, with its shared token. -/
structure ListedToken (ρ : Type) where
  m : Saved ρ
  tokenShared : Saved MChainTokenShared

/-- The databases, and a transaction that is neither committed nor rolled back. -/
structure TokenStore where
  db : Databases
  left : Option WalletsDb

/-! ## The algorithm -/

section Algorithm

open TokenRow

variable (env : Surroundings) {ρ : Type} [TokenRow ρ] (table : TokenTable ρ)

/-- `update … set status = 0` -/
def disableAll (tx : TokenTables ρ) : TokenTables ρ :=
  { tx with rows := tx.rows.map fun r => ⟨r.shared, setStatus 0 r.row⟩ }

/-- Where shared tokens are looked up: with an empty transaction id only what is committed is
seen. -/
def sharedSeen (tx : TokenTables ρ) (store : TokenStore) : List (Saved MChainTokenShared) :=
  if table.inTx then tx.shared else (table.read store.db.walletsDb).shared

def fetchShared (symbol : Text) (shared : List (Saved MChainTokenShared)) :
    Outcome WalletError (Option (Saved MChainTokenShared)) :=
  fetchOne .rbatisError (shared.filter fun a => a.row.symbol = symbol)

def fetchRow (chainTokenSharedId netType : Text) (rows : List (Saved ρ)) :
    Outcome WalletError (Option (Saved ρ)) :=
  fetchOne .rbatisError (rows.filter fun r =>
    (base r.row).chainTokenSharedId = chainTokenSharedId ∧ (base r.row).netType = netType)

/-- The shared token takes the identifier of the one that is there. -/
def ListedToken.sharedToSave (token : ListedToken ρ) :
    Option (Saved MChainTokenShared) → Saved MChainTokenShared
  | some tokenShared =>
    ⟨{ token.tokenShared.shared with id := tokenShared.shared.id }, token.tokenShared.row⟩
  | none => token.tokenShared

/-- check if this default is exist! -/
def ListedToken.rowToSave (token : ListedToken ρ) (chainTokenSharedId : Text) :
    Option (Saved ρ) → Saved ρ
  | some r => ⟨r.shared, setStatus 1 (setPosition token.m.row r.row)⟩
  | none => ⟨token.m.shared, setStatus 1 (setSharedId chainTokenSharedId token.m.row)⟩

/-- The first block of the loop -/
def saveShared (token : ListedToken ρ) (tx : TokenTables ρ) :
    Method (Session TokenStore) WalletError (Saved MChainTokenShared × TokenTables ρ) := do
  let tokenShared ← query env.fails .rbatisError fun store =>
    fetchShared token.tokenShared.row.symbol (sharedSeen table tx store)
  inTx env.fails .rbatisError
    (fun n (shared, tx) =>
      let (shared, rows) := saveUpdate env n shared tx.shared
      (shared, { tx with shared := rows })) (token.sharedToSave tokenShared, tx)

/-- The second block of the loop -/
def saveRow (token : ListedToken ρ) (chainTokenSharedId : Text) (tx : TokenTables ρ) :
    Method (Session TokenStore) WalletError (TokenTables ρ) := do
  let row ← query env.fails .rbatisError fun _ : TokenStore =>
    fetchRow chainTokenSharedId (base token.m.row).netType tx.rows
  inTx env.fails .rbatisError
    (fun n tx =>
      { tx with rows := (saveUpdate env n (token.rowToSave chainTokenSharedId row) tx.rows).2 }) tx

/-- One token of the list -/
def updateToken (token : ListedToken ρ) (tx : TokenTables ρ) :
    Method (Session TokenStore) WalletError (TokenTables ρ) := do
  let (shared, tx) ← saveShared env table token tx
  saveRow env token shared.shared.id tx

/-- The loop over the list -/
def updateEach : List (ListedToken ρ) → TokenTables ρ →
    Method (Session TokenStore) WalletError (TokenTables ρ)
  | [], tx => pure tx
  | token :: tokens, tx => do
    let tx ← updateToken env table token tx
    updateEach tokens tx

/-- What is done before the transaction is committed. -/
def fillTx (tokens : List (ListedToken ρ)) :
    Method (Session TokenStore) WalletError (TokenTables ρ) := do
  let tx ← beginTx env.fails .rbatisError fun store : TokenStore => table.read store.db.walletsDb
  let tx ← inTx env.fails .rbatisError (fun _ => disableAll) tx
  updateEach env table tokens tx

/-- A statement that fails before the guard of the transaction has lost its manager is followed
by a rollback. -/
def updateTokens (tokens : List (ListedToken ρ)) :
    Method (Session TokenStore) WalletError Unit := do
  let tx ← fillTx env table tokens
  -- `tx.manager = None`: from here on nothing is rolled back
  Method.modify fun s =>
    { s with store := { s.store with left := some (table.write tx s.store.db.walletsDb) } }
  execute env.fails .rbatisError fun _ store => { db := table.commit tx store.db, left := none }

end Algorithm

/-! ## The functions -/

section Functions

def ethDefaultTable : TokenTable MEthChainTokenDefault where
  inTx := true
  read db := ⟨db.ethChainTokenShared, db.ethChainTokenDefault⟩
  write tx db := { db with ethChainTokenShared := tx.shared, ethChainTokenDefault := tx.rows }
  read_write _ _ := rfl
  write_read _ := rfl
  write_write _ _ _ := rfl

def ethAuthTable : TokenTable MEthChainTokenAuth where
  inTx := false
  read db := ⟨db.ethChainTokenShared, db.ethChainTokenAuth⟩
  write tx db := { db with ethChainTokenShared := tx.shared, ethChainTokenAuth := tx.rows }
  read_write _ _ := rfl
  write_read _ := rfl
  write_write _ _ _ := rfl

def ethNonAuthTable : TokenTable MEthChainTokenNonAuth where
  inTx := false
  read db := ⟨db.ethChainTokenShared, db.ethChainTokenNonAuth⟩
  write tx db := { db with ethChainTokenShared := tx.shared, ethChainTokenNonAuth := tx.rows }
  read_write _ _ := rfl
  write_read _ := rfl
  write_write _ _ _ := rfl

def eeeDefaultTable : TokenTable MEeeChainTokenDefault where
  inTx := true
  read db := ⟨db.eeeChainTokenShared, db.eeeChainTokenDefault⟩
  write tx db := { db with eeeChainTokenShared := tx.shared, eeeChainTokenDefault := tx.rows }
  read_write _ _ := rfl
  write_read _ := rfl
  write_write _ _ _ := rfl

def eeeAuthTable : TokenTable MEeeChainTokenAuth where
  inTx := false
  read db := ⟨db.eeeChainTokenShared, db.eeeChainTokenAuth⟩
  write tx db := { db with eeeChainTokenShared := tx.shared, eeeChainTokenAuth := tx.rows }
  read_write _ _ := rfl
  write_read _ := rfl
  write_write _ _ _ := rfl

def btcDefaultTable : TokenTable MBtcChainTokenDefault where
  inTx := false
  read db := ⟨db.btcChainTokenShared, db.btcChainTokenDefault⟩
  write tx db := { db with btcChainTokenShared := tx.shared, btcChainTokenDefault := tx.rows }
  read_write _ _ := rfl
  write_read _ := rfl
  write_write _ _ _ := rfl

def btcAuthTable : TokenTable MBtcChainTokenAuth where
  inTx := false
  read db := ⟨db.btcChainTokenShared, db.btcChainTokenAuth⟩
  write tx db := { db with btcChainTokenShared := tx.shared, btcChainTokenAuth := tx.rows }
  read_write _ _ := rfl
  write_read _ := rfl
  write_write _ _ _ := rfl

variable (env : Surroundings)

def EthChain.updateDefaultTokens (tokens : List (ListedToken MEthChainTokenDefault)) :
    Method (Session TokenStore) WalletError Unit := updateTokens env ethDefaultTable tokens

def EthChain.updateAuthTokens (tokens : List (ListedToken MEthChainTokenAuth)) :
    Method (Session TokenStore) WalletError Unit := updateTokens env ethAuthTable tokens

def EthChain.updateNonAuthTokens (tokens : List (ListedToken MEthChainTokenNonAuth)) :
    Method (Session TokenStore) WalletError Unit := updateTokens env ethNonAuthTable tokens

def EeeChain.updateDefaultTokens (tokens : List (ListedToken MEeeChainTokenDefault)) :
    Method (Session TokenStore) WalletError Unit := updateTokens env eeeDefaultTable tokens

def EeeChain.updateAuthTokens (tokens : List (ListedToken MEeeChainTokenAuth)) :
    Method (Session TokenStore) WalletError Unit := updateTokens env eeeAuthTable tokens

def BtcChain.updateDefaultTokens (tokens : List (ListedToken MBtcChainTokenDefault)) :
    Method (Session TokenStore) WalletError Unit := updateTokens env btcDefaultTable tokens

def BtcChain.updateAuthTokens (tokens : List (ListedToken MBtcChainTokenAuth)) :
    Method (Session TokenStore) WalletError Unit := updateTokens env btcAuthTable tokens

end Functions

end Cashbox.Wallets
