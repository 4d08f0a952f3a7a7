import Cashbox.Lib.Database
import Cashbox.Eee.Error

/-!
# The databases of the wallet

The rows of the tables that the wallet reads and writes, and the operations on them. Each
row has the columns of every table, which are filled in when it is saved. A statement that
would break the key of a table is one of the operations that fail.
-/

namespace Cashbox.Wallets

open Cashbox.Lib

/-! ## Errors -/

inductive WalletError where
  | noRecord (text : String)
  | custom (text : String)
  /-- An error of the database module, by its text. -/
  | db (text : String)
  | decode (e : Eth.FromHexError)
  /-- Bytes that are no UTF-8. -/
  | fromUtf8 (bytes : Bytes)
  | substrateTx (e : Eee.Error)
  | noneError (table : String) (id : Text)
  | rbatisError
  | notExist
  /-- An error of the libraries that derive addresses and keep mnemonics. -/
  | crypto
  deriving DecidableEq, Repr

/-! ## Rows -/

/-- The columns of every table. -/
structure Shared where
  id : Text
  createTime : Int64
  updateTime : Int64
  deriving DecidableEq

instance : Inhabited Shared := ⟨[], 0, 0⟩

/-- A row with the columns of every table. -/
structure Saved (ρ : Type) where
  shared : Shared
  row : ρ
  deriving DecidableEq

/-- What the operations take from the surroundings, by their numbers: which of them fail, the
identifiers that are drawn for the rows they save, and the time. -/
structure Surroundings where
  fails : Nat → Bool
  uuid : Nat → Nat → Text
  nowTsSeconds : Nat → Int64

/-- The surroundings in which no operation fails. -/
def Surroundings.calm (env : Surroundings) : Surroundings := { env with fails := fun _ => false }

/-- Identifiers are drawn once. -/
structure Surroundings.DrawsOnce (env : Surroundings) : Prop where
  ne_nil : ∀ n k, env.uuid n k ≠ []
  injective : ∀ n n', env.uuid n 0 = env.uuid n' 0 → n = n'

/-- `before_save` of the `k`-th row of the `n`-th operation. -/
def beforeSave (env : Surroundings) (n k : Nat) (shared : Shared) : Shared :=
  if shared.id = [] then
    { id := env.uuid n k, createTime := env.nowTsSeconds n, updateTime := env.nowTsSeconds n }
  else { shared with updateTime := env.nowTsSeconds n }

def beforeUpdate (env : Surroundings) (n : Nat) (shared : Shared) : Shared :=
  { shared with updateTime := env.nowTsSeconds n }

/-- The rows under the identifier of a row become that row. -/
def updateById {ρ : Type} (m : Saved ρ) (rows : List (Saved ρ)) : List (Saved ρ) :=
  rows.map fun r => if r.shared.id = m.shared.id then m else r

/-- The rows that an update by identifier leaves. -/
theorem mem_updateById {ρ : Type} {m r : Saved ρ} {rows : List (Saved ρ)}
    (hr : r ∈ updateById m rows) : r = m ∨ r ∈ rows ∧ r.shared.id ≠ m.shared.id := by
  obtain ⟨r', hr', hif⟩ := List.mem_map.mp hr
  by_cases hid : r'.shared.id = m.shared.id
  · rw [if_pos hid] at hif
    exact .inl hif.symm
  · rw [if_neg hid] at hif
    exact .inr ⟨hif ▸ hr', hif ▸ hid⟩

theorem map_id_updateById {ρ : Type} (m : Saved ρ) (rows : List (Saved ρ)) :
    (updateById m rows).map (fun r => r.shared.id) = rows.map fun r => r.shared.id := by
  unfold updateById
  rw [List.map_map]
  refine List.map_congr_left fun r _ => ?_
  by_cases hid : r.shared.id = m.shared.id
  · simp [hid]
  · simp [hid]

/-- `save_update`: a row without an identifier is new. -/
def saveUpdate {ρ : Type} (env : Surroundings) (n : Nat) (m : Saved ρ) (rows : List (Saved ρ)) :
    Saved ρ × List (Saved ρ) :=
  if m.shared.id = [] then
    let m : Saved ρ := ⟨beforeSave env n 0 m.shared, m.row⟩
    (m, rows ++ [m])
  else
    let m : Saved ρ := ⟨beforeUpdate env n m.shared, m.row⟩
    (m, updateById m rows)

structure TxShared where
  txHash : Text
  blockHash : Text
  blockNumber : Text
  signer : Text
  txBytes : Text
  txTimestamp : Int64
  deriving DecidableEq

/-- The tables of the two tokens have the same columns. -/
structure EeeTx where
  txShared : TxShared
  walletAccount : Text
  fromAddress : Text
  toAddress : Text
  value : Text
  status : UInt32
  extension : Text
  deriving DecidableEq

abbrev MEeeChainTx := EeeTx
abbrev MEeeTokenxTx := EeeTx

structure MSubChainBasicInfo where
  genesisHash : Text
  metadata : Text
  runtimeVersion : Int32
  txVersion : Int32
  ss58FormatPrefix : Int32
  tokenDecimals : Int32
  tokenSymbol : Text
  isDefault : UInt32
  deriving DecidableEq

inductive EeeTokenType where
  | eee
  | tokenX
  deriving DecidableEq, Repr

structure MWallet where
  nextId : Text
  name : Text
  mnemonicDigest : Text
  mnemonic : Text
  walletType : Text
  show' : UInt32
  deriving DecidableEq

structure MAddress where
  walletId : Text
  chainType : Text
  address : Text
  publicKey : Text
  isWalletAddress : UInt32
  show' : UInt32
  deriving DecidableEq

structure MSetting where
  keyStr : Text
  valueStr : Text
  deriving DecidableEq

structure MMnemonic where
  mnemonicDigest : Text
  mnemonic : Text
  walletType : Text
  name : Text
  deriving DecidableEq

structure MTokenAddress where
  walletId : Text
  chainType : Text
  tokenId : Text
  addressId : Text
  balance : Text
  status : Int64
  deriving DecidableEq

structure MEthChainToken where
  nextId : Text
  chainTokenSharedId : Text
  walletId : Text
  chainType : Text
  contractAddress : Text
  show' : UInt32
  decimal : Int32
  deriving DecidableEq

structure MEeeChainToken where
  nextId : Text
  chainTokenSharedId : Text
  walletId : Text
  chainType : Text
  show' : UInt32
  decimal : Int32
  deriving DecidableEq

structure MBtcChainToken where
  nextId : Text
  chainTokenSharedId : Text
  walletId : Text
  chainType : Text
  show' : UInt32
  decimal : Int32
  deriving DecidableEq

structure MTokenShared where
  name : Text
  symbol : Text
  logoUrl : Text
  logoBytes : Text
  projectName : Text
  projectHome : Text
  projectNote : Text
  deriving DecidableEq, Inhabited

/-- What a token is on every network. The tables of the chains have the same columns but for
the fees, which are left out. -/
structure MChainTokenShared extends MTokenShared where
  tokenType : Text
  decimal : Int32
  deriving DecidableEq, Inhabited

abbrev MEthChainTokenShared := MChainTokenShared
abbrev MEeeChainTokenShared := MChainTokenShared
abbrev MBtcChainTokenShared := MChainTokenShared

/-- A token that a new wallet has. -/
structure MChainTokenDefault where
  chainTokenSharedId : Text
  netType : Text
  /-- It is shown in this place. -/
  position : Int64
  status : Int64
  deriving DecidableEq

abbrev MEeeChainTokenDefault := MChainTokenDefault
abbrev MBtcChainTokenDefault := MChainTokenDefault

structure MEthChainTokenDefault extends MChainTokenDefault where
  contractAddress : Text
  deriving DecidableEq

/-- The tables of the tokens that a wallet may have have the same columns. -/
abbrev MEeeChainTokenAuth := MChainTokenDefault
abbrev MBtcChainTokenAuth := MChainTokenDefault
abbrev MEthChainTokenAuth := MEthChainTokenDefault
abbrev MEthChainTokenNonAuth := MEthChainTokenDefault

/-! ## The databases of the networks -/

inductive NetType where
  | main
  | test
  | private'
  | privateTest
  deriving DecidableEq, Repr

def NetType.toString : NetType → Text
  | main => "Main".toList
  | test => "Test".toList
  | private' => "Private".toList
  | privateTest => "PrivateTest".toList

/-- `NetType::iter` -/
def NetType.iter : List NetType := [main, test, private', privateTest]

theorem NetType.mem_iter (netType : NetType) : netType ∈ iter := by
  cases netType <;> decide

structure DataDb where
  tokenAddress : List (Saved MTokenAddress)
  ethChainToken : List (Saved MEthChainToken)
  eeeChainToken : List (Saved MEeeChainToken)
  btcChainToken : List (Saved MBtcChainToken)
  subChainBasicInfo : List (Saved MSubChainBasicInfo)
  eeeChainTx : List (Saved MEeeChainTx)
  eeeTokenxTx : List (Saved MEeeTokenxTx)

namespace DataDb

/-- The transactions of a token. -/
def eeeTx (db : DataDb) : EeeTokenType → List (Saved EeeTx)
  | .eee => db.eeeChainTx
  | .tokenX => db.eeeTokenxTx

def setEeeTx (db : DataDb) (token : EeeTokenType) (rows : List (Saved EeeTx)) : DataDb :=
  match token with
  | .eee => { db with eeeChainTx := rows }
  | .tokenX => { db with eeeTokenxTx := rows }

@[simp] theorem eeeTx_setEeeTx (db : DataDb) (token : EeeTokenType) (rows : List (Saved EeeTx)) :
    (db.setEeeTx token rows).eeeTx token = rows := by
  cases token <;> rfl

theorem eeeTx_setEeeTx_of_ne {db : DataDb} {token token' : EeeTokenType} (h : token' ≠ token)
    (rows : List (Saved EeeTx)) : (db.setEeeTx token rows).eeeTx token' = db.eeeTx token' := by
  cases token <;> cases token' <;> first | rfl | exact absurd rfl h

end DataDb

/-! ## All databases -/

structure WalletsDb where
  wallet : List (Saved MWallet)
  address : List (Saved MAddress)
  setting : List (Saved MSetting)
  ethChainTokenShared : List (Saved MEthChainTokenShared)
  eeeChainTokenShared : List (Saved MEeeChainTokenShared)
  btcChainTokenShared : List (Saved MBtcChainTokenShared)
  ethChainTokenDefault : List (Saved MEthChainTokenDefault)
  eeeChainTokenDefault : List (Saved MEeeChainTokenDefault)
  btcChainTokenDefault : List (Saved MBtcChainTokenDefault)
  ethChainTokenAuth : List (Saved MEthChainTokenAuth)
  eeeChainTokenAuth : List (Saved MEeeChainTokenAuth)
  btcChainTokenAuth : List (Saved MBtcChainTokenAuth)
  ethChainTokenNonAuth : List (Saved MEthChainTokenNonAuth)

/-- The wallets, the backup of their mnemonics, and the database of each network. -/
structure Databases where
  walletsDb : WalletsDb
  mnemonicDb : List (Saved MMnemonic)
  dataDb : NetType → DataDb

/-- The database of a network changes. -/
def Databases.updateDataDb (db : Databases) (netType : NetType) (f : DataDb → DataDb) :
    Databases :=
  { db with dataDb := fun n => if n = netType then f (db.dataDb n) else db.dataDb n }

end Cashbox.Wallets
