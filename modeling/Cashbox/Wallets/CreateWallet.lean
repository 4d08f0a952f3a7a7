import Cashbox.Crypto.Hex
import Cashbox.Wallets.Chains
import Cashbox.Wallets.RemoveWallet

/-!
# Creating a wallet

`create_wallet` saves a wallet and its addresses in one transaction of the wallets database.
While that is open, the default tokens of each chain are saved in the database of each
network, each in a transaction of its own that is committed at once, and the mnemonic is saved
in a database without a transaction. Whatever fails after the first of these leaves rows of a
wallet that is not there.
-/

namespace Cashbox.Wallets

open Cashbox.Lib Cashbox.Crypto

variable (env : Surroundings) (lib : Libraries)

/-! ## The function -/

structure CreateWalletParameters where
  name : Text
  password : Text
  mnemonic : Text
  walletType : Text

structure Wallet where
  m : Saved MWallet
  ethChain : LoadedChain MEthChainToken
  eeeChain : LoadedChain MEeeChainToken
  btcChain : LoadedChain MBtcChainToken

/-- Which wallets have the mnemonic already: for a test wallet only normal wallets count. -/
def duplicates (digest : Text) (walletType : WalletType) (db : WalletsDb) : List (Saved MWallet) :=
  if walletType = .test then
    db.wallet.filter fun w =>
      w.row.mnemonicDigest = digest ∧ w.row.walletType = WalletType.normal.toString
  else
    db.wallet.filter fun w => w.row.mnemonicDigest = digest

def checkDuplicateMnemonic (digest : Text) (walletType : WalletType) :
    Method (Session Databases) WalletError (List (Saved MWallet)) :=
  query env.fails .rbatisError fun db => .ok (duplicates digest walletType db.walletsDb)

/-- The loop over the chains. -/
def generateAddresses (wallet : Saved MWallet) (mn : Text) (netType : NetType) :
    List Chain → Method (Session Databases) WalletError (List (Saved MAddress))
  | [] => pure []
  | chain :: rest => do
    let walletType := WalletType.ofText wallet.row.walletType
    let addr ← Method.lift (chain.generateAddress lib mn walletType netType)
    let s ← Method.get
    let addr : Saved MAddress :=
      { shared := beforeSave env s.calls 1 default
        row :=
          { addr with walletId := wallet.shared.id, isWalletAddress := cTrue, show' := cTrue } }
    chain.generateDefaultToken env wallet addr netType
    let addrs ← generateAddresses wallet mn netType rest
    pure (addr :: addrs)

/-- The addresses, and the wallet with an identifier. -/
def generateAddressToken (wallet : Saved MWallet) (mn : Text) (netType : NetType) :
    Method (Session Databases) WalletError (Saved MWallet × List (Saved MAddress)) := do
  let s ← Method.get
  -- make sure the id is not empty
  let wallet : Saved MWallet :=
    if wallet.shared.id = [] then ⟨beforeSave env s.calls 0 wallet.shared, wallet.row⟩ else wallet
  let addrs ← generateAddresses env lib wallet mn netType Chain.chains
  pure (wallet, addrs)

/-- The loop over the networks, in the transaction of the wallets database. -/
def saveAddresses (walletType : WalletType) (mn : Text) : List NetType → Saved MWallet →
    WalletsDb → Method (Session Databases) WalletError (Saved MWallet × WalletsDb)
  | [], mWallet, tx => pure (mWallet, tx)
  | netType :: rest, mWallet, tx =>
    if walletType.checkChainTypeMatch netType then do
      let (mWallet, mAddresses) ← generateAddressToken env lib mWallet mn netType
      let tx ← inTx env.fails .rbatisError
        (fun n (tx : WalletsDb) =>
          { tx with address := tx.address ++ saveBatch env n mAddresses }) tx
      saveAddresses walletType mn rest mWallet tx
    else
      saveAddresses walletType mn rest mWallet tx

/-- `MMnemonic::from` -/
def MMnemonic.ofWallet (w : MWallet) : MMnemonic where
  mnemonicDigest := w.mnemonicDigest
  mnemonic := w.mnemonic
  walletType := w.walletType
  name := w.name

/-- save to database -/
def saveWallet (walletType : WalletType) (mn : Text) (mWallet : Saved MWallet) :
    Method (Session Databases) WalletError (Saved MWallet) := do
  let tx ← beginTx env.fails .rbatisError Databases.walletsDb
  let (mWallet, tx) ← saveAddresses env lib walletType mn NetType.iter mWallet tx
  let (mWallet, tx) ← inTx env.fails .rbatisError
    (fun n (mWallet, tx) =>
      let mWallet : Saved MWallet := ⟨beforeSave env n 0 mWallet.shared, mWallet.row⟩
      (mWallet, { tx with wallet := tx.wallet ++ [mWallet] })) (mWallet, tx)
  -- in another database, and not in a transaction
  execute env.fails .rbatisError fun n db =>
    { db with
      mnemonicDb := db.mnemonicDb ++
        [⟨beforeSave env n 0 default, MMnemonic.ofWallet mWallet.row⟩] }
  commitTx env.fails .rbatisError (fun db walletsDb => { db with walletsDb }) tx
  pure mWallet

/-- `Wallet::count` -/
def countWallets (netType : NetType) : Method (Session Databases) WalletError Nat :=
  query env.fails .rbatisError fun db =>
    .ok (db.walletsDb.wallet.filter fun w =>
      w.row.walletType = (WalletType.ofNetType netType).toString).length

/-- `update_by_column` with the column `id` -/
def updateSetting (m : Saved MSetting) (db : WalletsDb) : WalletsDb :=
  { db with setting := db.setting.map fun m' => if m'.shared.id = m.shared.id then m else m' }

/-- What a setting becomes, or a new one if there is none. -/
def Saved.setting (m : Option (Saved MSetting)) (key : SettingType) (value : Text) :
    Saved MSetting :=
  ⟨(m.map Saved.shared).getD default, ⟨key.toString, value⟩⟩

def saveCurrentWalletChain (walletId : Text) (chainType : ChainType) :
    Method (Session Databases) WalletError Unit := do
  let walletSetting ← getSetting env .currentWallet
  let chainSetting ← getSetting env .currentChain
  let tx ← beginTx env.fails .rbatisError Databases.walletsDb
  let tx ← inTx env.fails .rbatisError
    (fun _ => updateSetting (Saved.setting walletSetting .currentWallet walletId)) tx
  let tx ← inTx env.fails .rbatisError
    (fun _ => updateSetting (Saved.setting chainSetting .currentChain chainType.toString)) tx
  commitTx env.fails .rbatisError (fun db walletsDb => { db with walletsDb }) tx

/-- The first wallet becomes the current one, on the chain `Eee`. -/
def saveFirstWallet (count : Nat) (mWallet : Saved MWallet) (netType : NetType) :
    Method (Session Databases) WalletError Unit :=
  if count = 1 then
    let walletType := WalletType.ofText mWallet.row.walletType
    saveCurrentWalletChain env mWallet.shared.id (Chain.eee.chainType walletType netType)
  else
    pure ()

/-- `Wallet::load` -/
def loadWallet (mWallet : Saved MWallet) (netType : NetType) :
    Method (Session Databases) WalletError Wallet := do
  let eth ← loadChain env Wallets.ethChain mWallet netType
  let eee ← loadChain env Wallets.eeeChain mWallet netType
  let btc ← loadChain env Wallets.btcChain mWallet netType
  pure ⟨mWallet, eth, eee, btc⟩

def mnemonicDigest (mnemonic : Text) : Text :=
  ['0', 'x'] ++ hexEncode (lib.keccak256 (lib.keccak256 mnemonic.asBytes))

def CreateWalletParameters.mWallet (parameters : CreateWalletParameters) : MWallet where
  nextId := []
  name := parameters.name
  mnemonicDigest := mnemonicDigest lib parameters.mnemonic
  mnemonic := lib.encryptMnemonic parameters.mnemonic.asBytes parameters.password.asBytes
  walletType := (WalletType.ofText parameters.walletType).toString
  show' := cTrue

/-- The wallet is on a network of its own type. -/
def saveAndLoad (netType : NetType) (parameters : CreateWalletParameters) :
    Method (Session Databases) WalletError Wallet := do
  let walletType := WalletType.ofText parameters.walletType
  let mWallet ← saveWallet env lib walletType parameters.mnemonic ⟨default, parameters.mWallet lib⟩
  let count ← countWallets env netType
  saveFirstWallet env count mWallet netType
  loadWallet env mWallet netType

/-- `create_wallet` on the network of the context -/
def createWallet (netType : NetType) (parameters : CreateWalletParameters) :
    Method (Session Databases) WalletError Wallet :=
  let walletType := WalletType.ofText parameters.walletType
  if walletType.checkChainTypeMatch netType then do
    let ms ← checkDuplicateMnemonic env (mnemonicDigest lib parameters.mnemonic) walletType
    -- a mnemonic of a normal wallet can't be used more than once
    if ms.isEmpty then
      saveAndLoad env lib netType parameters
    else
      Method.lift (.err (.custom (
        if walletType = .normal then
          String.ofList parameters.walletType ++ " wallet mnemonic can't been reuse"
        else "this mnemonic has been used create a Normal wallet")))
  else
    Method.lift (.err (.custom
      " Normal wallet must match Main network,Test wallet can't use Main network"))

end Cashbox.Wallets
