import Cashbox.Btc.Balance
import Cashbox.Btc.BlockHeader
import Cashbox.Btc.BloomFilter
import Cashbox.Btc.BroadcastTx
import Cashbox.Btc.BufferQueue
import Cashbox.Btc.ChainDb
import Cashbox.Btc.Downstream
import Cashbox.Btc.FailedAdd
import Cashbox.Btc.FilterFirst
import Cashbox.Btc.GetData
import Cashbox.Btc.HeaderCache
import Cashbox.Btc.HeaderDownload
import Cashbox.Btc.HeaderTree
import Cashbox.Btc.HeaviestTip
import Cashbox.Btc.PeerWrite
import Cashbox.Btc.Recording
import Cashbox.Btc.Restart
import Cashbox.Btc.RetargetScan
import Cashbox.Btc.ScanHeaders
import Cashbox.Btc.ScanProgress
import Cashbox.Btc.StoredChain
import Cashbox.Btc.Transaction
import Cashbox.Btc.Trunk
import Cashbox.Btc.TxSign
import Cashbox.Btc.Utxo
import Cashbox.Crypto.Aes
import Cashbox.Crypto.Hex
import Cashbox.Eee.DecodeExtrinsics
import Cashbox.Eee.Error
import Cashbox.Eee.EventRecords
import Cashbox.Eee.Events
import Cashbox.Eee.Extrinsic
import Cashbox.Eee.Keyring
import Cashbox.Eee.Metadata
import Cashbox.Eee.StorageKey
import Cashbox.Eee.TxResults
import Cashbox.Eee.TxSign
import Cashbox.Eee.FuncPrefix
import Cashbox.Eth.Canonical
import Cashbox.Eth.Decode
import Cashbox.Eth.Numerals
import Cashbox.Eth.Payload
import Cashbox.Eth.RawDecode
import Cashbox.Eth.RoundTrip
import Cashbox.Eth.Sign
import Cashbox.Eth.Transaction
import Cashbox.Lib.Bytes
import Cashbox.Lib.Database
import Cashbox.Lib.Effect
import Cashbox.Lib.Method
import Cashbox.Lib.Outcome
import Cashbox.Lib.ParentChain
import Cashbox.Lib.Plan
import Cashbox.Lib.Rlp
import Cashbox.Lib.RlpStream
import Cashbox.Lib.RlpView
import Cashbox.Lib.Run
import Cashbox.Lib.Scale
import Cashbox.Lib.StreamCipher
import Cashbox.Lib.Text
import Cashbox.Lib.UniqueTable
import Cashbox.Lib.Upsert
import Cashbox.Lib.Window
import Cashbox.Wallets.AuthTokens
import Cashbox.Wallets.Chains
import Cashbox.Wallets.CreateEffect
import Cashbox.Wallets.CreateWallet
import Cashbox.Wallets.CreatedEntirely
import Cashbox.Wallets.Database
import Cashbox.Wallets.DefaultTokens
import Cashbox.Wallets.FilledTx
import Cashbox.Wallets.LoadWallet
import Cashbox.Wallets.RemoveWallet
import Cashbox.Wallets.ReplacedList
import Cashbox.Wallets.ResetPassword
import Cashbox.Wallets.SaveTxRecord
import Cashbox.Wallets.Settings
import Cashbox.Wallets.SharedSeeds
import Cashbox.Wallets.TokenLists
import Cashbox.Btc.Buffer
import Cashbox.Btc.NetworkMessage
import Cashbox.Btc.Framing
import Cashbox.Btc.CompleteFrame
import Cashbox.Btc.Connected
import Cashbox.Wallets.CurrentWallet
import Cashbox.Eee.CallIndices
import Cashbox.Eee.HistorySynced
import Cashbox.Wallets.Initialised
import Cashbox.Wallets.Contexts
import Cashbox.Wallets.Locks
import Cashbox.Eth.TokenAmount
import Cashbox.Wallets.EthSigner
import Cashbox.Btc.CompactForm
import Cashbox.Btc.Timeout
import Cashbox.Btc.Locator
import Cashbox.Eee.EventArgText
import Cashbox.Eth.AddressLegal
import Cashbox.Eth.TransferData
import Cashbox.Eth.WalletConnect
import Cashbox.Wallets.KeyedRows
import Cashbox.Wallets.AddressBalance
import Cashbox.Wallets.BasicInfo
import Cashbox.Macro.AnyOrder
import Cashbox.Lib.LinearHash
import Cashbox.Lib.Splice
import Cashbox.Lib.Wp
import Cashbox.Hammersbald.File
import Cashbox.Hammersbald.DataFile
import Cashbox.Hammersbald.Listing
import Cashbox.Hammersbald.MirroredChain
