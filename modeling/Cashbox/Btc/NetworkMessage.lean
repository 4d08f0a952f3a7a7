import Cashbox.Btc.BloomFilter
import Cashbox.Btc.Consensus

/-!
# Network messages

The messages of the Bitcoin network, their payloads and the frame around them: magic,
command, length and checksum. The frame is read from the network, its payload from the
memory that the frame was read into.
-/

namespace Cashbox.Btc

open Cashbox.Lib

/-! ## Payloads -/

/-- A message which can be sent on the Bitcoin network. -/
structure Address where
  services : UInt64
  /-- eight words in the byte order of the network -/
  address : List UInt16
  port : UInt16
  deriving DecidableEq, Repr

/-- `u16::to_be` and `u16::from_be` on a little-endian target. -/
def swapBytes (x : UInt16) : UInt16 := x <<< 8 ||| x >>> 8

def Address.consensusEncode (a : Address) : Bytes :=
  leBytes 8 a.services.toNat ++ a.address.flatMap (fun x => leBytes 2 (swapBytes x).toNat) ++
    leBytes 2 (swapBytes a.port).toNat

def Address.consensusDecode : Decode Address := do
  let services ← readU64
  let address ← readU16.times 8
  let port ← readU16
  return { services, address := address.map swapBytes, port := swapBytes port }

structure VersionMessage where
  /-- The P2P network protocol version -/
  version : UInt32
  services : UInt64
  timestamp : Int64
  receiver : Address
  sender : Address
  /-- A random nonce used to detect loops in the network -/
  nonce : UInt64
  userAgent : Text
  startHeight : Int32
  relay : Bool
  deriving DecidableEq, Repr

def VersionMessage.consensusEncode (m : VersionMessage) : Bytes :=
  leBytes 4 m.version.toNat ++ leBytes 8 m.services.toNat ++
    leBytes 8 m.timestamp.toUInt64.toNat ++ m.receiver.consensusEncode ++
    m.sender.consensusEncode ++ leBytes 8 m.nonce.toNat ++ encodeString m.userAgent ++
    leBytes 4 m.startHeight.toUInt32.toNat ++ leBytes 1 m.relay.toNat

def VersionMessage.consensusDecode : Decode VersionMessage := do
  let version ← readU32
  let services ← readU64
  let timestamp ← readI64
  let receiver ← Address.consensusDecode
  let sender ← Address.consensusDecode
  let nonce ← readU64
  let userAgent ← decodeString
  let startHeight ← readI32
  let relay ← readBool
  return { version, services, timestamp, receiver, sender, nonce, userAgent, startHeight, relay }

/-- The element of the `addr` message: a time and an address. -/
def encodeTimedAddress (a : UInt32 × Address) : Bytes :=
  leBytes 4 a.1.toNat ++ a.2.consensusEncode

def decodeTimedAddress : Decode (UInt32 × Address) := do
  let time ← readU32
  let address ← Address.consensusDecode
  return (time, address)

/-- The messages `getblocks` and `getheaders`. -/
structure GetHeadersMessage where
  version : UInt32
  locatorHashes : List Sha256dHash
  stopHash : Sha256dHash
  deriving DecidableEq, Repr

abbrev GetBlocksMessage := GetHeadersMessage

def GetHeadersMessage.consensusEncode (m : GetHeadersMessage) : Bytes :=
  leBytes 4 m.version.toNat ++ encodeVec encodeHash m.locatorHashes ++ encodeHash m.stopHash

def GetHeadersMessage.consensusDecode : Decode GetHeadersMessage := do
  let version ← readU32
  let locatorHashes ← decodeVec sizeOfHash decodeHash
  let stopHash ← decodeHash
  return { version, locatorHashes, stopHash }

/-- The messages `getcfilters` and `getcfheaders`. -/
structure GetCFilters where
  filterType : UInt8
  startHeight : UInt32
  stopHash : Sha256dHash
  deriving DecidableEq, Repr

abbrev GetCFHeaders := GetCFilters

def GetCFilters.consensusEncode (m : GetCFilters) : Bytes :=
  leBytes 1 m.filterType.toNat ++ leBytes 4 m.startHeight.toNat ++ encodeHash m.stopHash

def GetCFilters.consensusDecode : Decode GetCFilters := do
  let filterType ← readU8
  let startHeight ← readU32
  let stopHash ← decodeHash
  return { filterType, startHeight, stopHash }

structure CFilter where
  filterType : UInt8
  blockHash : Sha256dHash
  filter : Bytes
  deriving DecidableEq, Repr

def CFilter.consensusEncode (m : CFilter) : Bytes :=
  leBytes 1 m.filterType.toNat ++ encodeHash m.blockHash ++ encodeBytes m.filter

def CFilter.consensusDecode : Decode CFilter := do
  let filterType ← readU8
  let blockHash ← decodeHash
  let filter ← decodeBytes
  return { filterType, blockHash, filter }

structure CFHeaders where
  filterType : UInt8
  stopHash : Sha256dHash
  previousFilter : Sha256dHash
  filterHashes : List Sha256dHash
  deriving DecidableEq, Repr

def CFHeaders.consensusEncode (m : CFHeaders) : Bytes :=
  leBytes 1 m.filterType.toNat ++ encodeHash m.stopHash ++ encodeHash m.previousFilter ++
    encodeVec encodeHash m.filterHashes

def CFHeaders.consensusDecode : Decode CFHeaders := do
  let filterType ← readU8
  let stopHash ← decodeHash
  let previousFilter ← decodeHash
  let filterHashes ← decodeVec sizeOfHash decodeHash
  return { filterType, stopHash, previousFilter, filterHashes }

structure GetCFCheckpt where
  filterType : UInt8
  stopHash : Sha256dHash
  deriving DecidableEq, Repr

def GetCFCheckpt.consensusEncode (m : GetCFCheckpt) : Bytes :=
  leBytes 1 m.filterType.toNat ++ encodeHash m.stopHash

def GetCFCheckpt.consensusDecode : Decode GetCFCheckpt := do
  let filterType ← readU8
  let stopHash ← decodeHash
  return { filterType, stopHash }

structure CFCheckpt where
  filterType : UInt8
  stopHash : Sha256dHash
  filterHeaders : List Sha256dHash
  deriving DecidableEq, Repr

def CFCheckpt.consensusEncode (m : CFCheckpt) : Bytes :=
  leBytes 1 m.filterType.toNat ++ encodeHash m.stopHash ++ encodeVec encodeHash m.filterHeaders

def CFCheckpt.consensusDecode : Decode CFCheckpt := do
  let filterType ← readU8
  let stopHash ← decodeHash
  let filterHeaders ← decodeVec sizeOfHash decodeHash
  return { filterType, stopHash, filterHeaders }

/-- The reasons of a rejection. -/
inductive RejectReason where
  | malformed
  | invalid
  | obsolete
  | duplicate
  | nonstandard
  | dust
  | fee
  | checkpoint
  deriving DecidableEq, Repr

def RejectReason.code : RejectReason → Nat
  | .malformed => 0x01
  | .invalid => 0x10
  | .obsolete => 0x11
  | .duplicate => 0x12
  | .nonstandard => 0x40
  | .dust => 0x41
  | .fee => 0x42
  | .checkpoint => 0x43

def RejectReason.consensusDecode : Decode RejectReason := do
  match ← readUint 1 with
  | 0x01 => return .malformed
  | 0x10 => return .invalid
  | 0x11 => return .obsolete
  | 0x12 => return .duplicate
  | 0x40 => return .nonstandard
  | 0x41 => return .dust
  | 0x42 => return .fee
  | 0x43 => return .checkpoint
  | _ => .fail (.parseFailed "unknown reject code")

structure Reject where
  message : Text
  ccode : RejectReason
  reason : Text
  hash : Sha256dHash
  deriving DecidableEq, Repr

def Reject.consensusEncode (m : Reject) : Bytes :=
  encodeString m.message ++ leBytes 1 m.ccode.code ++ encodeString m.reason ++ encodeHash m.hash

def Reject.consensusDecode : Decode Reject := do
  let message ← decodeString
  let ccode ← RejectReason.consensusDecode
  let reason ← decodeString
  let hash ← decodeHash
  return { message, ccode, reason, hash }

def FilterLoadMessage.consensusEncode (m : FilterLoadMessage) : Bytes :=
  encodeBytes m.filter ++ leBytes 4 m.nHashFunctions.toNat ++ leBytes 4 m.nTweak.toNat ++
    leBytes 1 m.nFlags.toNat

def FilterLoadMessage.consensusDecode : Decode FilterLoadMessage := do
  let filter ← decodeBytes
  let nHashFunctions ← readU32
  let nTweak ← readU32
  let nFlags ← readU8
  return { filter, nHashFunctions, nTweak, nFlags }

/-- The message `merkleblock`. -/
structure MerkleBlockMessage where
  version : Int32
  prevBlock : Sha256dHash
  merkleRoot : Sha256dHash
  timestamp : UInt32
  bits : UInt32
  nonce : UInt32
  totalTransactions : UInt32
  hashes : List Sha256dHash
  flags : Bytes
  deriving DecidableEq, Repr

def MerkleBlockMessage.consensusEncode (m : MerkleBlockMessage) : Bytes :=
  leBytes 4 m.version.toUInt32.toNat ++ encodeHash m.prevBlock ++ encodeHash m.merkleRoot ++
    leBytes 4 m.timestamp.toNat ++ leBytes 4 m.bits.toNat ++ leBytes 4 m.nonce.toNat ++
    leBytes 4 m.totalTransactions.toNat ++ encodeVec encodeHash m.hashes ++ encodeBytes m.flags

def MerkleBlockMessage.consensusDecode : Decode MerkleBlockMessage := do
  let version ← readI32
  let prevBlock ← decodeHash
  let merkleRoot ← decodeHash
  let timestamp ← readU32
  let bits ← readU32
  let nonce ← readU32
  let totalTransactions ← readU32
  let hashes ← decodeVec sizeOfHash decodeHash
  let flags ← decodeBytes
  return ⟨version, prevBlock, merkleRoot, timestamp, bits, nonce, totalTransactions, hashes, flags⟩

/-! ## Messages -/

/-- A network message payload. -/
inductive NetworkMessage where
  | version (m : VersionMessage)
  | verack
  | addr (m : List (UInt32 × Address))
  | inv (m : List Inventory)
  | getData (m : List Inventory)
  | notFound (m : List Inventory)
  | getBlocks (m : GetBlocksMessage)
  | getHeaders (m : GetHeadersMessage)
  | memPool
  | tx (m : Transaction)
  | block (m : Block)
  | headers (m : List BlockHeader)
  | sendHeaders
  | getAddr
  | ping (nonce : UInt64)
  | pong (nonce : UInt64)
  | getCFilters (m : GetCFilters)
  | cFilter (m : CFilter)
  | getCFHeaders (m : GetCFHeaders)
  | cfHeaders (m : CFHeaders)
  | getCFCheckpt (m : GetCFCheckpt)
  | cfCheckpt (m : CFCheckpt)
  | alert (m : Bytes)
  | reject (m : Reject)
  | filterLoad (m : FilterLoadMessage)
  | merkleBlock (m : MerkleBlockMessage)
  deriving DecidableEq, Repr

/-- The message command. -/
def NetworkMessage.command : NetworkMessage → String
  | .version _ => "version"
  | .verack => "verack"
  | .addr _ => "addr"
  | .inv _ => "inv"
  | .getData _ => "getdata"
  | .notFound _ => "notfound"
  | .getBlocks _ => "getblocks"
  | .getHeaders _ => "getheaders"
  | .memPool => "mempool"
  | .tx _ => "tx"
  | .block _ => "block"
  | .headers _ => "headers"
  | .sendHeaders => "sendheaders"
  | .getAddr => "getaddr"
  | .ping _ => "ping"
  | .pong _ => "pong"
  | .getCFilters _ => "getcfilters"
  | .cFilter _ => "cfilter"
  | .getCFHeaders _ => "getcfheaders"
  | .cfHeaders _ => "cfheaders"
  | .getCFCheckpt _ => "getcfckpt"
  | .cfCheckpt _ => "cfcheckpt"
  | .alert _ => "alert"
  | .reject _ => "reject"
  | .filterLoad _ => "filterload"
  | .merkleBlock _ => "merkleblock"

/-- `HeaderSerializationWrapper`: each header is followed by a number of transactions. -/
def encodeHeaders (headers : List BlockHeader) : Bytes :=
  encodeVec (fun h => h.consensusEncode ++ [0]) headers

/-- `HeaderDeserializationWrapper` -/
def decodeHeaders : Decode (List BlockHeader) :=
  decodeVec sizeOfBlockHeader do
    let header ← BlockHeader.consensusDecode
    if (← readUint 1) ≠ 0 then
      .fail (.parseFailed "Headers message should not contain transactions")
    else return header

def NetworkMessage.serialize : NetworkMessage → Bytes
  | .version m => m.consensusEncode
  | .addr m => encodeVec encodeTimedAddress m
  | .inv m | .getData m | .notFound m => encodeVec Inventory.consensusEncode m
  | .getBlocks m => m.consensusEncode
  | .getHeaders m => m.consensusEncode
  | .tx m => m.consensusEncode
  | .block m => m.consensusEncode
  | .headers m => encodeHeaders m
  | .ping nonce | .pong nonce => leBytes 8 nonce.toNat
  | .getCFilters m => m.consensusEncode
  | .cFilter m => m.consensusEncode
  | .getCFHeaders m => m.consensusEncode
  | .cfHeaders m => m.consensusEncode
  | .getCFCheckpt m => m.consensusEncode
  | .cfCheckpt m => m.consensusEncode
  | .alert m => encodeBytes m
  | .reject m => m.consensusEncode
  | .verack | .sendHeaders | .memPool | .getAddr => []
  | .filterLoad m => m.consensusEncode
  | .merkleBlock m => m.consensusEncode

/-- The match on the command, over a cursor on the payload. -/
def decodePayload (cmd : Text) : Decode NetworkMessage :=
  match String.ofList cmd with
  | "version" => return .version (← VersionMessage.consensusDecode)
  | "verack" => return .verack
  | "addr" => return .addr (← decodeVec sizeOfTimedAddress decodeTimedAddress)
  | "inv" => return .inv (← decodeVec sizeOfInventory Inventory.consensusDecode)
  | "getdata" => return .getData (← decodeVec sizeOfInventory Inventory.consensusDecode)
  | "notfound" => return .notFound (← decodeVec sizeOfInventory Inventory.consensusDecode)
  | "getblocks" => return .getBlocks (← GetHeadersMessage.consensusDecode)
  | "getheaders" => return .getHeaders (← GetHeadersMessage.consensusDecode)
  | "mempool" => return .memPool
  | "block" => return .block (← Block.consensusDecode)
  | "headers" => return .headers (← decodeHeaders)
  | "sendheaders" => return .sendHeaders
  | "getaddr" => return .getAddr
  | "ping" => return .ping (← readU64)
  | "pong" => return .pong (← readU64)
  | "tx" => return .tx (← Transaction.consensusDecode)
  | "getcfilters" => return .getCFilters (← GetCFilters.consensusDecode)
  | "cfilter" => return .cFilter (← CFilter.consensusDecode)
  | "getcfheaders" => return .getCFHeaders (← GetCFilters.consensusDecode)
  | "cfheaders" => return .cfHeaders (← CFHeaders.consensusDecode)
  | "getcfckpt" => return .getCFCheckpt (← GetCFCheckpt.consensusDecode)
  | "cfcheckpt" => return .cfCheckpt (← CFCheckpt.consensusDecode)
  | "reject" => return .reject (← Reject.consensusDecode)
  | "alert" => return .alert (← decodeBytes)
  | "filterload" => return .filterLoad (← FilterLoadMessage.consensusDecode)
  | "merkleblock" => return .merkleBlock (← MerkleBlockMessage.consensusDecode)
  | _ => .fail (.unrecognizedNetworkCommand cmd)

/-! ## Frames -/

/-- A network message. -/
structure RawNetworkMessage where
  /-- Magic bytes to identify the network these messages are meant for -/
  magic : UInt32
  payload : NetworkMessage
  deriving DecidableEq, Repr

/-- The command in 12 bytes, filled up with zeros. -/
def encodeCommand (command : String) : Bytes :=
  let bytes := Text.asBytes command.toList
  bytes ++ List.replicate (12 - bytes.length) 0

/-- `CommandString::consensus_decode`: the zeros are left out, each other byte is a character. -/
def decodeCommand : Decode Text := do
  let rawbytes ← Reader.take 12
  return rawbytes.filterMap fun u => if u > 0 then some (Char.ofNat u.toNat) else none

section Frame

variable (sha256d : Bytes → Sha256dHash)

/-- Do a double-SHA256 on some data and return the first 4 bytes. -/
def sha2Checksum (data : Bytes) : Bytes := (encodeHash (sha256d data)).take 4

def encodeCheckedData (data : Bytes) : Bytes :=
  leBytes 4 data.length ++ sha2Checksum sha256d data ++ data

/-- `CheckedData::consensus_decode`: data preceded by its length and checksum. -/
def decodeCheckedData : Decode Bytes := do
  let len ← readUint 4
  if maxVecSize < len then .fail (.oversizedVectorAllocation len maxVecSize)
  else
    let checksum ← Reader.take 4
    let ret ← Reader.take len
    let expectedChecksum := sha2Checksum sha256d ret
    if expectedChecksum ≠ checksum then .fail (.invalidChecksum expectedChecksum checksum)
    else return ret

def RawNetworkMessage.serialize (m : RawNetworkMessage) : Bytes :=
  leBytes 4 m.magic.toNat ++ encodeCommand m.payload.command ++
    encodeCheckedData sha256d m.payload.serialize

def RawNetworkMessage.consensusDecode : Decode RawNetworkMessage := do
  let magic ← readU32
  let cmd ← decodeCommand
  let rawPayload ← decodeCheckedData sha256d
  -- an error in the payload leaves the frame read
  let payload ← Reader.lift ((decodePayload cmd).decode .eof rawPayload)
  return { magic, payload }

end Frame

end Cashbox.Btc
