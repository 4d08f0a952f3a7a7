import Cashbox.Btc.Framing

/-!
# The handshake of a peer

The network layer reads the socket of a peer, decodes the messages that are complete and
handles them one by one: until a version message and a verack have come only these two are
taken, after that all go to the listeners. What the listeners are told is collected first
and dispatched when the lock on the peer is released.

Only a peer's own state is modelled. Other threads may ban it or disconnect it between two
events, and the socket may fail at any call.
-/

namespace Cashbox.Btc.P2P

open Cashbox.Lib

/-! ## Messages -/

structure VersionCarrier where
  /-- The P2P network protocol version -/
  version : UInt32
  services : UInt64
  timestamp : UInt64
  receiver : Address
  sender : Address
  nonce : UInt64
  userAgent : Text
  /-- The height of the maximum-work blockchain that the peer is aware of -/
  startHeight : UInt32
  relay : Bool
  deriving DecidableEq, Repr

/-- `NetworkMessage::is_version`; the casts keep the bits of the signed numbers. -/
def carrier (v : VersionMessage) : VersionCarrier where
  version := v.version
  services := v.services
  timestamp := v.timestamp.toUInt64
  receiver := v.receiver
  sender := v.sender
  nonce := v.nonce
  userAgent := v.userAgent
  startHeight := v.startHeight.toUInt32
  relay := v.relay

/-- The fields of `BitcoinP2PConfig` that an event reads, with the needed services. -/
structure Config where
  nonce : UInt64
  maxProtocolVersion : UInt32
  neededServices : UInt64
  /-- this node's version message, for a protocol version of the peer -/
  version : UInt32 → NetworkMessage

def minProtocolVersion : UInt32 := 70001

/-! ## A peer -/

/-- The peer, without its buffers and its socket. -/
structure Peer where
  /-- did the remote peer already sent a verack? -/
  gotVerack : Bool
  /-- the version message the peer sent to us at connect -/
  version : Option VersionCarrier
  /-- what was put in the channel for outgoing messages -/
  sender : List NetworkMessage
  /-- connected and handshake complete? -/
  connected : Bool
  ban : Nat
  outgoing : Bool
  deriving DecidableEq, Repr

def Peer.new (outgoing : Bool) : Peer := ⟨false, none, [], false, 0, outgoing⟩

/-- What happens in the life of a peer: the messages its handshake takes, a version message
with the height of this node then, and what is dispatched for it. -/
inductive Happening where
  | version (msg : VersionMessage) (height : UInt32)
  | verack
  | connected
  | incoming (msg : NetworkMessage)
  | disconnected (banned : Bool)
  deriving DecidableEq, Repr

/-- The variables of the read side of `event_processor`, and the messages taken. -/
structure ReadState where
  peer : Peer
  incoming : List NetworkMessage
  disconnect : Bool
  ban : Bool
  handshake : Bool
  taken : List Happening
  deriving DecidableEq, Repr

/-- How the loop goes on after a message: it breaks, or an error is returned. -/
inductive Flow where
  | next
  | stop
  | fail
  deriving DecidableEq, Repr

/-- What the socket and the configuration answer during an event. -/
structure Env where
  height : UInt32
  peerAddr : Bool
  sendVersion : Bool
  sendVerack : Bool
  deriving DecidableEq, Repr

/-! ## The code -/

section Code

variable (cfg : Config) (env : Env)

/-- The version message is acknowledged and remembered. -/
def acknowledge (st : ReadState) (m : VersionMessage) : ReadState × Flow :=
  let peer := { st.peer with sender := st.peer.sender ++ [.verack] }
  if !env.sendVerack then ({ st with peer := peer }, .fail)
  else
    -- reduce protocol version to our capabilities
    let vm := { carrier m with version := min m.version cfg.maxProtocolVersion }
    ({ st with peer := { peer with version := some vm },
               taken := st.taken ++ [.version m env.height] }, .next)

/-- A version message before the handshake is complete. -/
def handleVersion (st : ReadState) (m : VersionMessage) : ReadState × Flow :=
  let version := carrier m
  if st.peer.version.isSome then
    -- repeated version
    ({ st with disconnect := true, ban := true }, .stop)
  else if version.nonce = cfg.nonce then
    -- connect to myself
    ({ st with disconnect := true, ban := true }, .stop)
  else if version.version < minProtocolVersion ∨
      cfg.neededServices &&& version.services ≠ cfg.neededServices then
    ({ st with disconnect := true }, .stop)
  else if !st.peer.outgoing then
    -- send own version message to incoming peer
    if !env.peerAddr then (st, .fail)
    else
      let peer := { st.peer with sender := st.peer.sender ++ [cfg.version version.version] }
      if !env.sendVersion then ({ st with peer := peer }, .fail)
      else acknowledge cfg env { st with peer := peer } m
  else if version.startHeight < env.height then
    -- outgoing connects should not be behind this
    ({ st with disconnect := true }, .stop)
  else acknowledge cfg env st m

/-- The end of a round before the handshake is complete. -/
def complete : ReadState × Flow → ReadState × Flow
  | (st, .next) =>
    if st.peer.version.isSome && st.peer.gotVerack then
      ({ st with peer := { st.peer with connected := true }, handshake := true }, .next)
    else (st, .next)
  | r => r

/-- One message. -/
def handle (st : ReadState) (msg : NetworkMessage) : ReadState × Flow :=
  if st.peer.connected then
    -- regular processing after handshake
    ({ st with incoming := st.incoming ++ [msg] }, .next)
  else if !(st.peer.version.isSome && st.peer.gotVerack) then
    match msg with
    | .version m => complete (handleVersion cfg env st m)
    | .verack =>
      if st.peer.gotVerack then ({ st with disconnect := true, ban := true }, .stop)
      else complete ({ st with peer := { st.peer with gotVerack := true },
                               taken := st.taken ++ [.verack] }, .next)
    | _ =>
      -- some other message before handshake
      ({ st with disconnect := true, ban := true }, .stop)
  else (st, .next)

variable (sha256d : Bytes → Sha256dHash)

/-- The loop that extracts messages from the buffer. -/
def readLoop : Nat → Buffer → ReadState → Buffer × ReadState × Outcome IoError Unit
  | 0, src, st => (src, st, .panic .loopBound)
  | fuel + 1, src, st =>
    match decode sha256d src with
    | (src, .ok (some msg)) =>
      match handle cfg env st msg.payload with
      | (st, .next) => readLoop fuel src st
      | (st, .stop) => (src, st, .ok ())
      | (st, .fail) => (src, st, .err (.kind .other))
    | (src, .ok none) => (src, st, .ok ())
    | (src, .err e) => (src, st, .err e)
    | (src, .panic p) => (src, st, .panic p)

end Code

/-- The place of a peer in the network layer. -/
structure Link where
  /-- the entry in the peer map, with its read buffer -/
  peer : Option (Peer × Buffer)
  /-- a panic has ended the thread that polls the events -/
  dead : Bool
  log : List Happening
  deriving DecidableEq, Repr

namespace Link

def new (outgoing : Bool) : Link := ⟨some (Peer.new outgoing, Buffer.new), false, []⟩

def disconnect (s : Link) (banned : Bool) : Link :=
  { s with peer := none, log := s.log ++ [.disconnected banned] }

def banLimit : Nat := 100

/-- `P2P::ban` -/
def ban (s : Link) (increment : Nat) : Link :=
  match s.peer with
  | some (peer, src) =>
    let s := { s with peer := some ({ peer with ban := peer.ban + increment }, src) }
    if banLimit ≤ peer.ban + increment then s.disconnect true else s
  | none => s

end Link

/-- A read of the socket: its bytes, or an IO error. -/
structure SocketRead where
  bytes : Option Bytes
  env : Env
  deriving DecidableEq, Repr

/-- What happens to a peer: an event of its socket, or a call from another thread. -/
inductive Action where
  /-- an error, or a side of the socket is closed -/
  | left
  /-- the write side, which may fail, and the read side, if there is something to read -/
  | ready (writeOk : Bool) (read : Option SocketRead)
  | disconnect
  | ban (increment : Nat)
  deriving DecidableEq, Repr

section Step

variable (cfg : Config) (sha256d : Bytes → Sha256dHash)

/-- The variables at the start of the read side. -/
def ReadState.start (peer : Peer) (bytes : Bytes) : ReadState where
  peer := peer
  incoming := []
  disconnect := bytes.isEmpty
  ban := false
  handshake := false
  taken := []

/-- What follows the loop over the messages. -/
def endRead (s : Link) : Buffer × ReadState × Outcome IoError Unit → Link
  | (src, st, .ok ()) =>
    let s := { s with peer := some (st.peer, src), log := s.log ++ st.taken }
    if st.disconnect then s.disconnect st.ban
    else
      -- queued incoming messages are dispatched outside of the lock
      { s with log := s.log ++ (if st.handshake then [.connected] else []) ++
                        st.incoming.map .incoming }
  | (src, st, .err _) =>
    -- the error is returned to `poll_events`
    ({ s with peer := some (st.peer, src), log := s.log ++ st.taken } : Link).ban 10
  | (src, st, .panic _) =>
    { s with peer := some (st.peer, src), log := s.log ++ st.taken, dead := true }

/-- The read side of `event_processor` for a peer that is in the map. -/
def readSide (s : Link) (peer : Peer) (src : Buffer) (bytes : Bytes) (env : Env) : Link :=
  let src := src.write bytes
  endRead s (readLoop cfg env sha256d (src.len + 1) src (.start peer bytes))

/-- One action. After a panic in an event no event is processed, and the lock on the peer is
poisoned. -/
def step (s : Link) : Action → Link
  | .left => if s.dead then s else s.disconnect false
  | .ready writeOk read =>
    if s.dead then s
    else
      match s.peer with
      | none => s
      | some (peer, src) =>
        if !writeOk then s.ban 10
        else
          match read with
          | none => s
          | some ⟨none, _⟩ => s.disconnect false
          | some ⟨some bytes, env⟩ => readSide cfg sha256d s peer src bytes env
  | .disconnect => s.disconnect false
  | .ban increment => if s.dead then s else s.ban increment

end Step

end Cashbox.Btc.P2P
