import Cashbox.Lib.Run
import Cashbox.Btc.BloomFilter
import Cashbox.Btc.Consensus
import Cashbox.Btc.HeaderDownload

/-!
# The complete stack

The threads that `Constructor` starts and the channels between them: the network
layer, the dispatcher, the listeners `BloomFilter`, `GetData` and `Broadcast`,
and the loop that carries out what they send. A step is one turn of one thread,
so a run is one interleaving of all of them. A full channel only makes its
sender wait, so the channels have no bound here.

A disconnect is two steps, as `P2P::disconnect` first dispatches the message and
then removes the peer; several threads may be the one to do it, at any time.
-/

namespace Cashbox.Btc.Stack

open Cashbox.Lib

/-! ## Messages -/

/-- The messages of the network; those that no listener here looks at are one. -/
inductive NetworkMessage where
  | filterLoad (filter : FilterLoadMessage)
  | getData (inventory : List Inventory)
  | inv (inventory : List Inventory)
  | merkleBlock
  | tx (tx : Transaction)
  | ping
  | other
  deriving DecidableEq, Repr

/-- A message from network to downstream. -/
inductive PeerMessage where
  | incoming (peer : PeerId) (msg : NetworkMessage)
  | connected (peer : PeerId)
  | disconnected (peer : PeerId) (banned : Bool)
  deriving DecidableEq, Repr

/-- A `P2PControl::Send`, with the message that its sender was handling. -/
structure Sent where
  reply : Option PeerMessage
  peer : PeerId
  message : NetworkMessage
  deriving DecidableEq, Repr

/-! ## The state of all threads -/

/-- The listeners that matter here, in the order in which they are served. -/
inductive Listener where
  | bloomFilter
  | getData
  | broadcast
  deriving DecidableEq, Repr

/-- Where `GetData` is in the handling of a message. -/
inductive GetDataThread where
  | idle
  /-- In the wait of `get_data`, for the filter. -/
  | waiting (peer : PeerId)
  /-- After the wait, with this many calls of `get_data` to follow. -/
  | fetching (reply : PeerMessage) (peer : PeerId) (more : Nat)
  deriving DecidableEq, Repr

structure State where
  /-- The next peer id; ids are not used again. -/
  nextPeerId : PeerId
  /-- The services of each peer in the peer map, from its version message. -/
  peers : PeerId → Option UInt64
  /-- The peer whose handshake is complete and not yet dispatched. -/
  handshake : Option PeerId
  /-- The channel to the dispatcher. -/
  incoming : List PeerMessage
  /-- What the dispatcher is handing out, and to whom it still has to go. -/
  handing : Option (PeerMessage × List Listener)
  queue : Listener → List PeerMessage
  /-- Whether `BloomFilter` is between sending a filter and counting it. -/
  filterSent : Bool
  /-- The counter of the shared pair. -/
  start : Nat
  getData : GetDataThread
  /-- How many merkle blocks `GetData` has collected. -/
  merkleVec : Nat
  /-- The global queue `transactions`. -/
  transactions : List Transaction
  /-- All that was ever put in the control channel. -/
  sent : List Sent
  /-- How many of these the control loop has received. -/
  received : Nat
  /-- What the control loop put in the outgoing channel of a peer. -/
  handed : List (PeerId × NetworkMessage)

namespace State

def init : State where
  nextPeerId := 0
  peers _ := none
  handshake := none
  incoming := []
  handing := none
  queue _ := []
  filterSent := false
  start := 0
  getData := .idle
  merkleVec := 0
  transactions := []
  sent := []
  received := 0
  handed := []

/-- Do we serve blocks? -/
def serviceBlocks : UInt64 := 1

def isServingBlocks (s : State) (peer : PeerId) : Bool :=
  match s.peers peer with
  | some services => services &&& serviceBlocks != 0
  | none => false

def sendNetwork (s : State) (reply : Option PeerMessage) (peer : PeerId)
    (msg : NetworkMessage) : State :=
  { s with sent := s.sent ++ [⟨reply, peer, msg⟩] }

def setQueue (s : State) (l : Listener) (q : List PeerMessage) : State :=
  { s with queue := fun k => if k = l then q else s.queue k }

section SetQueue

variable (s : State) (l : Listener) (q : List PeerMessage)

theorem setQueue_self : s.setQueue l (s.queue l) = s := by
  have hqueue : (fun k => if k = l then s.queue l else s.queue k) = s.queue := by
    funext k
    split_ifs with h
    · rw [h]
    · rfl
  unfold setQueue
  rw [hqueue]

@[simp] theorem setQueue_isServingBlocks (peer : PeerId) :
    (s.setQueue l q).isServingBlocks peer = s.isServingBlocks peer := rfl

@[simp] theorem setQueue_transactions : (s.setQueue l q).transactions = s.transactions := rfl

@[simp] theorem setQueue_sent : (s.setQueue l q).sent = s.sent := rfl

@[simp] theorem setQueue_received : (s.setQueue l q).received = s.received := rfl

@[simp] theorem setQueue_handed : (s.setQueue l q).handed = s.handed := rfl

end SetQueue

/-- The message goes to the dispatcher. -/
def dispatch (s : State) (msg : PeerMessage) : State :=
  { s with incoming := s.incoming ++ [msg] }

/-! ## The network layer -/

/-- The handshake of a new peer completes. The event processor dispatches it
before it takes the next event. -/
def completeHandshake (s : State) (services : UInt64) : State :=
  if s.handshake.isSome then s
  else { s with
    nextPeerId := s.nextPeerId + 1
    peers := fun k => if k = s.nextPeerId then some services else s.peers k
    handshake := some s.nextPeerId }

/-- `P2P::connected`. -/
def connected (s : State) : State :=
  match s.handshake with
  | some peer => { s.dispatch (.connected peer) with handshake := none }
  | none => s

/-- The end of `P2P::disconnect`, or a connect that failed. -/
def removePeer (s : State) (peer : PeerId) : State :=
  { s with peers := fun k => if k = peer then none else s.peers k }

/-- One round of `P2P::control_loop`: a message for an unknown peer is ignored. -/
def controlLoop (s : State) : State :=
  match s.sent[s.received]? with
  | some c =>
    { s with
      received := s.received + 1
      handed := if (s.peers c.peer).isSome then s.handed ++ [(c.peer, c.message)]
        else s.handed }
  | none => s

/-! ## The dispatcher -/

/-- One call in `incoming_messages_loop`: the next message is received, or
handed to the next listener. -/
def dispatcher (s : State) : State :=
  match s.handing with
  | some (msg, l :: rest) =>
    { s.setQueue l (s.queue l ++ [msg]) with handing := some (msg, rest) }
  | _ =>
    match s.incoming with
    | [] => s
    | msg :: rest =>
      { s with incoming := rest, handing := some (msg, [.bloomFilter, .getData, .broadcast]) }

/-! ## The listeners -/

/-- One turn of `BloomFilter::run`. The filter is sent before it is counted. -/
def bloomFilter (filterLoad : FilterLoadMessage) (s : State) : State :=
  if s.filterSent then { s with filterSent := false, start := s.start + 1 }
  else
    match s.queue .bloomFilter with
    | [] => s
    | msg :: rest =>
      let s := s.setQueue .bloomFilter rest
      match msg with
      | .connected peer =>
        if s.isServingBlocks peer then
          { s.sendNetwork (some msg) peer (.filterLoad filterLoad) with filterSent := true }
        else s
      | .disconnected _ _ => { s with start := 0 }
      | .incoming _ _ => s

/-- The next message of `GetData::run`. -/
def getDataNext (s : State) : State :=
  match s.getData, s.queue .getData with
  | .idle, msg :: rest =>
    let s := s.setQueue .getData rest
    match msg with
    | .connected peer =>
      if s.isServingBlocks peer then { s with getData := .waiting peer } else s
    | .disconnected _ _ => s
    | .incoming peer .merkleBlock =>
      if s.merkleVec ≤ 100 then { s with merkleVec := s.merkleVec + 1 }
      else if s.isServingBlocks peer then
        { s with merkleVec := 0, getData := .fetching msg peer 0 }
      else { s with merkleVec := 0 }
    | .incoming peer .ping =>
      if s.isServingBlocks peer then { s with getData := .fetching msg peer 0 } else s
    | .incoming peer (.inv inventory) =>
      -- one call for each transaction of the inventory
      match (inventory.filter fun i => i.invType == .transaction).length with
      | 0 => s
      | more + 1 =>
        if s.isServingBlocks peer then { s with getData := .fetching msg peer more } else s
    | .incoming _ _ => s
  | _, _ => s

/-- The wait of `get_data` is over once the counter is not zero. -/
def getDataWake (s : State) : State :=
  match s.getData with
  | .waiting peer =>
    if s.start = 0 then s else { s with getData := .fetching (.connected peer) peer 0 }
  | _ => s

/-- The wait of `get_data` is given up. -/
def getDataTimeout (s : State) : State :=
  match s.getData with
  | .waiting _ => { s with getData := .idle }
  | _ => s

/-- The rest of `get_data`, with the hashes that `fetch_scan_header` returned. -/
def getDataFetched (headers : List Sha256dHash) (s : State) : State :=
  match s.getData with
  | .fetching reply peer more =>
    let s := { s with getData :=
      match more with
      | 0 => .idle
      | more + 1 => .fetching reply peer more }
    if headers = [] then s
    else s.sendNetwork (some reply) peer (.getData (headers.map (Inventory.mk .filteredBlock)))
  | _ => s

/-- One turn of `Broadcast::run`. The queue is locked from the pop to the send. -/
def broadcast (s : State) : State :=
  match s.queue .broadcast with
  | [] => s
  | msg :: rest =>
    let s := s.setQueue .broadcast rest
    match msg with
    | .connected peer =>
      if s.isServingBlocks peer then
        match s.transactions with
        | [] => s
        | t :: ts => { s.sendNetwork (some msg) peer (.tx t) with transactions := ts }
      else s
    | .disconnected _ _ | .incoming _ _ => s

/-- `broad`: push tx to broadcast queue. -/
def broad (s : State) (tx : Transaction) : State :=
  { s with transactions := s.transactions ++ [tx] }

end State

/-! ## Steps -/

inductive Action where
  | completeHandshake (services : UInt64)
  | connected
  | disconnected (peer : PeerId) (banned : Bool)
  | removePeer (peer : PeerId)
  | incoming (peer : PeerId) (msg : NetworkMessage)
  | controlLoop
  | dispatcher
  | bloomFilter
  | getDataNext
  | getDataWake
  | getDataTimeout
  | getDataFetched (headers : List Sha256dHash)
  | broadcast
  /-- `btc_tx_sign` with `broadcast`. -/
  | broad (tx : Transaction)
  /-- Another listener sends one of its messages. -/
  | sendOther (peer : PeerId)
  deriving DecidableEq, Repr

def step (filterLoad : FilterLoadMessage) (s : State) : Action → State
  | .completeHandshake services => s.completeHandshake services
  | .connected => s.connected
  | .disconnected peer banned => s.dispatch (.disconnected peer banned)
  | .removePeer peer => s.removePeer peer
  | .incoming peer msg => s.dispatch (.incoming peer msg)
  | .controlLoop => s.controlLoop
  | .dispatcher => s.dispatcher
  | .bloomFilter => s.bloomFilter filterLoad
  | .getDataNext => s.getDataNext
  | .getDataWake => s.getDataWake
  | .getDataTimeout => s.getDataTimeout
  | .getDataFetched headers => s.getDataFetched headers
  | .broadcast => s.broadcast
  | .broad tx => s.broad tx
  | .sendOther peer => s.sendNetwork none peer .other

/-! ## What a step sends -/

namespace State

/-- `BloomFilter` is about to handle the connect of this peer and will find that
it serves blocks. -/
def GreetsNext (s : State) (peer : PeerId) : Prop :=
  s.filterSent = false ∧ (s.queue .bloomFilter).head? = some (.connected peer) ∧
    s.isServingBlocks peer

/-- `Broadcast` is about to pop this transaction for this peer. -/
def PopsNext (s : State) (peer : PeerId) (tx : Transaction) : Prop :=
  (s.queue .broadcast).head? = some (.connected peer) ∧ s.isServingBlocks peer ∧
    s.transactions.head? = some tx

end State

open State in
/-- A step puts one message in the control channel, or none. -/
inductive Sends (filterLoad : FilterLoadMessage) (s : State) : Action → List Sent → Prop where
  | filter (peer : PeerId) (h : s.GreetsNext peer) :
      Sends filterLoad s .bloomFilter [⟨some (.connected peer), peer, .filterLoad filterLoad⟩]
  | fetched (headers : List Sha256dHash) (reply : PeerMessage) (peer : PeerId) (more : Nat)
      (hthread : s.getData = .fetching reply peer more) (hne : headers ≠ []) :
      Sends filterLoad s (.getDataFetched headers)
        [⟨some reply, peer, .getData (headers.map (Inventory.mk .filteredBlock))⟩]
  | tx (peer : PeerId) (t : Transaction) (h : s.PopsNext peer t) :
      Sends filterLoad s .broadcast [⟨some (.connected peer), peer, .tx t⟩]
  | other (peer : PeerId) : Sends filterLoad s (.sendOther peer) [⟨none, peer, .other⟩]
  | nothing (a : Action) (hfilter : a = .bloomFilter → ∀ peer, ¬ s.GreetsNext peer)
      (hfetched : ∀ headers reply peer more, a = .getDataFetched headers →
        s.getData = .fetching reply peer more → headers = [])
      (htx : a = .broadcast → ∀ peer t, ¬ s.PopsNext peer t) :
      Sends filterLoad s a []

section Sent

variable {filterLoad : FilterLoadMessage} {s : State}

theorem bloomFilter_sent :
    ∃ es, Sends filterLoad s .bloomFilter es ∧
      (s.bloomFilter filterLoad).sent = s.sent ++ es := by
  unfold State.bloomFilter
  by_cases hsent : s.filterSent
  · refine ⟨[], .nothing _ ?_ (by simp) (by simp), by simp [hsent]⟩
    rintro _ peer ⟨hidle, _⟩
    simp [hsent] at hidle
  · rw [if_neg hsent]
    -- a filter goes out only for a connect of a peer that serves blocks
    have hgreets : ∀ peer, s.GreetsNext peer ↔
        (s.queue .bloomFilter).head? = some (.connected peer) ∧ s.isServingBlocks peer := by
      simp [State.GreetsNext, hsent]
    cases hq : s.queue .bloomFilter with
    | nil => exact ⟨[], .nothing _ (by simp [hgreets, hq]) (by simp) (by simp), by simp⟩
    | cons msg rest =>
      cases msg with
      | connected peer =>
        by_cases hserving : s.isServingBlocks peer
        · refine ⟨_, .filter peer ((hgreets peer).mpr ⟨by simp [hq], hserving⟩), ?_⟩
          simp [hserving, State.sendNetwork]
        · refine ⟨[], .nothing _ ?_ (by simp) (by simp), ?_⟩
          · intro _ peer' h
            obtain ⟨hhead, hserving'⟩ := (hgreets peer').mp h
            simp only [hq, List.head?_cons, Option.some.injEq, PeerMessage.connected.injEq] at hhead
            exact hserving (hhead ▸ hserving')
          · simp [hserving]
      | disconnected peer banned =>
        exact ⟨[], .nothing _ (by simp [hgreets, hq]) (by simp) (by simp), by simp⟩
      | incoming peer msg =>
        exact ⟨[], .nothing _ (by simp [hgreets, hq]) (by simp) (by simp), by simp⟩

theorem broadcast_sent :
    ∃ es, Sends filterLoad s .broadcast es ∧ s.broadcast.sent = s.sent ++ es := by
  unfold State.broadcast
  cases hq : s.queue .broadcast with
  | nil => exact ⟨[], .nothing _ (by simp) (by simp) (by simp [State.PopsNext, hq]), by simp⟩
  | cons msg rest =>
    cases msg with
    | connected peer =>
      by_cases hserving : s.isServingBlocks peer
      · simp only [State.setQueue_isServingBlocks, hserving, if_true, State.setQueue_transactions]
        cases ht : s.transactions with
        | nil =>
          refine ⟨[], .nothing _ (by simp) (by simp) (by simp [State.PopsNext, ht]), ?_⟩
          simp
        | cons t ts =>
          refine ⟨_, .tx peer t ⟨by simp [hq], hserving, by simp [ht]⟩, ?_⟩
          simp [State.sendNetwork]
      · refine ⟨[], .nothing _ (by simp) (by simp) ?_, ?_⟩
        · rintro _ peer' t ⟨hhead, hserving', _⟩
          simp only [hq, List.head?_cons, Option.some.injEq, PeerMessage.connected.injEq] at hhead
          exact hserving (hhead ▸ hserving')
        · simp [hserving]
    | disconnected peer banned =>
      exact ⟨[], .nothing _ (by simp) (by simp) (by simp [State.PopsNext, hq]), by simp⟩
    | incoming peer msg =>
      exact ⟨[], .nothing _ (by simp) (by simp) (by simp [State.PopsNext, hq]), by simp⟩

theorem getDataNext_sent : s.getDataNext.sent = s.sent := by
  unfold State.getDataNext
  split
  · simp only
    split <;> (try split) <;> (try split) <;> rfl
  · rfl

theorem getDataFetched_sent (headers : List Sha256dHash) :
    ∃ es, Sends filterLoad s (.getDataFetched headers) es ∧
      (s.getDataFetched headers).sent = s.sent ++ es := by
  unfold State.getDataFetched
  cases hthread : s.getData with
  | fetching reply peer more =>
    by_cases hne : headers = []
    · refine ⟨[], .nothing _ (by simp) ?_ (by simp), by simp [hne]⟩
      rintro _ _ _ _ ⟨rfl⟩ _
      exact hne
    · refine ⟨_, .fetched headers reply peer more hthread hne, ?_⟩
      simp [hne, State.sendNetwork]
  | idle => exact ⟨[], .nothing _ (by simp) (by simp [hthread]) (by simp), by simp⟩
  | waiting peer => exact ⟨[], .nothing _ (by simp) (by simp [hthread]) (by simp), by simp⟩

/-- What a step sends is appended to the control channel. -/
theorem step_sent (filterLoad : FilterLoadMessage) (s : State) (a : Action) :
    ∃ es, Sends filterLoad s a es ∧ (step filterLoad s a).sent = s.sent ++ es := by
  -- most steps send nothing
  have hnothing : ∀ {a : Action}, a ≠ .bloomFilter → (∀ headers, a ≠ .getDataFetched headers) →
      a ≠ .broadcast → (step filterLoad s a).sent = s.sent →
      ∃ es, Sends filterLoad s a es ∧ (step filterLoad s a).sent = s.sent ++ es := by
    intro a hb hf ht hsame
    refine ⟨[], .nothing a (fun h => absurd h hb) ?_ (fun h => absurd h ht), by simp [hsame]⟩
    intro headers _ _ _ h
    exact absurd h (hf headers)
  cases a with
  | bloomFilter => exact bloomFilter_sent
  | getDataFetched headers => exact getDataFetched_sent headers
  | broadcast => exact broadcast_sent
  | sendOther peer => exact ⟨_, .other peer, rfl⟩
  | completeHandshake services =>
    refine hnothing (by simp) (by simp) (by simp) ?_
    simp only [step, State.completeHandshake]
    split <;> rfl
  | connected =>
    refine hnothing (by simp) (by simp) (by simp) ?_
    simp only [step, State.connected]
    split <;> rfl
  | controlLoop =>
    refine hnothing (by simp) (by simp) (by simp) ?_
    simp only [step, State.controlLoop]
    split <;> rfl
  | dispatcher =>
    refine hnothing (by simp) (by simp) (by simp) ?_
    simp only [step, State.dispatcher]
    split
    · rfl
    · split <;> rfl
  | getDataNext => exact hnothing (by simp) (by simp) (by simp) getDataNext_sent
  | getDataWake =>
    refine hnothing (by simp) (by simp) (by simp) ?_
    simp only [step, State.getDataWake]
    split
    · split <;> rfl
    · rfl
  | getDataTimeout =>
    refine hnothing (by simp) (by simp) (by simp) ?_
    simp only [step, State.getDataTimeout]
    split <;> rfl
  | disconnected peer banned => exact hnothing (by simp) (by simp) (by simp) rfl
  | removePeer peer => exact hnothing (by simp) (by simp) (by simp) rfl
  | incoming peer msg => exact hnothing (by simp) (by simp) (by simp) rfl
  | broad tx => exact hnothing (by simp) (by simp) (by simp) rfl

end Sent

end Cashbox.Btc.Stack
