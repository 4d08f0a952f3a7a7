import Cashbox.Btc.HeaviestTip

/-!
# Download of headers

A peer's `headers` message is added to the chain database header by header, and
the modules downstream are told which headers joined the trunk and which left
it. What the method does to the world is recorded as a list of events; a
downstream that replays them is meant to hold the trunk after every message. It
does when every header that is accepted extends the tip, no header is refused
after one was accepted in the same message, and the store does not fail.
-/

namespace Cashbox.Btc

open Cashbox.Lib

variable {W D : Type}

/-! ## Data model -/

abbrev PeerId := Nat

/-- The calls `HeaderDownload` makes to other components, in order. -/
inductive Event where
  | timeoutReceived (peer : PeerId)
  | timeoutExpect (peer : PeerId)
  | saveHeader (hash : Sha256dHash) (time : UInt32)
  | ban (peer : PeerId) (increment : Nat)
  | blockDisconnected (header : BlockHeader)
  | headerConnected (header : BlockHeader) (height : Nat)
  | getHeaders (peer : PeerId) (locator : List Sha256dHash) (first : Sha256dHash)
  | height (height : Nat)
  deriving DecidableEq, Repr

structure HeaderDownload (W D : Type) where
  chaindb : ChainDb W D
  events : List Event

/-- The local variables of `headers`: the notifications collected since the last
flush, and what the whole message did. -/
structure Batch where
  connectedHeaders : List (BlockHeader × Nat)
  disconnectedHeaders : List BlockHeader
  someNew : Bool
  movedTip : Option Sha256dHash
  height : Nat

namespace HeaderDownload

def emit (e : Event) : Method (HeaderDownload W D) Error Unit :=
  Method.modify fun s => { s with events := s.events ++ [e] }

def onChainDb {α : Type} (m : Method (ChainDb W D) Error α) :
    Method (HeaderDownload W D) Error α :=
  m.on HeaderDownload.chaindb fun s c => { s with chaindb := c }

/-- Whether the timeouts say that the peer still owes headers, from the calls
made so far. -/
abbrev Busy := List Event → PeerId → Bool

/-- Get headers this peer is ahead of us. -/
def getHeaders (busy : Busy) (peer : PeerId) : Method (HeaderDownload W D) Error Unit := do
  let s ← Method.get
  if busy s.events peer then pure ()
  else
    let locator ← Method.lift s.chaindb.headercache.locatorHashes
    match locator.head? with
    | some first =>
      emit (.timeoutExpect peer)
      emit (.getHeaders peer locator first)
    | none => pure ()

/-- Downstream calls: first the disconnected headers, then the connected ones. -/
def notify (b : Batch) : Method (HeaderDownload W D) Error Unit :=
  Method.modify fun s => { s with
    events := s.events ++ b.disconnectedHeaders.map Event.blockDisconnected ++
      b.connectedHeaders.map fun c => Event.headerConnected c.1 c.2 }

section Headers

variable [LinearOrder W] (store : BitcoinAdaptor W D) (env : HeaderEnv W)

/-- `forwards.last().unwrap()`, where there are forwards. -/
def movedTo (b : Batch) (added : Added W) : Outcome Error (Option Sha256dHash) :=
  match added.forwards with
  | some forwards => Outcome.ofSome forwards.getLast? >>= fun last => .ok (some last)
  | none => .ok b.movedTip

/-- What an accepted header does to the local variables before its unwinds. -/
def accept (b : Batch) (added : Added W) : Outcome Error Batch := do
  let movedTip ← movedTo b added
  return { b with
    connectedHeaders := b.connectedHeaders ++
      [(added.cached.stored.header, added.cached.stored.height)]
    someNew := true
    movedTip := movedTip
    height := added.cached.stored.height }

/-- The headers of unwound hashes join the disconnected ones. -/
def disconnect (c : ChainDb W D) (unwinds : List Sha256dHash) (b : Batch) :
    Outcome Error Batch := do
  let headers ← unwinds.mapM fun h => Outcome.ofSome (c.getHeader h)
  return { b with
    disconnectedHeaders := b.disconnectedHeaders ++ headers.map fun h => h.stored.header }

/-- The inner loop: adds headers until the queue is empty or the trunk was
rewritten. `none` is the early return of `headers` at a refused header. -/
def innerLoop (peer : PeerId) : List BlockHeader → Batch →
    Method (HeaderDownload W D) Error (Option (Batch × List BlockHeader))
  | [], b => pure (some (b, []))
  | header :: queue, b => do
    match ← (onChainDb (ChainDb.addHeader store env header)).attempt with
    | .ok (some added) =>
      emit (.saveHeader (env.bitcoinHash header) header.time)
      let b ← Method.lift (accept b added)
      match added.unwinds with
      | some unwinds =>
        let s ← Method.get
        let b ← Method.lift (disconnect s.chaindb unwinds b)
        return some (b, queue)
      | none => innerLoop peer queue b
    | .ok none => innerLoop peer queue b
    | .error .spvBadProofOfWork =>
      emit (.ban peer 100)
      return none
    | .error _ => return none

/-- The outer loop: inner loops with a flush after each. Every inner loop takes
at least one header, so the length of the queue bounds their number. -/
def outerLoop (peer : PeerId) : Nat → List BlockHeader → Batch →
    Method (HeaderDownload W D) Error (Option Batch)
  | _, [], b => pure (some b)
  | 0, _ :: _, _ => Method.lift (.panic .loopBound)
  | fuel + 1, header :: queue, b => do
    match ← innerLoop store env peer (header :: queue)
        { b with connectedHeaders := [], disconnectedHeaders := [] } with
    | none => return none
    | some (b, queue) =>
      onChainDb (ChainDb.batch store)
      notify b
      outerLoop peer fuel queue b

/-- Ask if the peer knows even more. -/
def askMore (busy : Busy) (peer : PeerId) (b : Batch) : Method (HeaderDownload W D) Error Unit :=
  if b.someNew then getHeaders busy peer else pure ()

/-- Report the height of a new tip. -/
def reportHeight (b : Batch) : Method (HeaderDownload W D) Error Unit :=
  if b.movedTip.isSome then emit (.height b.height) else pure ()

/-- Process a `headers` message. -/
def headers (busy : Busy) (peer : PeerId) (headers : List BlockHeader) :
    Method (HeaderDownload W D) Error Unit := do
  emit (.timeoutReceived peer)
  if headers.length > 0 then
    let s ← Method.get
    match s.chaindb.headerTip with
    | none => Method.lift (.err .noTip)
    | some tip =>
      match ← outerLoop store env peer headers.length headers
          ⟨[], [], false, none, tip.stored.height⟩ with
      | none => return ()
      | some b =>
        askMore busy peer b
        reportHeight b

end Headers

end HeaderDownload

end Cashbox.Btc
