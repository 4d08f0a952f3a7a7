import Cashbox.Lib.Text

/-!
# Synchronising the history of an account

For the account that is looked at a timer starts a round every thirty seconds, one at a time:
it asks a node for the blocks in which a storage key of the account changed, window by window,
saves the extrinsics of these blocks, and after each window the height it got to. A round waits
for an answer at many places, and while it waits the current wallet may change and the rounds
of other accounts go on.

What waits is the program; the answers come from the node and from the wallet library.
-/

namespace Cashbox.Eee.SyncTxs

open Cashbox.Lib

/-! ## Sync records -/

/-- How far the history of an account is saved; the height is kept as the number it is read as. -/
structure AccountInfoSyncProg where
  account : Text
  blockNo : Nat
  blockHash : Text
  deriving DecidableEq

/-- `find_by_account` -/
def findByAccount (account : Text) (records : List AccountInfoSyncProg) :
    Option AccountInfoSyncProg := records.find? fun record => record.account = account

/-- `update_sync_record`: the record that is found is changed, or a new one is saved. -/
def updateSyncRecord (syncRecord : AccountInfoSyncProg) :
    List AccountInfoSyncProg → List AccountInfoSyncProg
  | [] => [syncRecord]
  | record :: records =>
    if record.account = syncRecord.account then syncRecord :: records
    else record :: updateSyncRecord syncRecord records

/-! ## Rounds -/

def onceCount : Nat := 3000

/-- The variables of the loop over the windows. -/
structure Window where
  latestBlockHeight : Nat
  startBlockHeight : Nat
  /-- the account of the record that the start was read from; the code does not keep it -/
  startedFrom : Option Text
  i : Nat
  deriving DecidableEq

namespace Window

/-- The rounded quotient of the heights, which are far below the limits of a `double`. -/
def queryCount (w : Window) : Nat :=
  (w.latestBlockHeight - w.startBlockHeight + (onceCount - 1)) / onceCount

def currentStartBlockNum (w : Window) : Nat := w.startBlockHeight + w.i * onceCount + 1

def endBlockHeight (w : Window) : Nat :=
  min (w.currentStartBlockNum + onceCount) w.latestBlockHeight

end Window

/-- The variables of the loop over the changes of a window. -/
structure Pass where
  window : Window
  endBlockHash : Text
  /-- the blocks that were passed over without saving them for the account of the round; the
  code does not keep them -/
  missed : List Text
  deriving DecidableEq

/-- What a round of `_loadEeeChainTxHistoryData` waits for. An element of the changes is the
hash of its block, if it has one. -/
inductive Waiting where
  | config
  | chainHeader
  | eeeStorageKey (latestBlockHeight : Nat)
  | tokenXStorageKey (latestBlockHeight : Nat)
  | startBlockHash (w : Window)
  | endBlockHash (w : Window) (startBlockHash : Text)
  | queryStorage (w : Window) (startBlockHash endBlockHash : Text)
  | block (pass : Pass) (blockHash : Text) (rest : List (Option Text))
  | stateStorage (pass : Pass) (blockHash : Text) (rest : List (Option Text))
  deriving DecidableEq

/-- An answer with its result; everything else ends the round, by a `return` or an exception. -/
inductive Answer where
  | failure
  | config
  | header (number : Nat)
  | storageKey (key : Text)
  | blockHash (hash : Text)
  | changes (storageChanges : List (Option Text))
  | block (extrinsics : List Text)
  | events
  deriving DecidableEq

/-- What the calls of the wallet library return that a round does not wait for. -/
structure Library where
  getSyncRecord : Bool
  saveExtrinsicDetail : Bool
  updateSyncRecord : Bool
  deriving DecidableEq

/-! ## Instances -/

/-- What `_start` waits for. -/
inductive Starting where
  | config
  | eeeStorageKey
  | tokenXStorageKey
  deriving DecidableEq

structure Instance where
  address : Text
  timer : Bool
  starting : Option Starting
  /-- the round that runs, `_timing` -/
  round : Option Waiting
  eeeStorageKey : Text
  tokenXStorageKey : Text
  deriving DecidableEq

/-- A window of heights in which the changes of an account were queried. -/
structure Query where
  address : Text
  first : Nat
  last : Nat
  deriving DecidableEq

structure State where
  /-- `currentChainAddress` of the wallets -/
  current : Text
  instances : List Instance
  /-- the keys of `_instance`, with the place of the instance -/
  registered : List (Text × Nat)
  records : List AccountInfoSyncProg
  /-- the accounts and blocks for which `saveExtrinsicDetail` succeeded -/
  saved : List (Text × Text)
  queried : List Query

def State.new (current : Text) : State := ⟨current, [], [], [], [], []⟩

namespace State

def stop (s : State) (k : Nat) : State :=
  { s with instances := s.instances.modify k fun it => { it with timer := false } }

/-- `_getInstance` -/
def startOnce (s : State) (address : Text) : State :=
  let others := s.registered.filter fun r => r.1 ≠ address
  let s := others.foldl (fun s r => s.stop r.2) s
  let s := { s with registered := s.registered.filter fun r => r.1 = address }
  if s.registered.isEmpty then
    { s with
      instances := s.instances ++ [⟨address, false, some .config, none, [], []⟩]
      registered := [(address, s.instances.length)] }
  else s

end State

/-- `_start`, after an answer. -/
def Instance.started (it : Instance) : Starting → Answer → Instance
  | .config, .config => { it with starting := some .eeeStorageKey }
  | .eeeStorageKey, .storageKey key =>
    { it with eeeStorageKey := key, starting := some .tokenXStorageKey }
  | .tokenXStorageKey, .storageKey key =>
    { it with tokenXStorageKey := key, starting := none, timer := true }
  | _, _ => { it with starting := none }

/-! ## One answer -/

/-- How a round goes on. -/
inductive Next where
  | ends
  | awaits (waiting : Waiting)
  /-- with the loop over these changes -/
  | elements (pass : Pass) (rest : List (Option Text))
  deriving DecidableEq

section Code

variable (toLowerCase : Text → Text)

/-- The next round of the loop over the windows. -/
def nextWindow (w : Window) : Next :=
  if w.i < w.queryCount then .awaits (.startBlockHash w) else .ends

/-- The record of the current account says where to start, if that is the account of the round. -/
def startWindow (s : State) (it : Instance) (latestBlockHeight : Nat) (lib : Library) : Window :=
  let accountInfoSyncProg := if lib.getSyncRecord then findByAccount s.current s.records else none
  match accountInfoSyncProg with
  | some record =>
    if toLowerCase record.account = toLowerCase it.address then
      ⟨latestBlockHeight, record.blockNo, some record.account, 0⟩
    else ⟨latestBlockHeight, 0, none, 0⟩
  | none => ⟨latestBlockHeight, 0, none, 0⟩

/-- A storage key that is missing is loaded, and without both the round ends. -/
def withKeys (s : State) (it : Instance) (latestBlockHeight : Nat) (lib : Library) : Next :=
  if it.eeeStorageKey.trim.isEmpty || it.tokenXStorageKey.trim.isEmpty then .ends
  else nextWindow (startWindow toLowerCase s it latestBlockHeight lib)

def loadTokenXKey (s : State) (it : Instance) (latestBlockHeight : Nat) (lib : Library) : Next :=
  if it.tokenXStorageKey.isEmpty then .awaits (.tokenXStorageKey latestBlockHeight)
  else withKeys toLowerCase s it latestBlockHeight lib

def loadEeeKey (s : State) (it : Instance) (latestBlockHeight : Nat) (lib : Library) : Next :=
  if it.eeeStorageKey.isEmpty then .awaits (.eeeStorageKey latestBlockHeight)
  else loadTokenXKey toLowerCase s it latestBlockHeight lib

/-- `saveExtrinsicDetail` for the current account, whose result is logged only. -/
def saveExtrinsicDetail (s : State) (it : Instance) (pass : Pass) (blockHash : Text)
    (lib : Library) : State × Pass :=
  let s' :=
    if lib.saveExtrinsicDetail then { s with saved := (s.current, blockHash) :: s.saved } else s
  let missed := if lib.saveExtrinsicDetail ∧ s.current = it.address then pass.missed
    else blockHash :: pass.missed
  (s', { pass with missed := missed })

/-- A round goes on with an answer. -/
def advance (s : State) (it : Instance) (lib : Library) : Waiting → Answer → State × Instance × Next
  | .config, .config => (s, it, .awaits .chainHeader)
  | .chainHeader, .header number => (s, it, loadEeeKey toLowerCase s it number lib)
  | .eeeStorageKey latest, .storageKey key =>
    let it := { it with eeeStorageKey := key }
    (s, it, loadTokenXKey toLowerCase s it latest lib)
  | .tokenXStorageKey latest, .storageKey key =>
    let it := { it with tokenXStorageKey := key }
    (s, it, withKeys toLowerCase s it latest lib)
  | .startBlockHash w, .blockHash hash =>
    (s, it, if hash.isEmpty then .ends else .awaits (.endBlockHash w hash))
  | .endBlockHash w startBlockHash, .blockHash hash =>
    (s, it, if hash.isEmpty then .ends else .awaits (.queryStorage w startBlockHash hash))
  | .queryStorage w _ endBlockHash, .changes storageChanges =>
    let s :=
      { s with queried := ⟨it.address, w.currentStartBlockNum, w.endBlockHeight⟩ :: s.queried }
    (s, it,
      if storageChanges.isEmpty then .ends else .elements ⟨w, endBlockHash, []⟩ storageChanges)
  | .block pass blockHash rest, .block extrinsics =>
    (s, it,
      -- no data, which is no error
      if extrinsics.length ≤ 1 then .elements { pass with missed := blockHash :: pass.missed } rest
      else .awaits (.stateStorage pass blockHash rest))
  | .stateStorage pass blockHash rest, .events =>
    let (s, pass) := saveExtrinsicDetail s it pass blockHash lib
    (s, it, .elements pass rest)
  | _, _ => (s, it, .ends)

/-- The loop over the changes, and what follows it. -/
def loopElements (s : State) (it : Instance) (lib : Library) (pass : Pass) :
    List (Option Text) → State × Option Waiting
  | [] =>
    if lib.updateSyncRecord then
      let record := ⟨it.address, pass.window.endBlockHeight, pass.endBlockHash⟩
      ({ s with records := updateSyncRecord record s.records },
        match nextWindow { pass.window with i := pass.window.i + 1 } with
        | .awaits waiting => some waiting
        | _ => none)
    else (s, none)
  | none :: rest => loopElements s it lib pass rest
  | some blockHash :: rest => (s, some (.block pass blockHash rest))

def resume (s : State) (it : Instance) (lib : Library) (waiting : Waiting) (answer : Answer) :
    State × Instance :=
  match advance toLowerCase s it lib waiting answer with
  | (s, it, .ends) => (s, { it with round := none })
  | (s, it, .awaits waiting) => (s, { it with round := some waiting })
  | (s, it, .elements pass rest) =>
    let (s, round) := loopElements s it lib pass rest
    (s, { it with round := round })

/-! ## Actions -/

inductive Action where
  | selectWallet (address : Text)
  /-- the page of an account is opened -/
  | startOnce (address : Text)
  /-- an answer for `_start` of an instance -/
  | started (k : Nat) (answer : Answer)
  /-- the timer of an instance -/
  | tick (k : Nat)
  /-- an answer for the round of an instance -/
  | resume (k : Nat) (answer : Answer) (lib : Library)

def step (s : State) : Action → State
  | .selectWallet address => { s with current := address }
  | .startOnce address => s.startOnce address
  | .started k answer =>
    match s.instances[k]? with
    | some it =>
      match it.starting with
      | some starting => { s with instances := s.instances.set k (it.started starting answer) }
      | none => s
    | none => s
  | .tick k =>
    match s.instances[k]? with
    | some it =>
      if it.timer && it.round.isNone then
        { s with instances := s.instances.set k { it with round := some .config } }
      else s
    | none => s
  | .resume k answer lib =>
    match s.instances[k]? with
    | some it =>
      match it.round with
      | some waiting =>
        let (s, it) := resume toLowerCase s it lib waiting answer
        { s with instances := s.instances.set k it }
      | none => s
    | none => s

end Code

end Cashbox.Eee.SyncTxs
