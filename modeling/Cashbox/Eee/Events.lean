import Cashbox.Lib.Method
import Cashbox.Eee.Extrinsic
import Cashbox.Eee.Metadata

/-!
# Decoding events

The events of a block are a list of records: a phase, a module and a variant index, the
arguments and the topics. The arguments carry no types, so `decode_raw_bytes` skips them
by the sizes that are registered for the names in the metadata.

Two kinds of arguments are not skipped by their size. A `PhantomData` ends the list of
arguments it is in. An argument whose type has no size is taken for the result of a
dispatch: one byte, and two more if that byte is one.

The dispatch types of the runtime are parameters with their codecs.
-/

namespace Cashbox.Eee

open Cashbox.Lib Cashbox.Scale

/-! ## Events -/

inductive Phase where
  | applyExtrinsic (index : UInt32)
  | finalization
  | initialization
  deriving DecidableEq, Repr

def phaseCodec : Codec Phase where
  encode
    | .applyExtrinsic index => 0 :: u32.encode index
    | .finalization => [1]
    | .initialization => [2]
  decode
    | [] => none
    | b :: input =>
      if b = 0 then (u32.decode input).map fun x => (.applyExtrinsic x.1, x.2)
      else if b = 1 then some (.finalization, input)
      else if b = 2 then some (.initialization, input)
      else none
  decode_append x rest := by
    cases x with
    | applyExtrinsic index =>
      exact congrArg (Option.map fun x => (Phase.applyExtrinsic x.1, x.2))
        (u32.decode_append index rest)
    | finalization => rfl
    | initialization => rfl

/-- The codecs of the runtime's dispatch types. -/
structure DispatchCodecs (DispatchError DispatchInfo : Type) where
  error : Codec DispatchError
  info : Codec DispatchInfo

/-- Event for the System module. -/
inductive SystemEvent (DispatchError DispatchInfo : Type) where
  | extrinsicSuccess (info : DispatchInfo)
  | extrinsicFailed (error : DispatchError) (info : DispatchInfo)
  | codeUpdated
  | newAccount (account : AccountId)
  | killedAccount (account : AccountId)

/-- Raw bytes for an Event -/
structure RawEvent where
  /-- The name of the module from whence the Event originated -/
  module : String
  /-- The name of the Event -/
  variant : String
  /-- The raw Event data -/
  data : Bytes
  deriving DecidableEq

/-- Top level Event that can be produced by a substrate runtime -/
inductive RuntimeEvent (DispatchError DispatchInfo : Type) where
  | system (event : SystemEvent DispatchError DispatchInfo)
  | raw (event : RawEvent)

variable {E I : Type} (dispatch : DispatchCodecs E I)

def systemEvent : Codec (SystemEvent E I) where
  encode
    | .extrinsicSuccess info => 0 :: dispatch.info.encode info
    | .extrinsicFailed error info => 1 :: (dispatch.error.prod dispatch.info).encode (error, info)
    | .codeUpdated => [2]
    | .newAccount account => 3 :: (fixedBytes 32).encode account
    | .killedAccount account => 4 :: (fixedBytes 32).encode account
  decode
    | [] => none
    | b :: input =>
      if b = 0 then (dispatch.info.decode input).map fun x => (.extrinsicSuccess x.1, x.2)
      else if b = 1 then
        ((dispatch.error.prod dispatch.info).decode input).map fun x =>
          (.extrinsicFailed x.1.1 x.1.2, x.2)
      else if b = 2 then some (.codeUpdated, input)
      else if b = 3 then ((fixedBytes 32).decode input).map fun x => (.newAccount x.1, x.2)
      else if b = 4 then ((fixedBytes 32).decode input).map fun x => (.killedAccount x.1, x.2)
      else none
  decode_append x rest := by
    cases x with
    | extrinsicSuccess info =>
      exact congrArg (Option.map fun x => (SystemEvent.extrinsicSuccess x.1, x.2))
        (dispatch.info.decode_append info rest)
    | extrinsicFailed error info =>
      exact congrArg (Option.map fun x => (SystemEvent.extrinsicFailed x.1.1 x.1.2, x.2))
        ((dispatch.error.prod dispatch.info).decode_append (error, info) rest)
    | codeUpdated => rfl
    | newAccount account =>
      exact congrArg (Option.map fun x => (SystemEvent.newAccount x.1, x.2))
        ((fixedBytes 32).decode_append account rest)
    | killedAccount account =>
      exact congrArg (Option.map fun x => (SystemEvent.killedAccount x.1, x.2))
        ((fixedBytes 32).decode_append account rest)

/-! ## The decoder -/

structure EventsDecoder where
  metadata : Metadata
  typeSizes : List (String × Nat)

/-- A type without bytes has no size. -/
def EventsDecoder.registerTypeSize (d : EventsDecoder) (type : String × Nat) :
    Outcome EventsError EventsDecoder :=
  if type.2 > 0 then .ok { d with typeSizes := type :: d.typeSizes }
  else .err (.typeSizeUnavailable type.1)

/-- default event arg type sizes for dynamic decoding of events -/
def registeredTypes : List (String × Nat) :=
  [("bool", 1), ("ReferendumIndex", 4), ("Kind", 16), ("AuthorityId", 32), ("u8", 1), ("u32", 4),
   ("u64", 8), ("AccountIndex", 4), ("EraIndex", 4), ("SessionIndex", 4), ("PropIndex", 4),
   ("ProposalIndex", 4), ("AuthorityIndex", 4), ("AuthorityWeight", 8), ("MemberCount", 4),
   ("TokenXQuantity", 16), ("OriginalNonce", 4), ("AccountId", 32), ("BlockNumber", 8),
   ("Moment", 8), ("Hash", 32), ("Balance", 16),
   -- VoteThreshold enum index
   ("VoteThreshold", 1)]

def EventsDecoder.tryFrom (metadata : Metadata) : Outcome EventsError EventsDecoder :=
  registeredTypes.foldlM EventsDecoder.registerTypeSize { metadata, typeSizes := [] }

/-- The decoder that a `ChainHelper` is initialised with. -/
def EventsDecoder.ofMetadata (metadata : Metadata) : EventsDecoder :=
  { metadata, typeSizes := registeredTypes.reverse }

/-- Every registered type has a size, so that no metadata makes `try_from` fail. -/
theorem EventsDecoder.tryFrom_eq (metadata : Metadata) :
    tryFrom metadata = .ok (ofMetadata metadata) := rfl

/-- `str::contains`. -/
def containsText (pat : Text) : Text → Bool
  | [] => pat.isPrefixOf []
  | c :: s => pat.isPrefixOf (c :: s) || containsText pat s

def isPhantomData (name : String) : Bool := containsText "PhantomData".toList name.toList

/-- The bytes that are left to decode, and the data of the event so far. -/
structure Cursor where
  input : Bytes
  output : Bytes
  deriving DecidableEq

/-- A decoder on the input. -/
def readWith {α : Type} (decode : Decoder α) : Method Cursor EventsError α where
  run c :=
    match decode c.input with
    | some (x, rest) => ({ c with input := rest }, .ok x)
    | none => (c, .err (.codecError .input))

def write (bytes : Bytes) : Method Cursor EventsError Unit :=
  Method.modify fun c => { c with output := c.output ++ bytes }

mutual

/-- One turn of the loop over the arguments; `false` where it returns. -/
def decodeArg (typeSizes : List (String × Nat)) : EventArg → Method Cursor EventsError Bool
  | .vec arg => do
    let len ← readWith (decodeCompact 4)
    write (encodeCompact len)
    let _ ← (decodeArg typeSizes arg).times len
    pure true
  | .tuple args => do
    decodeRawBytes typeSizes args
    pure true
  | .primitive name =>
    -- PhantomData is size 0
    if isPhantomData name then pure false
    else
      match typeSizes.lookup name with
      | some size => do
        let buf ← readWith (takeBytes size)
        write buf
        pure true
      | none => Method.lift (.err (.typeSizeUnavailable name))

def decodeRawBytes (typeSizes : List (String × Nat)) :
    List EventArg → Method Cursor EventsError Unit
  | [] => pure ()
  | arg :: args => do
    let goesOn ← decodeArg typeSizes arg
    if goesOn then decodeRawBytes typeSizes args else pure ()

end

/-- A read whose result is ignored takes nothing from an input that is too short. -/
def skipTwo : Method Cursor EventsError Unit :=
  Method.modify fun c => if c.input.length < 2 then c else { c with input := c.input.drop 2 }

/-- The arguments of an event; a type without a size is guessed. -/
def decodeArguments (typeSizes : List (String × Nat)) (args : List EventArg) :
    Method Cursor EventsError Unit := do
  let result ← (decodeRawBytes typeSizes args).attempt
  match result with
  | .ok _ => pure ()
  | .error (.typeSizeUnavailable _) => do
    -- result 0 correct, 1 error
    let b ← readWith u8.decode
    if b = 1 then skipTwo else pure ()
  | .error e => Method.lift (.err e)

namespace EventsDecoder

variable (d : EventsDecoder)

/-- The event of a record, behind the index of its module. -/
def decodeEvent (module : ModuleWithEvents) : Method Cursor EventsError (RuntimeEvent E I) :=
  if module.name = "System" then do
    let event ← readWith (systemEvent dispatch).decode
    pure (.system event)
  else do
    let eventVariant ← readWith u8.decode
    let metadata ← Method.lift ((module.event eventVariant).mapErr .metadata)
    -- the data of each event starts empty
    Method.modify fun c => { c with output := [] }
    decodeArguments d.typeSizes metadata.arguments
    let c ← Method.get
    pure (.raw { module := module.name, variant := metadata.name, data := c.output })

/-- One record. -/
def decodeRecord : Method Cursor EventsError (Phase × RuntimeEvent E I) := do
  let phase ← readWith phaseCodec.decode
  let moduleVariant ← readWith u8.decode
  let module ← Method.lift ((d.metadata.moduleWithEvents moduleVariant).mapErr .metadata)
  let event ← d.decodeEvent dispatch module
  -- topics come after the event data in EventRecord
  let _ ← readWith (vec (fixedBytes 32)).decode
  pure (phase, event)

def decodeEvents : Method Cursor EventsError (List (Phase × RuntimeEvent E I)) := do
  let len ← readWith (decodeCompact 4)
  (d.decodeRecord dispatch).times len

end EventsDecoder

end Cashbox.Eee
