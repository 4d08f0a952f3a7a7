import Cashbox.Lib.UniqueTable
import Cashbox.Eee.DecodeExtrinsics

/-!
# Metadata from the metadata of a runtime

`Metadata::try_from` turns the metadata that a runtime gives into the maps that the wallet
looks in. A runtime of version 12 gives the index of each module. One of version 11 gives none:
the modules with calls are counted, and so are those with events, each in a machine word of
one byte.
-/

namespace Cashbox.Eee

open Cashbox.Lib

/-! ## What a runtime gives -/

/-- A value as a runtime of this program would encode it, or one that was decoded. -/
inductive DecodeDifferent (α : Type) where
  | encode
  | decoded (value : α)
  deriving DecidableEq, Repr

namespace RuntimeMetadata

structure FunctionMetadata where
  name : DecodeDifferent String

structure EventMetadata where
  name : DecodeDifferent String
  arguments : DecodeDifferent (List String)

structure StorageEntryMetadata where
  name : DecodeDifferent String
  ty : StorageEntryType
  default : DecodeDifferent Bytes

structure StorageMetadata where
  modulePrefix : DecodeDifferent String
  entries : DecodeDifferent (List StorageEntryMetadata)

/-- A module of a runtime of version 11. -/
structure ModuleMetadata where
  name : DecodeDifferent String
  storage : Option (DecodeDifferent StorageMetadata)
  calls : Option (DecodeDifferent (List FunctionMetadata))
  event : Option (DecodeDifferent (List EventMetadata))

/-- A module of a runtime of version 12. -/
structure ModuleMetadataV12 extends ModuleMetadata where
  index : UInt8

end RuntimeMetadata

inductive RuntimeMetadata where
  | v11 (modules : DecodeDifferent (List RuntimeMetadata.ModuleMetadata))
  | v12 (modules : DecodeDifferent (List RuntimeMetadata.ModuleMetadataV12))
  /-- One of the versions before them. -/
  | older

structure RuntimeMetadataPrefixed where
  magic : UInt32
  metadata : RuntimeMetadata

/-- "meta" -/
def metaReserved : UInt32 := 0x6174656d

/-! ## Conversion -/

inductive ConversionError where
  | invalidPrefix
  | invalidVersion
  | expectedDecoded
  | invalidEventArg (arg : Text) (reason : String)
  deriving DecidableEq, Repr

def convert {α : Type} : DecodeDifferent α → Except ConversionError α
  | .decoded value => .ok value
  | .encode => .error .expectedDecoded

/-- `split(',')` -/
def splitComma : Text → List Text
  | [] => [[]]
  | c :: rest =>
    if c = ',' then [] :: splitComma rest
    else
      match splitComma rest with
      | piece :: pieces => (c :: piece) :: pieces
      | [] => [[c]]

theorem length_le_of_mem_splitComma {s piece : Text} (h : piece ∈ splitComma s) :
    piece.length ≤ s.length := by
  induction s generalizing piece with
  | nil => simp_all [splitComma]
  | cons c rest ih =>
    unfold splitComma at h
    split at h
    · rcases List.mem_cons.mp h with rfl | h
      · exact Nat.zero_le _
      · exact Nat.le_succ_of_le (ih h)
    · split at h
      · rename_i first pieces hsplit
        rcases List.mem_cons.mp h with rfl | h
        · exact Nat.succ_le_succ (ih (by rw [hsplit]; exact List.mem_cons_self))
        · exact Nat.le_succ_of_le (ih (by rw [hsplit]; exact List.mem_cons_of_mem _ h))
      · rw [List.mem_singleton.mp h]
        exact Nat.succ_le_succ (Nat.zero_le _)

theorem length_trim_le (s : Text) : s.trim.length ≤ s.length := by
  unfold Text.trim Text.trimMatches
  rw [List.length_reverse]
  refine (List.dropWhile_sublist _).length_le.trans ?_
  rw [List.length_reverse]
  exact (List.dropWhile_sublist _).length_le

/-- `EventArg::from_str` -/
def EventArg.fromStr (s : Text) : Except ConversionError EventArg :=
  match s with
  | 'V' :: 'e' :: 'c' :: '<' :: inner =>
    if inner.getLast? = some '>' then do
      let arg ← fromStr inner.dropLast
      .ok (.vec arg)
    else .error (.invalidEventArg s "Expected closing `>` for `Vec`")
  | '(' :: inner =>
    if inner.getLast? = some ')' then do
      let args ← (splitComma inner.dropLast).attach.mapM fun ⟨arg, _⟩ => fromStr arg.trim
      .ok (.tuple args)
    else .error (.invalidEventArg s "Expecting closing `)` for tuple")
  | s => .ok (.primitive (String.ofList s))
termination_by s.length
decreasing_by
  · simp only [List.length_cons, List.length_dropLast]
    omega
  · rename_i hmem
    have hpiece := length_le_of_mem_splitComma hmem
    have htrim := length_trim_le arg
    rw [List.length_dropLast] at hpiece
    rw [List.length_cons]
    omega

def convertEvent (event : RuntimeMetadata.EventMetadata) :
    Except ConversionError ModuleEventMetadata := do
  let name ← convert event.name
  let arguments ← convert event.arguments
  let arguments ← arguments.mapM fun arg => EventArg.fromStr arg.toList
  .ok { name, arguments }

def convertEntry (modulePrefix storagePrefix : String)
    (entry : RuntimeMetadata.StorageEntryMetadata) : Except ConversionError StorageMetadata := do
  let default ← convert entry.default
  .ok { modulePrefix, storagePrefix, ty := entry.ty, default }

/-- The loop over the entries of the storage of a module. -/
def storageLoop (modulePrefix : String) : List RuntimeMetadata.StorageEntryMetadata →
    List (String × StorageMetadata) → Except ConversionError (List (String × StorageMetadata))
  | [], storageMap => .ok storageMap
  | entry :: entries, storageMap => do
    let storagePrefix ← convert entry.name
    let entry ← convertEntry modulePrefix storagePrefix entry
    storageLoop modulePrefix entries (hashMapInsert storageMap (storagePrefix, entry))

def convertStorage : Option (DecodeDifferent RuntimeMetadata.StorageMetadata) →
    Except ConversionError (List (String × StorageMetadata))
  | none => .ok []
  | some storage => do
    let storage ← convert storage
    let modulePrefix ← convert storage.modulePrefix
    let entries ← convert storage.entries
    storageLoop modulePrefix entries []

/-- The loop over the calls of a module, with the index of the first. -/
def callsLoop : Nat → List RuntimeMetadata.FunctionMetadata → List (String × UInt8) →
    Except ConversionError (List (String × UInt8))
  | _, [], callMap => .ok callMap
  | index, call :: calls, callMap => do
    let name ← convert call.name
    callsLoop (index + 1) calls (hashMapInsert callMap (name, UInt8.ofNat index))

def convertCalls (calls : DecodeDifferent (List RuntimeMetadata.FunctionMetadata)) :
    Except ConversionError (List (String × UInt8)) := do
  let calls ← convert calls
  callsLoop 0 calls []

/-- The loop over the events of a module, with the index of the first. -/
def eventsLoop : Nat → List RuntimeMetadata.EventMetadata →
    List (UInt8 × ModuleEventMetadata) → Except ConversionError (List (UInt8 × ModuleEventMetadata))
  | _, [], eventMap => .ok eventMap
  | index, event :: events, eventMap => do
    let event ← convertEvent event
    eventsLoop (index + 1) events (hashMapInsert eventMap (UInt8.ofNat index, event))

def convertEvents (events : DecodeDifferent (List RuntimeMetadata.EventMetadata)) :
    Except ConversionError (List (UInt8 × ModuleEventMetadata)) := do
  let events ← convert events
  eventsLoop 0 events []

/-! ### One module -/

/-- The storage of a module, and its name. -/
def insertModule (module : RuntimeMetadata.ModuleMetadata) (m : Metadata) :
    Except ConversionError (String × Metadata) := do
  let moduleName ← convert module.name
  let storageMap ← convertStorage module.storage
  .ok (moduleName, { m with modules := hashMapInsert m.modules (moduleName, ⟨storageMap⟩) })

def insertCalls (module : RuntimeMetadata.ModuleMetadata) (moduleName : String) (index : UInt8)
    (m : Metadata) : Except ConversionError Metadata :=
  match module.calls with
  | none => .ok m
  | some calls => do
    let callMap ← convertCalls calls
    .ok { m with modulesWithCalls :=
            hashMapInsert m.modulesWithCalls (moduleName, ⟨index, moduleName, callMap⟩) }

def insertEvents (module : RuntimeMetadata.ModuleMetadata) (moduleName : String) (index : UInt8)
    (m : Metadata) : Except ConversionError Metadata :=
  match module.event with
  | none => .ok m
  | some events => do
    let eventMap ← convertEvents events
    .ok { m with modulesWithEvents :=
            hashMapInsert m.modulesWithEvents (moduleName, ⟨index, moduleName, eventMap⟩) }

/-! ### All modules -/

/-- The loop over the modules of version 12. -/
def convertV12 : List RuntimeMetadata.ModuleMetadataV12 → Metadata →
    Except ConversionError Metadata
  | [], m => .ok m
  | module :: modules, m => do
    let (moduleName, m) ← insertModule module.toModuleMetadata m
    let m ← insertCalls module.toModuleMetadata moduleName module.index m
    let m ← insertEvents module.toModuleMetadata moduleName module.index m
    convertV12 modules m

/-- `+= 1` on a `u8`, after a module that is counted. -/
def nextIndex (counted : Bool) (index : UInt8) : Outcome ConversionError UInt8 :=
  if counted then if index = 255 then .panic .addOverflow else .ok (index + 1) else .ok index

/-- The loop over the modules of version 11, with the two counters. -/
def convertV11 : List RuntimeMetadata.ModuleMetadata → UInt8 → UInt8 → Metadata →
    Outcome ConversionError Metadata
  | [], _, _, m => .ok m
  | module :: modules, callModuleIndex, eventModuleIndex, m => do
    let (moduleName, m) ← Outcome.ofExcept (insertModule module m)
    let m ← Outcome.ofExcept (insertCalls module moduleName callModuleIndex m)
    let callModuleIndex ← nextIndex module.calls.isSome callModuleIndex
    let m ← Outcome.ofExcept (insertEvents module moduleName eventModuleIndex m)
    let eventModuleIndex ← nextIndex module.event.isSome eventModuleIndex
    convertV11 modules callModuleIndex eventModuleIndex m

/-- `Metadata::try_from`, whose errors become those of the metadata. -/
def Metadata.tryFrom (metadata : RuntimeMetadataPrefixed) : Outcome ConversionError Metadata :=
  if metadata.magic ≠ metaReserved then .err .invalidPrefix
  else
    match metadata.metadata with
    | .v12 modules => do
      let modules ← Outcome.ofExcept (convert modules)
      Outcome.ofExcept (convertV12 modules ⟨[], [], []⟩)
    | .v11 modules => do
      let modules ← Outcome.ofExcept (convert modules)
      convertV11 modules 0 0 ⟨[], [], []⟩
    | .older => .err .invalidVersion

end Cashbox.Eee
