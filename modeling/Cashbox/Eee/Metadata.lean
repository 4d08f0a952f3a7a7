import Cashbox.Eee.Error

/-!
# Runtime metadata of the EEE chain

What the wallet keeps of the metadata of a runtime: the storage entries of its modules,
the indices of their calls and the arguments of their events. A `HashMap` is the list of
its entries in the order of its iteration, which is any order.
-/

namespace Cashbox.Eee

open Cashbox.Lib

/-! ## Storage entries -/

inductive StorageHasher where
  | blake2_128
  | blake2_256
  | blake2_128Concat
  | twox128
  | twox256
  | twox64Concat
  | identity
  deriving DecidableEq, Repr

/-- The kind of a storage entry, without the names of its types. -/
inductive StorageEntryType where
  | plain
  | map (hasher : StorageHasher)
  | doubleMap (hasher key2Hasher : StorageHasher)
  deriving DecidableEq, Repr

structure StorageMetadata where
  modulePrefix : String
  storagePrefix : String
  ty : StorageEntryType
  default : Bytes
  deriving DecidableEq, Repr

structure ModuleMetadata where
  storage : List (String × StorageMetadata)
  deriving Repr

/-! ## Calls and events -/

structure ModuleWithCalls where
  index : UInt8
  name : String
  calls : List (String × UInt8)
  deriving Repr

/-- Naive representation of event argument types. -/
inductive EventArg where
  | primitive (name : String)
  | vec (arg : EventArg)
  | tuple (args : List EventArg)
  deriving Repr

structure ModuleEventMetadata where
  name : String
  arguments : List EventArg
  deriving Repr

structure ModuleWithEvents where
  index : UInt8
  name : String
  events : List (UInt8 × ModuleEventMetadata)
  deriving Repr

structure Metadata where
  modules : List (String × ModuleMetadata)
  modulesWithCalls : List (String × ModuleWithCalls)
  modulesWithEvents : List (String × ModuleWithEvents)
  deriving Repr

/-! ## Lookups -/

def ModuleMetadata.storageOf (m : ModuleMetadata) (key : String) :
    Outcome MetadataError StorageMetadata :=
  Outcome.okOr (.storageNotFound key) (m.storage.lookup key)

def ModuleWithEvents.event (m : ModuleWithEvents) (index : UInt8) :
    Outcome MetadataError ModuleEventMetadata :=
  Outcome.okOr (.eventNotFound index) (m.events.lookup index)

namespace Metadata

def module (m : Metadata) (name : String) : Outcome MetadataError ModuleMetadata :=
  Outcome.okOr (.moduleNotFound name) (m.modules.lookup name)

def moduleWithCalls (m : Metadata) (name : String) : Outcome MetadataError ModuleWithCalls :=
  Outcome.okOr (.moduleNotFound name) (m.modulesWithCalls.lookup name)

/-- The first module with the index, in the order of the iteration. -/
def moduleWithEvents (m : Metadata) (moduleIndex : UInt8) :
    Outcome MetadataError ModuleWithEvents :=
  Outcome.okOr (.moduleWithEventsNotFound moduleIndex)
    ((m.modulesWithEvents.map Prod.snd).find? fun module => module.index = moduleIndex)

/-- The entry of a storage name, which every function on storage keys looks up first. -/
def storageEntry (m : Metadata) (storagePrefix storageKeyName : String) :
    Outcome MetadataError StorageMetadata := do
  let module ← m.module storagePrefix
  module.storageOf storageKeyName

end Metadata

end Cashbox.Eee
