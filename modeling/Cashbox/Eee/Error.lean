import Cashbox.Crypto.Hex

/-!
# Errors of the EEE chain

The errors that the functions on extrinsics, events and metadata return, and the one
they are turned into.
-/

namespace Cashbox.Eee

open Cashbox.Lib

/-- `codec::Error`, by the text it is made of where this code makes it. -/
inductive CodecError where
  /-- The codec refuses the input. -/
  | input
  | custom (text : String)
  deriving DecidableEq, Repr

inductive MetadataError where
  | moduleNotFound (name : String)
  | moduleWithEventsNotFound (index : UInt8)
  | eventNotFound (index : UInt8)
  | storageNotFound (key : String)
  | storageTypeError
  | mapValueTypeError
  deriving DecidableEq, Repr

inductive EventsError where
  | codecError (e : CodecError)
  | metadata (e : MetadataError)
  | typeSizeUnavailable (name : String)
  deriving DecidableEq, Repr

inductive Error where
  | custom (text : String)
  | hexError (e : Eth.FromHexError)
  /-- An error of the JSON library. -/
  | serde
  | scaleCodec (e : CodecError)
  | metaDataError (e : MetadataError)
  | eventsError (e : EventsError)
  /-- An error of the account libraries. -/
  | account
  deriving DecidableEq, Repr

/-- The result of a decoder, with `?`. -/
def ofDecoder {α : Type} (x : Option (α × Bytes)) : Outcome CodecError (α × Bytes) :=
  Outcome.okOr .input x

end Cashbox.Eee
