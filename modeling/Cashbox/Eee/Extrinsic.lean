import Cashbox.Lib.Scale
import Cashbox.Eee.Error

/-!
# Extrinsics of the EEE chain

An extrinsic is written as a `Vec<u8>`: the compact length of its body, then a version
byte, the signature with its extra fields if it is signed, and the call. Two types write
it: `UncheckedExtrinsicV4`, which holds a call, and `UncheckedExtrinsicFromOuter`, which
holds the bytes of one. `CheckedExtrinsic` reads both back.

The era of an extrinsic is a parameter with its codec.
-/

namespace Cashbox.Eee

open Cashbox.Lib Cashbox.Scale

/-! ## Data -/

abbrev AccountId := FixedBytes 32

abbrev Hash := FixedBytes 32

abbrev GenericAddress := AccountId

/-- A signature with its scheme. -/
inductive MultiSignature where
  | ed25519 (signature : FixedBytes 64)
  | sr25519 (signature : FixedBytes 64)
  | ecdsa (signature : FixedBytes 65)
  deriving DecidableEq

/-- The extra fields of a signed extrinsic. -/
structure GenericExtra (Era : Type) where
  era : Era
  nonce : UInt32
  tip : BitVec 128
  deriving DecidableEq

def GenericExtra.new {Era : Type} (era : Era) (nonce : UInt32) : GenericExtra Era :=
  { era, nonce, tip := 0 }

/-- Who signed, the signature and the extra fields. -/
abbrev Signed (Era : Type) := GenericAddress × MultiSignature × GenericExtra Era

structure UncheckedExtrinsicV4 (Era Call : Type) where
  signature : Option (Signed Era)
  function : Call

structure UncheckedExtrinsicFromOuter (Era : Type) where
  signature : Option (Signed Era)
  function : Bytes

structure RawExtrinsic where
  moduleIndex : UInt8
  callIndex : UInt8
  args : Bytes
  deriving DecidableEq

structure CheckedExtrinsic (Era : Type) where
  signature : Option (Signed Era)
  function : RawExtrinsic
  deriving DecidableEq

/-! ## Codecs of the parts -/

/-- The scheme is the first byte. -/
def multiSignature : Codec MultiSignature where
  encode
    | .ed25519 s => 0 :: s.1
    | .sr25519 s => 1 :: s.1
    | .ecdsa s => 2 :: s.1
  decode
    | [] => none
    | b :: input =>
      if b = 0 then ((fixedBytes 64).decode input).map fun x => (.ed25519 x.1, x.2)
      else if b = 1 then ((fixedBytes 64).decode input).map fun x => (.sr25519 x.1, x.2)
      else if b = 2 then ((fixedBytes 65).decode input).map fun x => (.ecdsa x.1, x.2)
      else none
  decode_append x rest := by
    cases x with
    | ed25519 s =>
      have hs := (fixedBytes 64).decode_append s rest
      exact congrArg (Option.map fun x => (MultiSignature.ed25519 x.1, x.2)) hs
    | sr25519 s =>
      have hs := (fixedBytes 64).decode_append s rest
      exact congrArg (Option.map fun x => (MultiSignature.sr25519 x.1, x.2)) hs
    | ecdsa s =>
      have hs := (fixedBytes 65).decode_append s rest
      exact congrArg (Option.map fun x => (MultiSignature.ecdsa x.1, x.2)) hs

variable {Era : Type} (era : Codec Era)

def genericExtra : Codec (GenericExtra Era) :=
  (era.prod (compactU32.prod compactU128)).map
    (fun extra => (extra.era, extra.nonce, extra.tip))
    (fun x => some ⟨x.1, x.2.1, x.2.2⟩)
    fun _ => rfl

def signed : Codec (Signed Era) := (fixedBytes 32).prod (multiSignature.prod (genericExtra era))

/-! ## Writing -/

section Encode

variable {ε Call : Type}

/-- The length of a collection; `expect` panics if it does not fit a `u32`. -/
def encodeLen (n : Nat) : Outcome ε Bytes :=
  if n < 2 ^ 32 then .ok (encodeCompact n) else .panic .unwrapFailed

theorem encodeLen_of_lt {n : Nat} (h : n < 2 ^ 32) :
    (encodeLen n : Outcome ε Bytes) = .ok (encodeCompact n) := if_pos h

theorem encodeLen_of_le {n : Nat} (h : 2 ^ 32 ≤ n) :
    (encodeLen n : Outcome ε Bytes) = .panic .unwrapFailed := if_neg (Nat.not_lt.mpr h)

/-- `Vec<u8>::encode`. -/
def encodeVecU8 (bytes : Bytes) : Outcome ε Bytes := do
  let length ← encodeLen bytes.length
  .ok (length ++ bytes)

/-- Same function as in primitives::generic. The space for the prefix is reserved by the size
of the Rust type. -/
def encodeWithVecPrefix (size : Nat) (encoder : Bytes → Outcome ε Bytes) : Outcome ε Bytes := do
  let reserve := if size ≤ 0x3f then 1 else if size ≤ 0x3fff then 2 else 4
  let v ← encoder (List.replicate reserve 0)
  -- need to prefix with the total length
  let len ← checkedSub v.length reserve
  let length ← encodeLen len
  .ok (length ++ v.drop reserve)

def v4 : UInt8 := 4

/-- What the encoders push before the call. -/
def pushSignature (signature : Option (Signed Era)) (v : Bytes) : Bytes :=
  match signature with
  | some s => v ++ [v4 ||| 0x80] ++ (signed era).encode s
  | none => v ++ [v4 &&& 0x7f]

def UncheckedExtrinsicV4.encode (size : Nat) (encodeCall : Call → Bytes)
    (xt : UncheckedExtrinsicV4 Era Call) : Outcome ε Bytes :=
  encodeWithVecPrefix size fun v =>
    .ok (pushSignature era xt.signature v ++ encodeCall xt.function)

def UncheckedExtrinsicFromOuter.encode (size : Nat) (xt : UncheckedExtrinsicFromOuter Era) :
    Outcome ε Bytes :=
  encodeWithVecPrefix size fun v => do
    let v := pushSignature era xt.signature v
    let funcLen := xt.function.length
    let funcEncodeVec ← encodeVecU8 xt.function
    let offsetStart ← checkedSub funcEncodeVec.length funcLen
    .ok (v ++ funcEncodeVec.drop offsetStart)

end Encode

/-! ## Reading -/

/-- The signature, which a signed extrinsic has. -/
def decodeSignature (isSigned : Bool) (input : Bytes) :
    Outcome CodecError (Option (Signed Era) × Bytes) :=
  if isSigned then do
    let (sig, input) ← ofDecoder ((signed era).decode input)
    .ok (some sig, input)
  else .ok (none, input)

/-- The length in front is read and not used; the arguments are the rest of the input. -/
def CheckedExtrinsic.decode (input : Bytes) : Outcome CodecError (CheckedExtrinsic Era) := do
  let (_, input) ← ofDecoder (decodeCompact 4 input)
  let (version, input) ← ofDecoder (u8.decode input)
  let isSigned := version &&& 0x80 != 0
  let version := version &&& 0x7f
  if version ≠ v4 then .err (.custom "Invalid transaction version")
  else do
    let (sig, input) ← decodeSignature era isSigned input
    let (moduleIndex, input) ← ofDecoder (u8.decode input)
    let (callIndex, input) ← ofDecoder (u8.decode input)
    .ok { signature := sig, function := { moduleIndex, callIndex, args := input } }

/-! ## The bytes on the wire -/

/-- The body of an extrinsic with a given call. -/
def body (signature : Option (Signed Era)) (call : Bytes) : Bytes :=
  match signature with
  | some s => 0x84 :: (signed era).encode s ++ call
  | none => 0x04 :: call

/-- The body behind its compact length. -/
def framed {ε : Type} (signature : Option (Signed Era)) (call : Bytes) : Outcome ε Bytes := do
  let length ← encodeLen (body era signature call).length
  .ok (length ++ body era signature call)

section Encode

variable {ε Call : Type}

theorem pushSignature_append (signature : Option (Signed Era)) (v call : Bytes) :
    pushSignature era signature v ++ call = v ++ body era signature call := by
  cases signature with
  | none =>
    show v ++ [(0x04 : UInt8)] ++ call = v ++ 0x04 :: call
    simp
  | some s =>
    show v ++ [(0x84 : UInt8)] ++ (signed era).encode s ++ call =
      v ++ (0x84 :: (signed era).encode s ++ call)
    simp

/-- Whatever was reserved is replaced by the length of what follows. -/
theorem encodeWithVecPrefix_eq {size : Nat} {encoder : Bytes → Outcome ε Bytes} {pushed : Bytes}
    (h : ∀ v, encoder v = .ok (v ++ pushed)) :
    encodeWithVecPrefix size encoder =
      (do
        let length ← encodeLen pushed.length
        .ok (length ++ pushed)) := by
  unfold encodeWithVecPrefix
  simp only [h, Outcome.ok_bind]
  rw [checkedSub_of_le (by simp)]
  simp

theorem UncheckedExtrinsicV4.encode_eq (size : Nat) (encodeCall : Call → Bytes)
    (xt : UncheckedExtrinsicV4 Era Call) :
    (xt.encode era size encodeCall : Outcome ε Bytes) =
      framed era xt.signature (encodeCall xt.function) := by
  unfold UncheckedExtrinsicV4.encode framed
  apply encodeWithVecPrefix_eq
  intro v
  rw [pushSignature_append]

theorem length_body (signature : Option (Signed Era)) (call : Bytes) :
    call.length < (body era signature call).length := by
  cases signature with
  | none => simp [body]
  | some s => simp [body]

/-- The offset cuts off exactly the length of the call. -/
theorem UncheckedExtrinsicFromOuter.encode_eq (size : Nat) (xt : UncheckedExtrinsicFromOuter Era) :
    (xt.encode era size : Outcome ε Bytes) = framed era xt.signature xt.function := by
  unfold UncheckedExtrinsicFromOuter.encode
  by_cases hlen : xt.function.length < 2 ^ 32
  · have hcall : (encodeVecU8 xt.function : Outcome ε Bytes) =
        .ok (encodeCompact xt.function.length ++ xt.function) := by
      rw [encodeVecU8, encodeLen_of_lt hlen, Outcome.ok_bind]
    unfold framed
    apply encodeWithVecPrefix_eq
    intro v
    rw [hcall, Outcome.ok_bind, checkedSub_of_le (by simp), Outcome.ok_bind]
    simp [pushSignature_append]
  · -- a call too long for its own prefix is too long for the body's
    have hcall : (encodeVecU8 xt.function : Outcome ε Bytes) = .panic .unwrapFailed := by
      rw [encodeVecU8, encodeLen_of_le (Nat.le_of_not_lt hlen), Outcome.panic_bind]
    have hbody := length_body era xt.signature xt.function
    unfold framed encodeWithVecPrefix
    rw [encodeLen_of_le (by omega)]
    simp only [hcall, Outcome.panic_bind]

end Encode

/-! ## Reading back -/

theorem decodeSignature_encode (s : Signed Era) (rest : Bytes) :
    decodeSignature era true ((signed era).encode s ++ rest) = .ok (some s, rest) := by
  rw [decodeSignature, if_pos rfl, (signed era).decode_append]
  rfl

/-- Behind its length, a body is taken apart again. -/
theorem CheckedExtrinsic.decode_framed (signature : Option (Signed Era))
    (moduleIndex callIndex : UInt8) (args : Bytes)
    (hlen : (body era signature (moduleIndex :: callIndex :: args)).length < 2 ^ 32) :
    decode era (encodeCompact (body era signature (moduleIndex :: callIndex :: args)).length ++
        body era signature (moduleIndex :: callIndex :: args)) =
      .ok { signature, function := { moduleIndex, callIndex, args } } := by
  have hlength : (body era signature (moduleIndex :: callIndex :: args)).length < 256 ^ 4 := hlen
  unfold decode
  rw [decodeCompact_encodeCompact (by decide) hlength]
  cases signature with
  | none => rfl
  | some s =>
    have hsig := decodeSignature_encode era s (moduleIndex :: callIndex :: args)
    show (decodeSignature era true
      ((signed era).encode s ++ moduleIndex :: callIndex :: args) >>= _) = _
    rw [hsig]
    rfl

/-- Both encoders write the body of the extrinsic behind its compact length, and what they
write is read back as the signature and the call. A body that does not fit the length, of
4 GiB or more, is not written. -/
theorem checked_of_encoded {Call : Type} (encodeCall : Call → Bytes) (size size' : Nat)
    (signature : Option (Signed Era)) (call : Call) (bytes : Bytes)
    (hcall : encodeCall call = bytes) (hlong : 2 ≤ bytes.length) :
    let encoded : Outcome CodecError Bytes :=
      UncheckedExtrinsicV4.encode era size encodeCall { signature, function := call }
    UncheckedExtrinsicFromOuter.encode era size' { signature, function := bytes } = encoded ∧
    encoded =
      (if (body era signature bytes).length < 2 ^ 32 then
        .ok (encodeCompact (body era signature bytes).length ++ body era signature bytes)
      else .panic .unwrapFailed) ∧
    ∀ out, encoded = .ok out →
      CheckedExtrinsic.decode era out =
        .ok
          { signature
            function :=
              { moduleIndex := bytes[0], callIndex := bytes[1], args := bytes.drop 2 } } := by
  intro encoded
  -- both encoders frame the same body
  have hv4 : encoded = framed era signature bytes := by
    rw [← hcall]
    exact UncheckedExtrinsicV4.encode_eq era size encodeCall { signature, function := call }
  have houter : UncheckedExtrinsicFromOuter.encode era size' { signature, function := bytes } =
      encoded := by
    rw [UncheckedExtrinsicFromOuter.encode_eq, hv4]
  have hencoded : encoded =
      (if (body era signature bytes).length < 2 ^ 32 then
        .ok (encodeCompact (body era signature bytes).length ++ body era signature bytes)
      else .panic .unwrapFailed) := by
    rw [hv4, framed]
    by_cases hlen : (body era signature bytes).length < 2 ^ 32
    · rw [encodeLen_of_lt hlen, if_pos hlen, Outcome.ok_bind]
    · rw [encodeLen_of_le (Nat.le_of_not_lt hlen), if_neg hlen, Outcome.panic_bind]
  refine ⟨houter, hencoded, ?_⟩
  intro out hout
  rw [hencoded] at hout
  split at hout
  · rename_i hlen
    obtain rfl := Outcome.ok.inj hout
    -- the two indices are the first bytes of the call
    obtain ⟨moduleIndex, callIndex, args, rfl⟩ : ∃ m i args, bytes = m :: i :: args := by
      rcases bytes with _ | ⟨m, _ | ⟨i, args⟩⟩
      · simp at hlong
      · simp at hlong
      · exact ⟨m, i, args, rfl⟩
    exact CheckedExtrinsic.decode_framed era signature moduleIndex callIndex args hlen
  · cases hout

/-- A signed call of three bytes whose era is one byte. -/
theorem checked_of_encoded_signed :
    ∃ bytes,
      UncheckedExtrinsicV4.encode u8 232 (fun call : Bytes => call)
        { signature := some (FixedBytes.zero 32, .sr25519 (FixedBytes.zero 64), .new 0 3)
          function := [1, 1, 1] } = (.ok bytes : Outcome CodecError Bytes) ∧
      CheckedExtrinsic.decode u8 bytes =
        .ok
          { signature := some (FixedBytes.zero 32, .sr25519 (FixedBytes.zero 64), .new 0 3)
            function := { moduleIndex := 1, callIndex := 1, args := [1] } } :=
  ⟨_, rfl, (checked_of_encoded u8 (fun call : Bytes => call) 232 168
    (some (FixedBytes.zero 32, .sr25519 (FixedBytes.zero 64), .new 0 3)) [1, 1, 1] [1, 1, 1] rfl
    (by decide)).2.2 _ rfl⟩

end Cashbox.Eee
