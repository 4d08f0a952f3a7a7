import Cashbox.Btc.Framing

/-!
# Complete frames

`decode` answers `Ok(None)` to every `UnexpectedEof`, also to the one of a payload that is
shorter than its own fields say, although its frame is complete. Such a frame stays at the
front of the buffer, whatever comes after it.
-/

namespace Cashbox.Btc

open Cashbox.Lib

/-! ## The decoders of payloads

No decoder returns `UnexpectedEof` by itself: the error means that a read found too few
bytes. -/

section NeverEof

/-- The decoder fails with `UnexpectedEof` only where it runs short. -/
abbrev NeverEof {α : Type} (r : Decode α) : Prop := r.NeverFails EncodeError.eof

open Reader.NeverFails

theorem neverEof_fail {α : Type} {e : EncodeError} (h : e ≠ .eof) :
    NeverEof (Decode.fail e : Decode α) := lift fun he => h (Outcome.err.inj he)

theorem neverEof_readUint (k : Nat) : NeverEof (readUint k) := (take k).bind fun _ => .pure _

theorem neverEof_readU8 : NeverEof readU8 := (neverEof_readUint 1).bind fun _ => .pure _

theorem neverEof_readU16 : NeverEof readU16 := (neverEof_readUint 2).bind fun _ => .pure _

theorem neverEof_readU32 : NeverEof readU32 := (neverEof_readUint 4).bind fun _ => .pure _

theorem neverEof_readU64 : NeverEof readU64 := (neverEof_readUint 8).bind fun _ => .pure _

theorem neverEof_readI32 : NeverEof readI32 := neverEof_readU32.bind fun _ => .pure _

theorem neverEof_readI64 : NeverEof readI64 := neverEof_readU64.bind fun _ => .pure _

theorem neverEof_readBool : NeverEof readBool := neverEof_readU8.bind fun _ => .pure _

theorem neverEof_decodeHash : NeverEof decodeHash := (neverEof_readUint 32).bind fun _ => .pure _

theorem neverEof_decodeVarInt : NeverEof decodeVarInt := by
  have hcase : ∀ k least, NeverEof (do
      let x ← readUint k
      if x < least then Decode.fail (.parseFailed "non-minimal varint") else return x) := by
    intro k least
    exact (neverEof_readUint k).bind fun x => .ite (neverEof_fail (by decide)) (.pure x)
  refine (neverEof_readUint 1).bind fun n =>
    .ite (hcase 8 _) (.ite (hcase 4 _) (.ite (hcase 2 _) ?_))
  exact .pure n

theorem neverEof_decodeVec {α : Type} {r : Decode α} (size : Nat) (hr : NeverEof r) :
    NeverEof (decodeVec size r) := by
  refine neverEof_decodeVarInt.bind fun len => .bind (.lift ?_) fun _ => hr.times len
  unfold checkVecSize
  split_ifs
  · decide
  · simp [EncodeError.eof]
  · simp

theorem neverEof_decodeBytes : NeverEof decodeBytes :=
  neverEof_decodeVarInt.bind fun len =>
    .ite (neverEof_fail (by simp [EncodeError.eof])) (take len)

theorem neverEof_decodeString : NeverEof decodeString := by
  refine neverEof_decodeBytes.bind fun bytes => ?_
  cases Text.fromUtf8 bytes with
  | some s => exact .pure s
  | none => exact neverEof_fail (by decide)

theorem neverEof_txIn : NeverEof TxIn.consensusDecode := by
  have hout : NeverEof OutPoint.consensusDecode :=
    neverEof_decodeHash.bind fun _ => neverEof_readU32.bind fun _ => .pure _
  exact hout.bind fun _ => neverEof_decodeBytes.bind fun _ => neverEof_readU32.bind fun _ => .pure _

theorem neverEof_txOut : NeverEof TxOut.consensusDecode :=
  neverEof_readU64.bind fun _ => neverEof_decodeBytes.bind fun _ => .pure _

theorem neverEof_decodeWitnesses (input : List TxIn) : NeverEof (decodeWitnesses input) := by
  induction input with
  | nil => exact .pure []
  | cons txin input ih =>
    exact (neverEof_decodeVec _ neverEof_decodeBytes).bind fun _ => ih.bind fun _ => .pure _

theorem neverEof_transaction : NeverEof Transaction.consensusDecode := by
  have houtput := neverEof_decodeVec sizeOfTxOut neverEof_txOut
  refine neverEof_readU32.bind fun version => ?_
  refine (neverEof_decodeVec _ neverEof_txIn).bind fun input => .ite ?_ ?_
  · refine neverEof_readU8.bind fun flag => .ite ?_ (neverEof_fail (by simp [EncodeError.eof]))
    refine (neverEof_decodeVec _ neverEof_txIn).bind fun input => houtput.bind fun output => ?_
    refine (neverEof_decodeWitnesses input).bind fun input => .ite (neverEof_fail (by decide)) ?_
    exact neverEof_readU32.bind fun _ => .pure _
  · exact houtput.bind fun output => neverEof_readU32.bind fun _ => .pure _

theorem neverEof_blockHeader : NeverEof BlockHeader.consensusDecode :=
  neverEof_readU32.bind fun _ => neverEof_decodeHash.bind fun _ => neverEof_decodeHash.bind fun _ =>
    neverEof_readU32.bind fun _ => neverEof_readU32.bind fun _ => neverEof_readU32.bind fun _ =>
      .pure _

theorem neverEof_block : NeverEof Block.consensusDecode :=
  neverEof_blockHeader.bind fun _ => (neverEof_decodeVec _ neverEof_transaction).bind fun _ =>
    .pure _

theorem neverEof_decodeHeaders : NeverEof decodeHeaders :=
  neverEof_decodeVec _ (neverEof_blockHeader.bind fun _ => (neverEof_readUint 1).bind fun _ =>
    .ite (neverEof_fail (by decide)) (.pure _))

theorem neverEof_inventory : NeverEof Inventory.consensusDecode := by
  have hcode : ∀ intType, InvType.ofCode intType ≠ .err .eof := by
    intro intType
    unfold InvType.ofCode
    split <;> simp
  exact (neverEof_readUint 4).bind fun intType => (lift (hcode intType)).bind fun _ =>
    neverEof_decodeHash.bind fun _ => .pure _

theorem neverEof_address : NeverEof Address.consensusDecode :=
  neverEof_readU64.bind fun _ => (neverEof_readU16.times 8).bind fun _ =>
    neverEof_readU16.bind fun _ => .pure _

theorem neverEof_version : NeverEof VersionMessage.consensusDecode :=
  neverEof_readU32.bind fun _ => neverEof_readU64.bind fun _ => neverEof_readI64.bind fun _ =>
    neverEof_address.bind fun _ => neverEof_address.bind fun _ => neverEof_readU64.bind fun _ =>
      neverEof_decodeString.bind fun _ => neverEof_readI32.bind fun _ =>
        neverEof_readBool.bind fun _ => .pure _

theorem neverEof_timedAddress : NeverEof decodeTimedAddress :=
  neverEof_readU32.bind fun _ => neverEof_address.bind fun _ => .pure _

theorem neverEof_decodeHashes : NeverEof (decodeVec sizeOfHash decodeHash) :=
  neverEof_decodeVec _ neverEof_decodeHash

theorem neverEof_getHeaders : NeverEof GetHeadersMessage.consensusDecode :=
  neverEof_readU32.bind fun _ => neverEof_decodeHashes.bind fun _ =>
    neverEof_decodeHash.bind fun _ => .pure _

theorem neverEof_getCFilters : NeverEof GetCFilters.consensusDecode :=
  neverEof_readU8.bind fun _ => neverEof_readU32.bind fun _ => neverEof_decodeHash.bind fun _ =>
    .pure _

theorem neverEof_cFilter : NeverEof CFilter.consensusDecode :=
  neverEof_readU8.bind fun _ => neverEof_decodeHash.bind fun _ => neverEof_decodeBytes.bind fun _ =>
    .pure _

theorem neverEof_cfHeaders : NeverEof CFHeaders.consensusDecode :=
  neverEof_readU8.bind fun _ => neverEof_decodeHash.bind fun _ => neverEof_decodeHash.bind fun _ =>
    neverEof_decodeHashes.bind fun _ => .pure _

theorem neverEof_getCFCheckpt : NeverEof GetCFCheckpt.consensusDecode :=
  neverEof_readU8.bind fun _ => neverEof_decodeHash.bind fun _ => .pure _

theorem neverEof_cfCheckpt : NeverEof CFCheckpt.consensusDecode :=
  neverEof_readU8.bind fun _ => neverEof_decodeHash.bind fun _ =>
  neverEof_decodeHashes.bind fun _ =>
    .pure _

theorem neverEof_reject : NeverEof Reject.consensusDecode := by
  have hcode : NeverEof RejectReason.consensusDecode := by
    refine (neverEof_readUint 1).bind fun code => ?_
    split
    all_goals first
      | exact .pure _
      | exact neverEof_fail (by decide)
  exact neverEof_decodeString.bind fun _ => hcode.bind fun _ => neverEof_decodeString.bind fun _ =>
    neverEof_decodeHash.bind fun _ => .pure _

theorem neverEof_filterLoad : NeverEof FilterLoadMessage.consensusDecode :=
  neverEof_decodeBytes.bind fun _ => neverEof_readU32.bind fun _ => neverEof_readU32.bind fun _ =>
    neverEof_readU8.bind fun _ => .pure _

theorem neverEof_merkleBlock : NeverEof MerkleBlockMessage.consensusDecode :=
  neverEof_readI32.bind fun _ => neverEof_decodeHash.bind fun _ => neverEof_decodeHash.bind fun _ =>
    neverEof_readU32.bind fun _ => neverEof_readU32.bind fun _ => neverEof_readU32.bind fun _ =>
      neverEof_readU32.bind fun _ => neverEof_decodeHashes.bind fun _ =>
        neverEof_decodeBytes.bind fun _ => .pure _

/-- The decoder of the payload of any command. -/
theorem neverEof_decodePayload (cmd : Text) : NeverEof (decodePayload cmd) := by
  have hinv := neverEof_decodeVec sizeOfInventory neverEof_inventory
  have haddr := neverEof_decodeVec sizeOfTimedAddress neverEof_timedAddress
  unfold decodePayload
  split
  · exact neverEof_version.bind fun _ => .pure _
  · exact .pure _
  · exact haddr.bind fun _ => .pure _
  · exact hinv.bind fun _ => .pure _
  · exact hinv.bind fun _ => .pure _
  · exact hinv.bind fun _ => .pure _
  · exact neverEof_getHeaders.bind fun _ => .pure _
  · exact neverEof_getHeaders.bind fun _ => .pure _
  · exact .pure _
  · exact neverEof_block.bind fun _ => .pure _
  · exact neverEof_decodeHeaders.bind fun _ => .pure _
  · exact .pure _
  · exact .pure _
  · exact neverEof_readU64.bind fun _ => .pure _
  · exact neverEof_readU64.bind fun _ => .pure _
  · exact neverEof_transaction.bind fun _ => .pure _
  · exact neverEof_getCFilters.bind fun _ => .pure _
  · exact neverEof_cFilter.bind fun _ => .pure _
  · exact neverEof_getCFilters.bind fun _ => .pure _
  · exact neverEof_cfHeaders.bind fun _ => .pure _
  · exact neverEof_getCFCheckpt.bind fun _ => .pure _
  · exact neverEof_cfCheckpt.bind fun _ => .pure _
  · exact neverEof_reject.bind fun _ => .pure _
  · exact neverEof_decodeBytes.bind fun _ => .pure _
  · exact neverEof_filterLoad.bind fun _ => .pure _
  · exact neverEof_merkleBlock.bind fun _ => .pure _
  · exact neverEof_fail (by simp [EncodeError.eof])

end NeverEof

/-! ## Frames -/

section Frame

variable (sha256d : Bytes → Sha256dHash)

/-- The length in the header of a frame. -/
def lengthField (bytes : Bytes) : Nat := ofBe ((bytes.drop 16).take 4).reverse

/-- The header is there, and the bytes after it are as many as it says. -/
def CompleteFrame (bytes : Bytes) : Prop := 24 + lengthField bytes ≤ bytes.length

/-- The command in the header. -/
def commandField (bytes : Bytes) : Text :=
  ((bytes.drop 4).take 12).filterMap fun u => if u > 0 then some (Char.ofNat u.toNat) else none

def payloadOf (bytes : Bytes) : Bytes := (bytes.drop 24).take (lengthField bytes)

/-- The payload has the length and the checksum of the header, but the decoder of its
command reads beyond its end, or panics. -/
def Stuck (bytes : Bytes) : Prop :=
  CompleteFrame bytes ∧ lengthField bytes ≤ maxVecSize ∧
    (bytes.drop 20).take 4 = sha2Checksum sha256d (payloadOf bytes) ∧
    ∀ x rest, (decodePayload (commandField bytes)).parse (payloadOf bytes) = some (x, rest) →
      ∃ p, x = .panic p

variable {sha256d} {bytes : Bytes}

theorem readUint_parse {k : Nat} (h : k ≤ bytes.length) :
    (readUint k).parse bytes = some (.ok (ofBe (bytes.take k).reverse), bytes.drop k) := by
  rw [readUint, Reader.parse_bind_of_ok (Reader.parse_take_of_le h)]
  rfl

theorem readU32_parse (h : 4 ≤ bytes.length) :
    readU32.parse bytes =
      some (.ok (UInt32.ofNat (ofBe (bytes.take 4).reverse)), bytes.drop 4) := by
  rw [readU32, Reader.parse_bind_of_ok (readUint_parse h)]
  rfl

theorem decodeCommand_parse (h : 16 ≤ bytes.length) :
    decodeCommand.parse (bytes.drop 4) = some (.ok (commandField bytes), bytes.drop 16) := by
  rw [decodeCommand, Reader.parse_bind_of_ok (Reader.parse_take_of_le
    (by rw [List.length_drop]; omega)), List.drop_drop]
  rfl

/-- What is read of the frame after the command. -/
theorem consensusDecode_parse (h : 16 ≤ bytes.length) :
    (RawNetworkMessage.consensusDecode sha256d).parse bytes = (do
      let rawPayload ← decodeCheckedData sha256d
      let payload ← Reader.lift ((decodePayload (commandField bytes)).decode .eof rawPayload)
      return RawNetworkMessage.mk (UInt32.ofNat (ofBe (bytes.take 4).reverse)) payload :
        Decode RawNetworkMessage).parse (bytes.drop 16) := by
  rw [RawNetworkMessage.consensusDecode, Reader.parse_bind_of_ok (readU32_parse (by omega)),
    Reader.parse_bind_of_ok (decodeCommand_parse h)]

theorem consensusDecode_parse_of_short (h : bytes.length < 20) :
    (RawNetworkMessage.consensusDecode sha256d).parse bytes = none := by
  obtain ⟨next, hnext⟩ : ∃ next : Bytes → Bytes → Bytes → Decode RawNetworkMessage,
      RawNetworkMessage.consensusDecode sha256d =
        .read 4 fun magic => .read 12 fun command => .read 4 (next magic command) :=
    ⟨fun _ _ _ => _, rfl⟩
  rw [hnext]
  simp only [Reader.parse, List.length_drop]
  split_ifs <;> first | rfl | omega

theorem decodeCheckedData_parse (hhead : 20 ≤ bytes.length) :
    (decodeCheckedData sha256d).parse (bytes.drop 16) =
      if maxVecSize < lengthField bytes then
        some (.err (.oversizedVectorAllocation (lengthField bytes) maxVecSize), bytes.drop 20)
      else if bytes.length < 24 + lengthField bytes then none
      else if sha2Checksum sha256d (payloadOf bytes) ≠ (bytes.drop 20).take 4 then
        some (.err (.invalidChecksum (sha2Checksum sha256d (payloadOf bytes))
          ((bytes.drop 20).take 4)), bytes.drop (24 + lengthField bytes))
      else some (.ok (payloadOf bytes), bytes.drop (24 + lengthField bytes)) := by
  have hlenField : (readUint 4).parse (bytes.drop 16) =
      some (.ok (lengthField bytes), bytes.drop 20) := by
    rw [readUint_parse (by rw [List.length_drop]; omega), List.drop_drop]
    rfl
  rw [decodeCheckedData, Reader.parse_bind_of_ok hlenField]
  by_cases hover : maxVecSize < lengthField bytes
  · rw [if_pos hover, if_pos hover]
    rfl
  rw [if_neg hover, if_neg hover]
  rcases Nat.lt_or_ge bytes.length 24 with hlt | hge
  · rw [if_pos (by omega)]
    exact Reader.parse_bind_of_none (Reader.parse_take_of_lt (by rw [List.length_drop]; omega))
  rw [Reader.parse_bind_of_ok (Reader.parse_take_of_le (by rw [List.length_drop]; omega)),
    List.drop_drop]
  by_cases hshort : bytes.length < 24 + lengthField bytes
  · rw [if_pos hshort]
    exact Reader.parse_bind_of_none (Reader.parse_take_of_lt (by rw [List.length_drop]; omega))
  rw [if_neg hshort,
    Reader.parse_bind_of_ok (Reader.parse_take_of_le (by rw [List.length_drop]; omega)),
    List.drop_drop]
  show Reader.parse (if sha2Checksum sha256d (payloadOf bytes) ≠ (bytes.drop 20).take 4 then _
    else _) _ = _
  by_cases hsum : sha2Checksum sha256d (payloadOf bytes) ≠ (bytes.drop 20).take 4
  · rw [if_pos hsum, if_pos hsum]
    rfl
  · rw [if_neg hsum, if_neg hsum]
    rfl

variable (sha256d bytes) in
/-- The ways in which the decoder takes a frame. -/
inductive FrameCase : Option (Outcome EncodeError RawNetworkMessage × Bytes) → Prop where
  | short (hshort : ¬ CompleteFrame bytes) (hlen : bytes.length < 24 + maxVecSize) : FrameCase none
  | oversized (hhead : 20 ≤ bytes.length) (hlen : maxVecSize < lengthField bytes) :
      FrameCase (some (.err (.oversizedVectorAllocation (lengthField bytes) maxVecSize),
        bytes.drop 20))
  | checksum (hframe : CompleteFrame bytes) (hlen : lengthField bytes ≤ maxVecSize)
      (hsum : sha2Checksum sha256d (payloadOf bytes) ≠ (bytes.drop 20).take 4) :
      FrameCase (some (.err (.invalidChecksum (sha2Checksum sha256d (payloadOf bytes))
        ((bytes.drop 20).take 4)), bytes.drop (24 + lengthField bytes)))
  | payload (hframe : CompleteFrame bytes) (hlen : lengthField bytes ≤ maxVecSize)
      (hsum : sha2Checksum sha256d (payloadOf bytes) = (bytes.drop 20).take 4) :
      FrameCase (some ((decodePayload (commandField bytes)).decode .eof (payloadOf bytes) >>=
        fun payload => .ok ⟨UInt32.ofNat (ofBe (bytes.take 4).reverse), payload⟩,
        bytes.drop (24 + lengthField bytes)))

theorem consensusDecode_cases (sha256d : Bytes → Sha256dHash) (bytes : Bytes) :
    FrameCase sha256d bytes ((RawNetworkMessage.consensusDecode sha256d).parse bytes) := by
  rcases Nat.lt_or_ge bytes.length 20 with hlt | hhead
  · rw [consensusDecode_parse_of_short hlt]
    refine .short ?_ (by omega)
    unfold CompleteFrame
    omega
  rw [consensusDecode_parse (by omega), Reader.parse_bind, decodeCheckedData_parse hhead]
  by_cases hover : maxVecSize < lengthField bytes
  · rw [if_pos hover]
    exact .oversized hhead hover
  rw [if_neg hover]
  by_cases hshort : bytes.length < 24 + lengthField bytes
  · rw [if_pos hshort]
    exact .short (by unfold CompleteFrame; omega) (by omega)
  rw [if_neg hshort]
  have hframe : CompleteFrame bytes := by
    unfold CompleteFrame
    omega
  by_cases hsum : sha2Checksum sha256d (payloadOf bytes) ≠ (bytes.drop 20).take 4
  · rw [if_pos hsum]
    exact .checksum hframe (by omega) hsum
  · rw [if_neg hsum]
    have hcase := FrameCase.payload hframe (by omega) (not_not.mp hsum)
    dsimp only
    cases hx : (decodePayload (commandField bytes)).decode .eof (payloadOf bytes) with
    | ok payload | err e | panic p =>
      rw [hx] at hcase
      exact hcase

/-! ## One call of `decode` -/

/-- What is asked of a call of `decode`: a complete frame is taken, and `Ok(None)` is the
answer to less than a frame only. -/
structure Takes (sha256d : Bytes → Sha256dHash) (src : Buffer) : Prop where
  frame : CompleteFrame src.unread →
    ((∃ m, (decode sha256d src).2 = .ok (some m)) ∨ (decode sha256d src).2.IsErr) ∧
      (decode sha256d src).1.len < src.len
  waits : (decode sha256d src).2 = .ok none →
    ¬ CompleteFrame src.unread ∧ src.len < 24 + maxVecSize

variable {b : Buffer}

/-- An error of the decoder that is not `UnexpectedEof` ends the call. -/
theorem decodeBytesOf_err {e : EncodeError} {rest : Bytes} (he : e ≠ .eof)
    (hp : (RawNetworkMessage.consensusDecode sha256d).parse bytes = some (.err e, rest)) :
    ∃ e', decodeBytesOf sha256d bytes = (rest, .err e') := by
  unfold decodeBytesOf
  rw [hp]
  rcases e with (_ | _ | _) | _ | _ | _ | _ | _
  · exact absurd rfl he
  all_goals exact ⟨_, rfl⟩

theorem decodeBytesOf_wait
    (hp : (RawNetworkMessage.consensusDecode sha256d).parse bytes = none ∨ ∃ rest,
      (RawNetworkMessage.consensusDecode sha256d).parse bytes = some (.err .eof, rest)) :
    decodeBytesOf sha256d bytes = (bytes, .ok none) := by
  unfold decodeBytesOf
  rcases hp with hp | ⟨rest, hp⟩
  · rw [hp]
  · rw [hp]
    rfl

/-- A call that returns a message or an error and takes bytes. -/
theorem Settled.takes (h : Settled b bytes) {rest : Bytes}
    {x : Outcome IoError (Option RawNetworkMessage)}
    (hx : (∃ m, x = .ok (some m)) ∨ x.IsErr) (hd : decodeBytesOf sha256d bytes = (rest, x))
    (hlt : rest.length < bytes.length) : Takes sha256d b := by
  obtain ⟨hres, hsettled⟩ := @Settled.decode sha256d b bytes h
  rw [hd] at hres hsettled
  have hnext : Settled (Btc.decode sha256d b).1 rest := by
    apply hsettled
    rintro p rfl
    rcases hx with ⟨m, hm⟩ | herr
    · cases hm
    · exact herr
  constructor
  · intro _
    rw [hres, Buffer.len_eq, Buffer.len_eq, hnext.unread, h.unread]
    exact ⟨hx, hlt⟩
  · intro hwait
    rw [hres] at hwait
    subst hwait
    rcases hx with ⟨m, hm⟩ | herr
    · cases hm
    · exact absurd herr (by simp)

theorem length_drop_frame (h : CompleteFrame bytes) :
    (bytes.drop (24 + lengthField bytes)).length < bytes.length := by
  unfold CompleteFrame at h
  rw [List.length_drop]
  omega

/-- **One call** takes a complete frame unless its payload is too short for its fields or
makes the decoder panic. -/
theorem Settled.takes_iff (h : Settled b bytes) : Takes sha256d b ↔ ¬ Stuck sha256d bytes := by
  have hcase := consensusDecode_cases sha256d bytes
  generalize hp : (RawNetworkMessage.consensusDecode sha256d).parse bytes = r at hcase
  cases hcase with
  | short hshort hlen =>
    refine iff_of_true ?_ fun hstuck => hshort hstuck.1
    constructor
    · intro hframe
      rw [h.unread] at hframe
      exact absurd hframe hshort
    · intro _
      rw [h.unread, Buffer.len_eq, h.unread]
      exact ⟨hshort, hlen⟩
  | oversized hhead hover =>
    obtain ⟨e', hd⟩ := decodeBytesOf_err (by simp [EncodeError.eof]) hp
    refine iff_of_true (h.takes (.inr (Outcome.isErr_err _)) hd ?_) fun hstuck => ?_
    · rw [List.length_drop]
      omega
    · exact absurd hstuck.2.1 (by omega)
  | checksum hframe hlen hsum =>
    obtain ⟨e', hd⟩ := decodeBytesOf_err (by simp [EncodeError.eof]) hp
    refine iff_of_true (h.takes (.inr (Outcome.isErr_err _)) hd (length_drop_frame hframe))
      fun hstuck => ?_
    exact hsum hstuck.2.2.1.symm
  | payload hframe hlen hsum =>
    have hnever := neverEof_decodePayload (commandField bytes)
    unfold Reader.decode at hp
    rcases hpay : (decodePayload (commandField bytes)).parse (payloadOf bytes) with
      _ | ⟨m | e | p, rest⟩
    · -- the payload ends before its fields do
      rw [hpay] at hp
      have hd := decodeBytesOf_wait (.inr ⟨_, hp⟩)
      refine iff_of_false ?_ ?_
      · intro htakes
        have hwait := (htakes.waits (by rw [h.decode.1, hd])).1
        rw [h.unread] at hwait
        exact hwait hframe
      · rw [not_not]
        refine ⟨hframe, hlen, hsum.symm, ?_⟩
        intro x rest hsome
        rw [hpay] at hsome
        cases hsome
    · rw [hpay] at hp
      obtain ⟨m', hd⟩ : ∃ m', decodeBytesOf sha256d bytes =
          (bytes.drop (24 + lengthField bytes), .ok (some m')) := by
        rw [decodeBytesOf, hp]
        exact ⟨_, rfl⟩
      refine iff_of_true (h.takes (.inl ⟨_, rfl⟩) hd (length_drop_frame hframe)) fun hstuck => ?_
      obtain ⟨p, hpanic⟩ := hstuck.2.2.2 _ _ hpay
      cases hpanic
    · rw [hpay] at hp
      have he : e ≠ .eof := fun heof => hnever.parse_ne hpay (by rw [heof])
      obtain ⟨e', hd⟩ := decodeBytesOf_err he hp
      refine iff_of_true (h.takes (.inr (Outcome.isErr_err _)) hd (length_drop_frame hframe))
        fun hstuck => ?_
      obtain ⟨p, hpanic⟩ := hstuck.2.2.2 _ _ hpay
      cases hpanic
    · rw [hpay] at hp
      have hd : (decodeBytesOf sha256d bytes).2 = .panic p := by
        rw [decodeBytesOf, hp]
        rfl
      refine iff_of_false ?_ ?_
      · intro htakes
        have hres := (htakes.frame (by rwa [h.unread])).1
        rw [h.decode.1, hd] at hres
        rcases hres with ⟨m, hm⟩ | herr
        · cases hm
        · exact herr
      · rw [not_not]
        refine ⟨hframe, hlen, hsum.symm, ?_⟩
        intro x rest' hsome
        rw [hpay] at hsome
        cases hsome
        exact ⟨p, rfl⟩

/-! ## Runs -/

/-- What happens to a read buffer: bytes of a read are accumulated, or `decode` is called. -/
inductive BufferCall where
  | write (bytes : Bytes)
  | decode

variable (sha256d) in
def BufferCall.step (src : Buffer) : BufferCall → Buffer
  | .write bytes => src.write bytes
  | .decode => (Btc.decode sha256d src).1

variable (sha256d) in
/-- Each call of `decode` takes what is complete. -/
def BufferCall.Takes (src : Buffer) : BufferCall → Prop
  | .write _ => True
  | .decode => Btc.Takes sha256d src

variable (sha256d) in
/-- The condition on a call of `decode`. -/
def BufferCall.NotStuck (src : Buffer) : BufferCall → Prop
  | .write _ => True
  | .decode => ¬ Stuck sha256d src.unread

/-- Only a payload makes `decode` panic. -/
theorem stuck_of_panic {p : Panic} (hd : (decodeBytesOf sha256d bytes).2 = .panic p) :
    Stuck sha256d bytes := by
  have hcase := consensusDecode_cases sha256d bytes
  generalize hp : (RawNetworkMessage.consensusDecode sha256d).parse bytes = r at hcase
  have herr : ∀ e rest, r = some (.err e, rest) → Stuck sha256d bytes := by
    rintro e rest rfl
    by_cases he : e = .eof
    · rw [decodeBytesOf_wait (.inr ⟨rest, he ▸ hp⟩)] at hd
      cases hd
    · obtain ⟨e', hd'⟩ := decodeBytesOf_err he hp
      rw [hd'] at hd
      cases hd
  cases hcase with
  | short hshort hlen =>
    rw [decodeBytesOf_wait (.inl hp)] at hd
    cases hd
  | oversized hhead hover => exact herr _ _ rfl
  | checksum hframe hlen hsum => exact herr _ _ rfl
  | payload hframe hlen hsum =>
    refine ⟨hframe, hlen, hsum.symm, ?_⟩
    intro x rest hpay
    unfold Reader.decode at hp
    rw [hpay] at hp
    cases x with
    | ok m =>
      rw [decodeBytesOf, hp] at hd
      cases hd
    | err e =>
      have he : e ≠ .eof := fun heof =>
        (neverEof_decodePayload (commandField bytes)).parse_ne hpay (by rw [heof])
      obtain ⟨e', hd'⟩ := decodeBytesOf_err he hp
      rw [hd'] at hd
      cases hd
    | panic p' => exact ⟨p', rfl⟩

/-- **Complete frames** are always taken exactly in the runs in which no payload stops the
decoder: in each call of such a run a frame that has arrived is taken, and a buffer that
waits for more is shorter than the longest frame. -/
theorem takes_run_iff (sha256d : Bytes → Sha256dHash) (calls : List BufferCall) :
    Guarded (BufferCall.step sha256d) (BufferCall.Takes sha256d) Buffer.new calls ↔
      Guarded (BufferCall.step sha256d) (BufferCall.NotStuck sha256d) Buffer.new calls := by
  have hiff : ∀ src call, (∃ bytes, Settled src bytes) →
      (BufferCall.Takes sha256d src call ↔ BufferCall.NotStuck sha256d src call) := by
    rintro src call ⟨bytes, hsrc⟩
    cases call with
    | write more => exact Iff.rfl
    | decode =>
      show Btc.Takes sha256d src ↔ ¬ Stuck sha256d src.unread
      rw [hsrc.unread]
      exact hsrc.takes_iff
  have hstep : ∀ src call, (∃ bytes, Settled src bytes) → BufferCall.NotStuck sha256d src call →
      ∃ bytes, Settled (BufferCall.step sha256d src call) bytes := by
    rintro src call ⟨bytes, hsrc⟩ hok
    cases call with
    | write more => exact ⟨_, hsrc.write more⟩
    | decode =>
      have hfree : ¬ Stuck sha256d bytes := by
        rw [← hsrc.unread]
        exact hok
      exact ⟨_, hsrc.decode.2 fun p hp => hfree (stuck_of_panic hp)⟩
  exact guarded_iff_of_invariant hiff hstep ⟨[], settled_new⟩

end Frame

/-! ## A payload without its fields -/

/-- A `ping` without its nonce. -/
def emptyPing : Bytes :=
  leBytes 4 0xD9B4BEF9 ++ encodeCommand "ping" ++ encodeCheckedData hashOfTwo []

/-- The frame has arrived and is not taken, and neither is anything that comes after it. -/
theorem not_takes_emptyPing :
    ¬ Guarded (BufferCall.step hashOfTwo) (BufferCall.Takes hashOfTwo) Buffer.new
        [.write emptyPing, .decode] ∧
      ∀ more, (decode hashOfTwo ((Buffer.new.write emptyPing).write more)).2 = .ok none ∧
        (decode hashOfTwo ((Buffer.new.write emptyPing).write more)).1.unread =
          emptyPing ++ more := by
  have hparse : (RawNetworkMessage.consensusDecode hashOfTwo).parse emptyPing =
      some (.err .eof, []) := by decide +kernel
  constructor
  · rintro ⟨_, htakes, _⟩
    have hwait : (decode hashOfTwo (Buffer.new.write emptyPing)).2 = .ok none := by decide +kernel
    have hframe : 24 + lengthField (Buffer.new.write emptyPing).unread ≤
        (Buffer.new.write emptyPing).unread.length := by decide +kernel
    exact (htakes.waits hwait).1 hframe
  · intro more
    have hsettled := (settled_new.write emptyPing).write more
    rw [List.nil_append] at hsettled
    have hd := decodeBytesOf_wait (.inr ⟨_, Reader.parse_append hparse more⟩)
    obtain ⟨hres, hnext⟩ := @Settled.decode hashOfTwo _ _ hsettled
    rw [hd] at hres hnext
    exact ⟨hres, (hnext (by simp)).unread⟩

end Cashbox.Btc
