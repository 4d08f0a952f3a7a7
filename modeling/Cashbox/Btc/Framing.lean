import Cashbox.Lib.Framing
import Cashbox.Lib.Run
import Cashbox.Btc.Buffer
import Cashbox.Btc.NetworkMessage

/-!
# Message framing

`decode` runs the decoder of a message on the read buffer and rolls back when the bytes
end before the message does. What comes out does not depend on how the bytes came in: the
buffer after each read holds what has arrived of the messages that are not complete.
-/

namespace Cashbox.Btc

open Cashbox.Lib

/-! ## The code -/

/-- `io::Error`: of some kind, or of the kind `InvalidData` around another error. -/
inductive IoError where
  | kind (kind : ErrorKind)
  | invalidData (error : EncodeError)
  deriving DecidableEq, Repr

section Config

variable (sha256d : Bytes → Sha256dHash)

/-- Encode a message in Bitcoin's wire format extending the given buffer. -/
def encode (item : RawNetworkMessage) (dst : Buffer) : Buffer := dst.write (item.serialize sha256d)

/-- Decode a message from the buffer if possible. -/
def decode (src : Buffer) : Buffer × Outcome IoError (Option RawNetworkMessage) :=
  let (src, decode) := (RawNetworkMessage.consensusDecode sha256d).run Buffer.readExact .eof src
  match decode with
  | .ok m => (src.commit, .ok (some m))
  | .err (.io .unexpectedEof) => (src.rollback, .ok none)
  | .err (.io kind) => (src.commit, .err (.kind kind))
  | .err e => (src.commit, .err (.invalidData e))
  | .panic p => (src, .panic p)

/-- The loop that decodes until there is no message: the messages and how it ends. -/
def decodeAll : Nat → Buffer → Buffer × List RawNetworkMessage × Outcome IoError Unit
  | 0, src => (src, [], .panic .loopBound)
  | fuel + 1, src =>
    match decode sha256d src with
    | (src, .ok (some m)) =>
      let (src, ms, ended) := decodeAll fuel src
      (src, m :: ms, ended)
    | (src, .ok none) => (src, [], .ok ())
    | (src, .err e) => (src, [], .err e)
    | (src, .panic p) => (src, [], .panic p)

/-- The bytes of a read are accumulated in the buffer and messages extracted from it; each
round of the loop takes at least one byte. -/
def receive (src : Buffer) (bytes : Bytes) :
    Buffer × List RawNetworkMessage × Outcome IoError Unit :=
  let src := src.write bytes
  decodeAll sha256d (src.len + 1) src

/-! ## The decoder on bytes -/

/-- Committed: all that is in the buffer is `bytes`, none of it read. -/
structure Settled (b : Buffer) (bytes : Bytes) : Prop where
  valid : b.Valid
  unread : b.unread = bytes
  uncommitted : b.uncommitted = bytes

/-- What `decode` does to the bytes in the buffer. -/
def decodeBytesOf (bytes : Bytes) : Bytes × Outcome IoError (Option RawNetworkMessage) :=
  match (RawNetworkMessage.consensusDecode sha256d).parse bytes with
  | some (.ok m, rest) => (rest, .ok (some m))
  | some (.err (.io .unexpectedEof), _) => (bytes, .ok none)
  | some (.err (.io kind), rest) => (rest, .err (.kind kind))
  | some (.err e, rest) => (rest, .err (.invalidData e))
  | some (.panic p, rest) => (rest, .panic p)
  | none => (bytes, .ok none)

variable {sha256d} {b : Buffer} {bytes : Bytes}

theorem settled_new : Settled Buffer.new [] := ⟨Buffer.valid_new, rfl, rfl⟩

theorem Settled.write (h : Settled b bytes) (more : Bytes) :
    Settled (b.write more) (bytes ++ more) := by
  obtain ⟨hvalid, hunread, huncommitted⟩ := h.valid.write more
  exact ⟨hvalid, by rw [hunread, h.unread], by rw [huncommitted, h.uncommitted]⟩

theorem Settled.commit (h : b.Valid) (hunread : b.unread = bytes) : Settled b.commit bytes :=
  ⟨h.commit, hunread, hunread⟩

theorem Settled.rollback (h : b.Valid) (huncommitted : b.uncommitted = bytes) :
    Settled b.rollback bytes := ⟨h.rollback, huncommitted, huncommitted⟩

/-- **`decode` on a buffer** is `decode` on its bytes, however they are split. -/
theorem Settled.decode (h : Settled b bytes) :
    (decode sha256d b).2 = (decodeBytesOf sha256d bytes).2 ∧
      ((∀ p, (decodeBytesOf sha256d bytes).2 ≠ .panic p) →
        Settled (Btc.decode sha256d b).1 (decodeBytesOf sha256d bytes).1) := by
  obtain ⟨⟨hvalid, hkeep⟩, hrun⟩ := (Buffer.serves bytes).run EncodeError.eof
    (RawNetworkMessage.consensusDecode sha256d) ⟨h.valid, h.uncommitted⟩
  rw [h.unread] at hrun
  unfold Btc.decode decodeBytesOf
  generalize (RawNetworkMessage.consensusDecode sha256d).run Buffer.readExact .eof b = r at *
  obtain ⟨b', x⟩ := r
  dsimp only at hvalid hkeep hrun ⊢
  split at hrun
  next x' rest hparse =>
    obtain ⟨rfl, hrest⟩ := hrun
    rw [hparse]
    rcases x with m | e | p
    · exact ⟨rfl, fun _ => .commit hvalid hrest⟩
    · rcases e with (_ | _ | _) | _ | _ | _ | _ | _
      · exact ⟨rfl, fun _ => .rollback hvalid hkeep⟩
      all_goals exact ⟨rfl, fun _ => .commit hvalid hrest⟩
    · exact ⟨rfl, fun hp => absurd rfl (hp p)⟩
  next hparse =>
    subst hrun
    rw [hparse]
    exact ⟨rfl, fun _ => .rollback hvalid hkeep⟩

/-- The decoder takes the magic before anything else. -/
theorem consensusDecode_parse_length {x : Outcome EncodeError RawNetworkMessage} {rest : Bytes}
    (h : (RawNetworkMessage.consensusDecode sha256d).parse bytes = some (x, rest)) :
    rest.length + 4 ≤ bytes.length := by
  obtain ⟨next, hnext⟩ : ∃ next, RawNetworkMessage.consensusDecode sha256d = .read 4 next :=
    ⟨_, rfl⟩
  rw [hnext, Reader.parse] at h
  split_ifs at h with hle
  have hsuffix := (Reader.parse_suffix h).length_le
  rw [List.length_drop] at hsuffix
  omega

theorem consensusDecode_parse_nil :
    (RawNetworkMessage.consensusDecode sha256d).parse [] = none := rfl

/-- The loop over a buffer is the loop over its bytes, where that ends in a message that
is not complete. -/
theorem Settled.decodeAll (h : Settled b bytes) {fuel : Nat} (hfuel : bytes.length < fuel)
    {ms : List RawNetworkMessage} {rest : Bytes}
    (hdrain : (RawNetworkMessage.consensusDecode sha256d).drain fuel bytes = (ms, rest))
    (hwait : (RawNetworkMessage.consensusDecode sha256d).parse rest = none) :
    ∃ b', decodeAll sha256d fuel b = (b', ms, .ok ()) ∧ Settled b' rest := by
  induction fuel generalizing b bytes ms with
  | zero => omega
  | succ fuel ih =>
    obtain ⟨hres, hsettled⟩ := @Settled.decode sha256d b bytes h
    rw [Reader.drain] at hdrain
    -- where the loop ends, the decoder ran short
    have hends : ([], bytes) = (ms, rest) →
        (RawNetworkMessage.consensusDecode sha256d).parse bytes = none := by
      intro he
      rw [(Prod.mk.inj he).2, hwait]
    rcases hparse : (RawNetworkMessage.consensusDecode sha256d).parse bytes with
      _ | ⟨m | e | p, rest'⟩
    · rw [hparse] at hdrain
      cases hdrain
      rw [decodeBytesOf, hparse] at hres hsettled
      refine ⟨(Btc.decode sha256d b).1, ?_, hsettled (by simp)⟩
      rw [Btc.decodeAll, ← Prod.eta (Btc.decode sha256d b), hres]
    · rw [hparse] at hdrain
      rw [decodeBytesOf, hparse] at hres hsettled
      have hlength := consensusDecode_parse_length hparse
      have hnext : Settled (Btc.decode sha256d b).1 rest' := hsettled (by simp)
      cases hdrain
      obtain ⟨b', hall, hb'⟩ := ih hnext (by omega) rfl
      refine ⟨b', ?_, hb'⟩
      rw [Btc.decodeAll, ← Prod.eta (Btc.decode sha256d b), hres]
      dsimp only
      rw [hall]
    · rw [hparse] at hdrain
      rw [hends hdrain] at hparse
      cases hparse
    · rw [hparse] at hdrain
      rw [hends hdrain] at hparse
      cases hparse

/-! ## Streams -/

variable (sha256d) in
/-- The messages as `encode` writes them one after the other. -/
def stream (ms : List RawNetworkMessage) : Bytes :=
  (ms.foldl (fun dst m => encode sha256d m dst) Buffer.new).unread

/-- What a connection has got: its buffer, the messages and how each read ended. -/
structure Received where
  buffer : Buffer
  messages : List RawNetworkMessage
  endings : List (Outcome IoError Unit)

def Received.new : Received := ⟨Buffer.new, [], []⟩

variable (sha256d) in
/-- One read. -/
def Received.step (s : Received) (bytes : Bytes) : Received :=
  let (buffer, ms, ended) := receive sha256d s.buffer bytes
  ⟨buffer, s.messages ++ ms, s.endings ++ [ended]⟩

variable {ms : List RawNetworkMessage}

theorem settled_encode (ms : List RawNetworkMessage) (h : Settled b bytes) :
    Settled (ms.foldl (fun dst m => encode sha256d m dst) b)
      (bytes ++ ms.flatMap (RawNetworkMessage.serialize sha256d)) := by
  induction ms generalizing b bytes with
  | nil => simpa using h
  | cons m ms ih =>
    rw [List.foldl_cons, List.flatMap_cons, ← List.append_assoc]
    exact ih (h.write _)

/-- The stream is the encodings one after the other. -/
theorem stream_eq (ms : List RawNetworkMessage) :
    stream sha256d ms = ms.flatMap (RawNetworkMessage.serialize sha256d) :=
  (settled_encode ms settled_new).unread

/-- Where a connection is in the stream of `ms`: `left` is still to come, and what is in
the buffer is the part of it that has arrived. -/
structure InStream (sha256d : Bytes → Sha256dHash) (ms : List RawNetworkMessage) (arrived : Bytes)
    (s : Received) : Prop where
  ended : ∀ x ∈ s.endings, x = .ok ()
  split : ∃ left rest, ms = s.messages ++ left ∧ Settled s.buffer rest ∧
    arrived = s.messages.flatMap (RawNetworkMessage.serialize sha256d) ++ rest ∧
    rest <+: left.flatMap (RawNetworkMessage.serialize sha256d) ∧
    (RawNetworkMessage.consensusDecode sha256d).parse rest = none

/-- One read of a part of the stream. -/
theorem InStream.step {arrived : Bytes} {s : Received} (h : InStream sha256d ms arrived s)
    (hms : ∀ m ∈ ms, Reader.Frames (RawNetworkMessage.consensusDecode sha256d)
      (RawNetworkMessage.serialize sha256d) m)
    (hin : arrived ++ bytes <+: ms.flatMap (RawNetworkMessage.serialize sha256d)) :
    InStream sha256d ms (arrived ++ bytes) (s.step sha256d bytes) := by
  obtain ⟨left, rest, rfl, hbuffer, rfl, hrest, hwait⟩ := h.split
  rw [List.flatMap_append, List.append_assoc, List.prefix_append_right_inj] at hin
  have hleft : ∀ m ∈ left, Reader.Frames (RawNetworkMessage.consensusDecode sha256d)
      (RawNetworkMessage.serialize sha256d) m := fun m hm => hms m (List.mem_append_right _ hm)
  have hwritten : Settled (s.buffer.write bytes) (rest ++ bytes) := hbuffer.write bytes
  have hfuel : (rest ++ bytes).length < (s.buffer.write bytes).len + 1 := by
    rw [Buffer.len_eq, hwritten.unread]
    exact Nat.lt_succ_self _
  obtain ⟨done, left', rest', rfl, hsplit, hrest', hwait', hdrain⟩ :=
    Reader.drain_of_prefix consensusDecode_parse_nil hleft hin hfuel
  obtain ⟨b', hall, hb'⟩ := hwritten.decodeAll hfuel hdrain hwait'
  have hstep : s.step sha256d bytes = ⟨b', s.messages ++ done, s.endings ++ [.ok ()]⟩ := by
    rw [Received.step, receive]
    dsimp only
    rw [hall]
  rw [hstep]
  constructor
  · intro x hx
    rcases List.mem_append.mp hx with hx | hx
    · exact h.ended x hx
    · exact List.mem_singleton.mp hx
  · refine ⟨left', rest', by simp, hb', ?_, hrest', hwait'⟩
    rw [List.append_assoc, hsplit, List.flatMap_append, List.append_assoc]

/-- All reads of a stream, in any pieces. -/
theorem InStream.run {arrived : Bytes} {s : Received} {chunks : List Bytes}
    (h : InStream sha256d ms arrived s)
    (hms : ∀ m ∈ ms, Reader.Frames (RawNetworkMessage.consensusDecode sha256d)
      (RawNetworkMessage.serialize sha256d) m)
    (hin : arrived ++ chunks.flatten <+: ms.flatMap (RawNetworkMessage.serialize sha256d)) :
    InStream sha256d ms (arrived ++ chunks.flatten)
      (Lib.run (Received.step sha256d) s chunks) := by
  induction chunks generalizing arrived s with
  | nil => simpa using h
  | cons chunk chunks ih =>
    rw [List.flatten_cons, ← List.append_assoc] at hin ⊢
    have hchunk : arrived ++ chunk <+: ms.flatMap (RawNetworkMessage.serialize sha256d) :=
      (List.prefix_append _ _).trans hin
    exact ih (h.step hms hchunk) hin

/-- **Framing.** Messages that their decoder reads back come out of a connection one by
one and in order, however their stream is cut into reads, and no byte is left. -/
theorem received_of_stream (sha256d : Bytes → Sha256dHash) (ms : List RawNetworkMessage)
    (chunks : List Bytes)
    (hms : ∀ m ∈ ms, Reader.Frames (RawNetworkMessage.consensusDecode sha256d)
      (RawNetworkMessage.serialize sha256d) m)
    (hcut : chunks.flatten = stream sha256d ms) :
    (run (Received.step sha256d) .new chunks).messages = ms ∧
      (run (Received.step sha256d) .new chunks).buffer.len = 0 ∧
      ∀ x ∈ (run (Received.step sha256d) .new chunks).endings, x = .ok () := by
  rw [stream_eq] at hcut
  have hstart : InStream sha256d ms [] .new :=
    ⟨fun x hx => (nomatch hx), ms, [], rfl, settled_new, rfl, List.nil_prefix,
      consensusDecode_parse_nil⟩
  have hall := hstart.run hms (by rw [List.nil_append, hcut])
  obtain ⟨left, rest, hsplit, hbuffer, harrived, hrest, hwait⟩ := hall.split
  rw [List.nil_append, hcut] at harrived
  -- nothing of the stream is still to come
  have hlast : rest = left.flatMap (RawNetworkMessage.serialize sha256d) := by
    rw [hsplit, List.flatMap_append] at harrived
    exact (List.append_cancel_left harrived).symm
  have hnone : left = [] := by
    cases left with
    | nil => rfl
    | cons m left =>
      have hm := hms m (by rw [hsplit]; simp)
      rw [hlast, List.flatMap_cons, hm.parse_append] at hwait
      cases hwait
  rw [hnone, List.flatMap_nil] at hlast
  rw [hnone, List.append_nil] at hsplit
  refine ⟨hsplit.symm, ?_, hall.ended⟩
  rw [Buffer.len_eq, hbuffer.unread, hlast]
  rfl

end Config

/-! ## A stream in pieces -/

/-- The double hash of no data and of a ping with the nonce 7. -/
def hashOfTwo (data : Bytes) : Sha256dHash :=
  if data = [] then 0x56944c5d3f98413ef45cf54545538103cc9f298e0575820ad3591376e2e0f65d#256
  else if data = [7, 0, 0, 0, 0, 0, 0, 0] then
    0x71fded3589ce9c84364974a8726c91803656169d68c9016f82c7623800c828c#256
  else 0

def twoMessages : List RawNetworkMessage := [⟨0xD9B4BEF9, .verack⟩, ⟨0xD9B4BEF9, .ping 7⟩]

/-- The first read ends in the header of the first message, the second in the payload of
the second. -/
def piecesOfTwo : List Bytes :=
  let all := stream hashOfTwo twoMessages
  [all.take 10, (all.drop 10).take 41, [], (all.drop 10).drop 41]

theorem received_of_twoMessages :
    (run (Received.step hashOfTwo) .new piecesOfTwo).messages = twoMessages ∧
      (run (Received.step hashOfTwo) .new piecesOfTwo).buffer.len = 0 ∧
      ∀ x ∈ (run (Received.step hashOfTwo) .new piecesOfTwo).endings, x = .ok () := by
  have hframes : ∀ m ∈ twoMessages, (RawNetworkMessage.consensusDecode hashOfTwo).parse
      (m.serialize hashOfTwo) = some (.ok m, []) := by decide +kernel
  have hcut : piecesOfTwo.flatten = stream hashOfTwo twoMessages := by
    simp only [piecesOfTwo, List.flatten_cons, List.flatten_nil, List.append_nil, List.nil_append,
      List.take_append_drop]
  exact received_of_stream hashOfTwo twoMessages piecesOfTwo hframes hcut

end Cashbox.Btc
