import Cashbox.Lib.Method
import Cashbox.Lib.Run
import Cashbox.Btc.BufferQueue

/-!
# Writing to a peer

A message sent to a peer goes into a channel; when the socket is writable, the event loop
fills the write buffer from the channel and writes it out. The event is followed from one
call of the socket to the next, so that every sequence of results is a run: a write may take
a part, take nothing or fail. The peer is deregistered for writing when the channel is
found empty, whatever is left in the buffer.
-/

namespace Cashbox.Btc

open Cashbox.Lib

variable {Message : Type}

/-! ## Data model -/

/-- What a peer is registered for with the poll. -/
inductive Interest where
  | readable
  | writable
  deriving DecidableEq, Repr

/-- The result of `TcpStream::write`. -/
inductive WriteResult where
  /-- `Ok`: that many bytes of the slice were taken, if it has as many. -/
  | ok (wlen : Nat)
  /-- `Err`, such as "would block". -/
  | err
  deriving DecidableEq, Repr

/-- The write side of a peer. -/
structure Peer (Message : Type) where
  /-- Temporary buffer for not yet completely written outgoing messages. -/
  writeBuffer : Buffer
  /-- The channel into the event processing loop for outgoing messages. -/
  channel : List Message
  /-- Is registered for write? -/
  writeable : Bool
  /-- The interest last registered. -/
  interest : Interest
  /-- `iobuf[wrote..len]`, while a write of it is under way. -/
  sending : Option Bytes
  /-- The bytes handed to the socket so far. -/
  socket : Bytes
  /-- The messages sent so far. -/
  sent : List Message
  deriving DecidableEq, Repr

namespace Peer

/-! ## The code -/

/-- A peer that was just registered, for writing if it is an outgoing connection. -/
def new (outgoing : Bool) : Peer Message where
  writeBuffer := Buffer.new
  channel := []
  writeable := outgoing
  interest := if outgoing then .writable else .readable
  sending := none
  socket := []
  sent := []

/-- `registry().reregister`, which may fail. -/
def reregister (registry : Bool) (interest : Interest) : Method (Peer Message) ErrorKind Unit :=
  if registry then Method.modify fun p => { p with interest := interest }
  else Method.lift (.err .other)

/-- Re-register for peer readable events. -/
def reregisterRead (registry : Bool) : Method (Peer Message) ErrorKind Unit := do
  let p ← Method.get
  Method.modify fun p => { p with writeable := false }
  if p.writeable then reregister registry .readable

/-- Register for peer writable events. -/
def reregisterWrite (registry : Bool) : Method (Peer Message) ErrorKind Unit := do
  let p ← Method.get
  Method.modify fun p => { p with writeable := true }
  if !p.writeable then reregister registry .writable

/-- Send a message to the peer. -/
def send (msg : Message) (registry : Bool) : Method (Peer Message) ErrorKind Unit := do
  Method.modify fun p => { p with channel := p.channel ++ [msg], sent := p.sent ++ [msg] }
  -- register for writable peer events since we have an outgoing message
  reregisterWrite registry

/-- Reads ahead what fits the buffer of the event loop; if there is something, a write of it
is tried next. -/
def unfinishedWrite : Method (Peer Message) ErrorKind Bool := do
  let p ← Method.get
  let iobuf ← Method.lift (p.writeBuffer.readAhead ioBufferSize)
  if 0 < iobuf.length then
    Method.modify fun p => { p with sending := some iobuf }
    return true
  else return false

/-- The message taken from the channel goes into the write buffer. -/
def refill (encode : Message → Bytes) (msg : Message) (rest : List Message)
    (p : Peer Message) : Peer Message :=
  { p with channel := rest, sending := none, writeBuffer := p.writeBuffer.write (encode msg) }

/-- The event loop from where it gets an outgoing message: to the next write, or to its end
when no message is left. -/
def getNext (encode : Message → Bytes) (registry : Bool) :
    List Message → Method (Peer Message) ErrorKind Unit
  | [] => do
    Method.modify fun p => { p with channel := [], sending := none }
    -- keep registered only for read events
    reregisterRead registry
  | msg :: rest => do
    Method.modify (refill encode msg rest)
    if ← unfinishedWrite then return () else getNext encode registry rest

/-- A writable event, up to its first write. -/
def writable (encode : Message → Bytes) (registry : Bool) :
    Method (Peer Message) ErrorKind Unit := do
  let p ← Method.get
  if ← unfinishedWrite then return () else getNext encode registry p.channel

/-- The event goes on with the result of a write, up to the next one. -/
def wrote (encode : Message → Bytes) (registry : Bool) (result : WriteResult) :
    Method (Peer Message) ErrorKind Unit := do
  let p ← Method.get
  match p.sending with
  | none => return ()
  | some iobuf =>
    match result with
    -- the inner loop ends, and the next message is fetched although the write is unfinished
    | .err => getNext encode registry p.channel
    | .ok n =>
      let wlen := min n iobuf.length
      if wlen = 0 then
        -- do not fetch next message
        writable encode registry
      else
        let (buffer, _) ← Method.lift (p.writeBuffer.advance wlen)
        let buffer ← Method.lift buffer.tryCommit
        Method.modify fun p =>
          { p with writeBuffer := buffer, socket := p.socket ++ iobuf.take wlen,
                   sending := some (iobuf.drop wlen) }
        if wlen = iobuf.length then getNext encode registry p.channel else return ()

/-! ## Runs -/

/-- A call of `send`, a writable event, or the result of a write it tried; each with the
answer of the registry, should it be asked. -/
inductive Input (Message : Type) where
  | send (msg : Message) (registry : Bool)
  | writable (registry : Bool)
  | wrote (result : WriteResult) (registry : Bool)
  deriving DecidableEq, Repr

def handle (encode : Message → Bytes) : Input Message → Method (Peer Message) ErrorKind Unit
  | .send msg registry => send msg registry
  | .writable registry => writable encode registry
  | .wrote result registry => wrote encode registry result

def step (encode : Message → Bytes) (p : Peer Message) (input : Input Message) : Peer Message :=
  ((handle encode input).run p).1

/-- The peer is locked while an event is processed: only the socket answers then. -/
def Enabled (p : Peer Message) : Input Message → Prop
  | .wrote _ _ => p.sending.isSome
  | _ => p.sending = none

instance (p : Peer Message) (input : Input Message) : Decidable (p.Enabled input) := by
  cases input <;> unfold Enabled <;> infer_instance

/-! ## What is wanted -/

/-- There is something to write. -/
def Pending (p : Peer Message) : Prop := p.writeBuffer.unread ≠ [] ∨ p.channel ≠ []

/-- While no event is processed, a peer with something to write is registered for it; and
the socket got a prefix of what was sent. -/
structure Served (encode : Message → Bytes) (p : Peer Message) : Prop where
  registered : p.sending = none → p.Pending → p.interest = .writable
  inOrder : p.socket <+: p.sent.flatMap encode

/-- The event ends with this result, the peer being registered for writing, although the
buffer is not empty: the channel is, and the write failed or was of a part of the buffer. -/
def GivesUp (p : Peer Message) (result : WriteResult) (registry : Bool) : Prop :=
  p.channel = [] ∧ p.writeable ∧ registry ∧
    match result with
    | .err => True
    | .ok n => ∃ iobuf ∈ p.sending, iobuf.length ≤ n ∧
        iobuf.length < p.writeBuffer.unread.length

instance (p : Peer Message) (result : WriteResult) (registry : Bool) [DecidableEq Message] :
    Decidable (p.GivesUp result registry) := by
  unfold GivesUp
  cases result <;> infer_instance

/-- The condition on a step. -/
def StepOk (p : Peer Message) : Input Message → Prop
  | .send _ registry => registry ∨ p.interest = .writable
  | .writable _ => True
  | .wrote result registry => ¬ p.GivesUp result registry

instance (p : Peer Message) (input : Input Message) [DecidableEq Message] :
    Decidable (p.StepOk input) := by
  cases input <;> unfold StepOk <;> infer_instance

/-! ## What the pieces of an event do -/

variable {encode : Message → Bytes} {p : Peer Message}

theorem run_reregisterRead (p : Peer Message) (registry : Bool) :
    ((reregisterRead registry).run p).1 =
      { p with writeable := false,
               interest := if p.writeable ∧ registry then .readable else p.interest } := by
  obtain ⟨writeBuffer, channel, writeable, interest, sending, socket, sent⟩ := p
  cases writeable <;> cases registry <;> rfl

theorem run_reregisterWrite (p : Peer Message) (registry : Bool) :
    ((reregisterWrite registry).run p).1 =
      { p with writeable := true,
               interest := if ¬ p.writeable ∧ registry then .writable else p.interest } := by
  obtain ⟨writeBuffer, channel, writeable, interest, sending, socket, sent⟩ := p
  cases writeable <;> cases registry <;> rfl

theorem run_unfinishedWrite (hvalid : p.writeBuffer.Valid) :
    unfinishedWrite.run p =
      if p.writeBuffer.unread = [] then (p, .ok false)
      else ({ p with sending := some (p.writeBuffer.unread.take ioBufferSize) }, .ok true) := by
  have hio : 0 < ioBufferSize := by simp [ioBufferSize]
  unfold unfinishedWrite
  rw [Method.run_bind_of_ok (Method.run_get p), Method.run_lift_bind_of_ok (hvalid.readAhead _)]
  by_cases hempty : p.writeBuffer.unread = []
  · simp [hempty]
  · have hlen : 0 < (p.writeBuffer.unread.take ioBufferSize).length := by
      rw [List.length_take]
      exact lt_min hio (List.length_pos_iff.mpr hempty)
    rw [if_pos hlen, if_neg hempty]
    rfl

/-- Where the event loop goes from a peer with messages `ch` in its channel. -/
inductive NextCase (encode : Message → Bytes) (registry : Bool) (p : Peer Message)
    (ch : List Message) : Peer Message → Prop where
  /-- A message is fetched, and a write is tried. -/
  | writes (buffer : Buffer) (rest : List Message) (hvalid : buffer.Valid)
      (hsome : buffer.unread ≠ []) (hch : ch ≠ [])
      (hkeep : buffer.unread ++ rest.flatMap encode = p.writeBuffer.unread ++ ch.flatMap encode) :
      NextCase encode registry p ch
        { p with writeBuffer := buffer, channel := rest,
                 sending := some (buffer.unread.take ioBufferSize) }
  /-- No message is left. -/
  | ends (buffer : Buffer) (hvalid : buffer.Valid) (hlast : ch = [] ∨ buffer.unread = [])
      (hkeep : buffer.unread = p.writeBuffer.unread ++ ch.flatMap encode) :
      NextCase encode registry p ch
        { p with writeBuffer := buffer, channel := [], sending := none, writeable := false,
                 interest := if p.writeable ∧ registry then .readable else p.interest }

/-- The loop over the channel: a message that leaves the buffer empty is followed by the
next one. -/
theorem getNext_cases (registry : Bool) (hvalid : p.writeBuffer.Valid) (ch : List Message) :
    NextCase encode registry p ch ((getNext encode registry ch).run p).1 := by
  induction ch generalizing p with
  | nil =>
    have hend : ((getNext encode registry []).run p).1 =
        { p with channel := [], sending := none, writeable := false,
                 interest := if p.writeable ∧ registry then .readable else p.interest } := by
      unfold getNext
      rw [Method.run_bind_of_ok (Method.run_modify _ p)]
      exact run_reregisterRead _ registry
    rw [hend]
    exact .ends p.writeBuffer hvalid (.inl rfl) (by simp)
  | cons msg rest ih =>
    -- the message joins the buffer before the write is tried
    obtain ⟨hvalid', hunread, _⟩ := hvalid.write (encode msg)
    have hrefilled : (refill encode msg rest p).writeBuffer.unread =
        p.writeBuffer.unread ++ encode msg := hunread
    unfold getNext
    rw [Method.run_bind_of_ok (Method.run_modify _ p)]
    by_cases hempty : (refill encode msg rest p).writeBuffer.unread = []
    · -- nothing to write yet
      have htry := run_unfinishedWrite (p := refill encode msg rest p) hvalid'
      rw [if_pos hempty] at htry
      rw [Method.run_bind_of_ok htry]
      have hrest : NextCase encode registry (refill encode msg rest p) rest
          ((getNext encode registry rest).run (refill encode msg rest p)).1 := ih hvalid'
      show NextCase encode registry p (msg :: rest)
        ((getNext encode registry rest).run (refill encode msg rest p)).1
      generalize ((getNext encode registry rest).run (refill encode msg rest p)).1 = p' at hrest
      cases hrest with
      | writes buffer rest' hv hsome hch hkeep =>
        refine .writes buffer rest' hv hsome (by simp) ?_
        rw [hkeep, hrefilled]
        simp
      | ends buffer hv hlast hkeep =>
        refine .ends buffer hv (.inr ?_) ?_
        · rcases hlast with rfl | hnone
          · simpa [hempty] using hkeep
          · exact hnone
        · rw [hkeep, hrefilled]
          simp
    · -- the buffer has something to write, and the loop waits for the result
      have htry := run_unfinishedWrite (p := refill encode msg rest p) hvalid'
      rw [if_neg hempty] at htry
      rw [Method.run_bind_of_ok htry]
      exact .writes (p.writeBuffer.write (encode msg)) rest hvalid' hempty (by simp)
        (by simp [hunread])

theorem run_writable (registry : Bool) (hvalid : p.writeBuffer.Valid) :
    ((writable encode registry).run p).1 =
      if p.writeBuffer.unread = [] then ((getNext encode registry p.channel).run p).1
      else { p with sending := some (p.writeBuffer.unread.take ioBufferSize) } := by
  unfold writable
  rw [Method.run_bind_of_ok (Method.run_get p), Method.run_bind, run_unfinishedWrite hvalid]
  by_cases hempty : p.writeBuffer.unread = []
  · simp [hempty]
  · simp [hempty]

theorem run_wrote_err (registry : Bool) {iobuf : Bytes} (hsending : p.sending = some iobuf) :
    (wrote encode registry .err).run p = (getNext encode registry p.channel).run p := by
  unfold wrote
  rw [Method.run_bind_of_ok (Method.run_get p), hsending]

/-- The peer after the socket took `wlen` bytes of the slice. -/
def taken (p : Peer Message) (iobuf : Bytes) (wlen : Nat) : Peer Message :=
  { p with writeBuffer := (p.writeBuffer.readAdvance wlen).1.commit,
           socket := p.socket ++ iobuf.take wlen, sending := some (iobuf.drop wlen) }

theorem run_wrote_ok (registry : Bool) (n : Nat) {iobuf : Bytes} (hvalid : p.writeBuffer.Valid)
    (hsending : p.sending = some iobuf) (hslice : iobuf <+: p.writeBuffer.unread) :
    ((wrote encode registry (.ok n)).run p).1 =
      if min n iobuf.length = 0 then ((writable encode registry).run p).1
      else if min n iobuf.length = iobuf.length then
        ((getNext encode registry p.channel).run (p.taken iobuf (min n iobuf.length))).1
      else p.taken iobuf (min n iobuf.length) := by
  have hlen : min n iobuf.length ≤ p.writeBuffer.unread.length :=
    (min_le_right _ _).trans hslice.length_le
  obtain ⟨hvalid', _⟩ := hvalid.readAdvance (min n iobuf.length)
  unfold wrote
  rw [Method.run_bind_of_ok (Method.run_get p), hsending]
  dsimp only
  split_ifs with hzero hall
  · rfl
  · -- the slice is written out
    rw [Method.run_lift_bind_of_ok (hvalid.advance hlen),
      Method.run_lift_bind_of_ok hvalid'.tryCommit,
      Method.run_bind_of_ok (Method.run_modify _ p)]
    rfl
  · rw [Method.run_lift_bind_of_ok (hvalid.advance hlen),
      Method.run_lift_bind_of_ok hvalid'.tryCommit,
      Method.run_bind_of_ok (Method.run_modify _ p)]
    rfl

/-! ## The invariant -/

/-- What holds whether or not a write is under way: no byte is lost or out of order, and a
peer with something to write is registered for it. -/
structure Books (encode : Message → Bytes) (p : Peer Message) : Prop where
  valid : p.writeBuffer.Valid
  conserved : p.socket ++ p.writeBuffer.unread ++ p.channel.flatMap encode = p.sent.flatMap encode
  flagged : p.writeable = true → p.interest = .writable
  registered : p.Pending → p.interest = .writable

/-- The slice under way is what the buffer holds next. -/
structure Inv (encode : Message → Bytes) (p : Peer Message) : Prop where
  books : Books encode p
  slice : ∀ iobuf, p.sending = some iobuf → iobuf ≠ [] ∧ iobuf <+: p.writeBuffer.unread

theorem Inv.new (encode : Message → Bytes) (outgoing : Bool) : Inv encode (new outgoing) := by
  refine ⟨⟨Buffer.valid_new, rfl, ?_, ?_⟩, ?_⟩
  · intro hflag
    have hout : outgoing = true := hflag
    simp [Peer.new, hout]
  · rintro (hbuffer | hchannel)
    · exact absurd rfl hbuffer
    · exact absurd rfl hchannel
  · intro iobuf h
    cases h

theorem Inv.served (h : Inv encode p) : Served encode p := by
  refine ⟨fun _ => h.books.registered, ?_⟩
  rw [← h.books.conserved, List.append_assoc]
  exact List.prefix_append _ _

theorem slice_take {bytes : Bytes} (hsome : bytes ≠ []) :
    bytes.take ioBufferSize ≠ [] ∧ bytes.take ioBufferSize <+: bytes := by
  refine ⟨?_, List.take_prefix _ _⟩
  rw [Ne, List.take_eq_nil_iff]
  rintro (hzero | hnil)
  · simp [ioBufferSize] at hzero
  · exact hsome hnil

/-- The loop over the channel keeps the invariant, unless it gives up a rest of the buffer. -/
theorem Books.nextCase (h : Books encode p) {registry : Bool} {p' : Peer Message}
    (hok : p.writeBuffer.unread = [] ∨ p.channel ≠ [] ∨ ¬ (p.writeable = true ∧ registry = true))
    (hcase : NextCase encode registry p p.channel p') : Inv encode p' := by
  obtain ⟨hvalid, hconserved, hflagged, hregistered⟩ := h
  cases hcase with
  | writes buffer rest hv hsome hch hkeep =>
    refine ⟨⟨hv, ?_, hflagged, fun _ => hregistered (.inr hch)⟩, ?_⟩
    · rw [← hconserved, List.append_assoc, hkeep, List.append_assoc]
    · intro iobuf hiobuf
      cases hiobuf
      exact slice_take hsome
  | ends buffer hv hlast hkeep =>
    refine ⟨⟨hv, ?_, (fun hflag => nomatch hflag), ?_⟩, (fun iobuf hiobuf => nomatch hiobuf)⟩
    · rw [← hconserved, hkeep]
      simp
    · rintro (hrest | hnil)
      · -- what is left was left before, and the peer stays registered
        have hch : p.channel = [] := hlast.resolve_right hrest
        have hunread : p.writeBuffer.unread ≠ [] := by
          rw [hkeep, hch] at hrest
          simpa using hrest
        have hno : ¬ (p.writeable = true ∧ registry = true) :=
          (hok.resolve_left hunread).resolve_left (not_not.mpr hch)
        show (if p.writeable = true ∧ registry = true then Interest.readable else p.interest) = _
        rw [if_neg hno]
        exact hregistered (.inl hunread)
      · exact absurd rfl hnil

theorem Books.getNext (h : Books encode p) {registry : Bool}
    (hok : p.writeBuffer.unread = [] ∨ p.channel ≠ [] ∨ ¬ (p.writeable = true ∧ registry = true)) :
    Inv encode ((Peer.getNext encode registry p.channel).run p).1 :=
  h.nextCase hok (getNext_cases registry h.valid p.channel)

theorem Books.writable (h : Books encode p) (registry : Bool) :
    Inv encode ((Peer.writable encode registry).run p).1 := by
  rw [run_writable registry h.valid]
  split_ifs with hempty
  · exact h.getNext (.inl hempty)
  · refine ⟨⟨h.valid, h.conserved, h.flagged, h.registered⟩, ?_⟩
    intro iobuf hiobuf
    cases hiobuf
    exact slice_take hempty

theorem taken_unread (hvalid : p.writeBuffer.Valid) (iobuf : Bytes) (wlen : Nat) :
    (p.taken iobuf wlen).writeBuffer.unread = p.writeBuffer.unread.drop wlen :=
  (hvalid.readAdvance wlen).2.2.1

/-- Bytes that the socket took are the next ones, and the buffer forgets them. -/
theorem Books.taken (h : Books encode p) {iobuf : Bytes} (hslice : iobuf <+: p.writeBuffer.unread)
    {wlen : Nat} (hlen : wlen ≤ iobuf.length) : Books encode (p.taken iobuf wlen) := by
  have hunread := taken_unread h.valid iobuf wlen
  have hnext : iobuf.take wlen = p.writeBuffer.unread.take wlen := by
    obtain ⟨rest, hrest⟩ := hslice
    rw [← hrest, List.take_append_of_le_length hlen]
  refine ⟨(h.valid.readAdvance wlen).1.commit, ?_, h.flagged, ?_⟩
  · rw [hunread]
    show p.socket ++ iobuf.take wlen ++ p.writeBuffer.unread.drop wlen ++
      p.channel.flatMap encode = p.sent.flatMap encode
    rw [hnext, ← h.conserved, List.append_assoc p.socket, List.take_append_drop]
  · rintro (hrest | hchannel)
    · apply h.registered
      left
      rintro hnil
      rw [hunread, hnil] at hrest
      exact hrest List.drop_nil
    · exact h.registered (.inr hchannel)

/-! ## One step -/

/-- A step that meets the condition keeps the invariant. -/
theorem Inv.step (h : Inv encode p) {input : Input Message} (hen : p.Enabled input)
    (hok : p.StepOk input) : Inv encode (p.step encode input) := by
  cases input with
  | send msg registry =>
    have hidle : p.sending = none := hen
    have hrun : p.step encode (.send msg registry) =
        { p with channel := p.channel ++ [msg], sent := p.sent ++ [msg], writeable := true,
                 interest := if ¬ p.writeable = true ∧ registry = true then .writable
                   else p.interest } := by
      show ((send msg registry).run p).1 = _
      unfold send
      rw [Method.run_bind_of_ok (Method.run_modify _ p)]
      exact run_reregisterWrite _ registry
    have hinterest : (if ¬ p.writeable = true ∧ registry = true then Interest.writable
        else p.interest) = .writable := by
      split_ifs with hcall
      · rfl
      · -- it was registered before
        rcases hok with hreg | hint
        · exact h.books.flagged (by simpa [hreg] using hcall)
        · exact hint
    rw [hrun]
    refine ⟨⟨h.books.valid, ?_, fun _ => hinterest, fun _ => hinterest⟩, ?_⟩
    · -- the bytes of the message join the queue at its end
      show p.socket ++ p.writeBuffer.unread ++ (p.channel ++ [msg]).flatMap encode = _
      rw [List.flatMap_append, ← List.append_assoc, h.books.conserved, ← List.flatMap_append]
    · -- nothing is being written, so that there is no slice to keep
      intro iobuf hiobuf
      exact absurd (hidle.symm.trans hiobuf) (by simp)
  | writable registry => exact h.books.writable registry
  | wrote result registry =>
    obtain ⟨iobuf, hsending⟩ := Option.isSome_iff_exists.mp hen
    obtain ⟨hne, hslice⟩ := h.slice iobuf hsending
    have hok' : ¬ p.GivesUp result registry := hok
    cases result with
    | err =>
      show Inv encode ((wrote encode registry .err).run p).1
      rw [run_wrote_err registry hsending]
      apply h.books.getNext
      by_cases hch : p.channel = []
      · -- giving up takes the registration and the answer of the registry
        right
        right
        rintro ⟨hflag, hreg⟩
        exact hok' ⟨hch, hflag, hreg, trivial⟩
      · exact .inr (.inl hch)
    | ok n =>
      show Inv encode ((wrote encode registry (.ok n)).run p).1
      rw [run_wrote_ok registry n h.books.valid hsending hslice]
      have htaken := h.books.taken hslice (min_le_right n iobuf.length)
      have hunread := taken_unread h.books.valid iobuf (min n iobuf.length)
      split_ifs with hzero hall
      · -- nothing was written, and the loop leaves with a new registration
        exact h.books.writable registry
      · -- the slice is written to its end, and the next message is taken
        apply htaken.getNext
        by_cases hch : p.channel = []
        · by_cases hrest : p.writeBuffer.unread.length ≤ iobuf.length
          · left
            rw [hunread, hall]
            exact List.drop_eq_nil_of_le hrest
          · right
            right
            rintro ⟨hflag, hreg⟩
            exact hok' ⟨hch, hflag, hreg, iobuf, hsending, by omega, by omega⟩
        · exact .inr (.inl hch)
      · -- the same slice goes on
        refine ⟨htaken, ?_⟩
        intro rest hrest
        cases hrest
        obtain ⟨tail, htail⟩ := hslice
        refine ⟨?_, tail, ?_⟩
        · rw [Ne, List.drop_eq_nil_iff]
          omega
        · rw [hunread, ← htail, List.drop_append_of_le_length (min_le_right _ _)]

/-- An event that gives up leaves a peer with something to write registered for reading. -/
theorem not_served_of_ends {registry : Bool} {p' : Peer Message} (hch : p.channel = [])
    (hflag : p.writeable = true) (hreg : registry = true) (hrest : p.writeBuffer.unread ≠ [])
    (hcase : NextCase encode registry p p.channel p') : ¬ Served encode p' := by
  intro hserved
  cases hcase with
  | writes buffer rest hv hsome hch' hkeep => exact hch' hch
  | ends buffer hv hlast hkeep =>
    have hbuffer : buffer.unread ≠ [] := by
      rw [hkeep, hch]
      simpa using hrest
    have hinterest := hserved.registered rfl (.inl hbuffer)
    rw [if_pos ⟨hflag, hreg⟩] at hinterest
    cases hinterest

/-- A step that does not meet the condition leaves a peer that is not served. -/
theorem Inv.not_served (h : Inv encode p) {input : Input Message} (hen : p.Enabled input)
    (hno : ¬ p.StepOk input) : ¬ Served encode (p.step encode input) := by
  cases input with
  | send msg registry =>
    have hidle : p.sending = none := hen
    obtain ⟨hreg, hint⟩ := not_or.mp hno
    intro hserved
    have hrun : (p.step encode (.send msg registry)).interest = p.interest := by
      show ((send msg registry).run p).1.interest = _
      unfold send
      rw [Method.run_bind_of_ok (Method.run_modify _ p), run_reregisterWrite]
      exact if_neg fun hcall => hreg hcall.2
    have hpending : (p.step encode (.send msg registry)).channel = p.channel ++ [msg] := by
      show ((send msg registry).run p).1.channel = _
      unfold send
      rw [Method.run_bind_of_ok (Method.run_modify _ p), run_reregisterWrite]
    have hstill : (p.step encode (.send msg registry)).sending = none := by
      show ((send msg registry).run p).1.sending = _
      unfold send
      rw [Method.run_bind_of_ok (Method.run_modify _ p), run_reregisterWrite]
      exact hidle
    -- a peer that is served would be registered
    have hwritable := hserved.registered hstill (.inr (by simp [hpending]))
    exact hint (hrun ▸ hwritable)
  | writable registry => exact absurd trivial hno
  | wrote result registry =>
    obtain ⟨iobuf, hsending⟩ := Option.isSome_iff_exists.mp hen
    obtain ⟨hne, hslice⟩ := h.slice iobuf hsending
    obtain ⟨hch, hflag, hreg, hresult⟩ := not_not.mp hno
    cases result with
    | err =>
      show ¬ Served encode ((wrote encode registry .err).run p).1
      rw [run_wrote_err registry hsending]
      -- the slice of the write that failed is still unread
      have hunread : p.writeBuffer.unread ≠ [] := by
        rintro hnil
        rw [hnil] at hslice
        exact hne (List.prefix_nil.mp hslice)
      exact not_served_of_ends hch hflag hreg hunread (getNext_cases registry h.books.valid _)
    | ok n =>
      obtain ⟨iobuf', hsending', hall, hpart⟩ := hresult
      cases hsending.symm.trans hsending'
      show ¬ Served encode ((wrote encode registry (.ok n)).run p).1
      have hlen : 0 < iobuf.length := List.length_pos_iff.mpr hne
      have hmin : min n iobuf.length = iobuf.length := min_eq_right hall
      rw [run_wrote_ok registry n h.books.valid hsending hslice, hmin, if_neg hlen.ne', if_pos rfl]
      have htaken := h.books.taken hslice (le_refl iobuf.length)
      have hunread := taken_unread h.books.valid iobuf iobuf.length
      -- behind the slice there are bytes that nobody comes back for
      have hrest : (p.taken iobuf iobuf.length).writeBuffer.unread ≠ [] := by
        rw [hunread, Ne, List.drop_eq_nil_iff]
        omega
      exact not_served_of_ends (p := p.taken iobuf iobuf.length) hch hflag hreg hrest
        (getNext_cases registry htaken.valid _)

/-! ## Runs -/

/-- **Pending output keeps the peer registered.** In every interleaving of sends and writable
events, with any results of the writes, the peer is served after every call exactly if no
event gives up and every registration for writing that is needed succeeds. -/
theorem served_run_iff (encode : Message → Bytes) (outgoing : Bool)
    {inputs : List (Input Message)}
    (hinputs : Guarded (step encode) Enabled (new outgoing) inputs) :
    (∀ pre, pre <+: inputs → Served encode (run (step encode) (new outgoing) pre)) ↔
      Guarded (step encode) StepOk (new outgoing) inputs := by
  have hgood : ∀ p : Peer Message, Inv encode p → Served encode p := fun p h => h.served
  have hstep : ∀ (p : Peer Message) input, Inv encode p → p.Enabled input → p.StepOk input →
      Inv encode (p.step encode input) := fun p input h hen hok => h.step hen hok
  have hbad : ∀ (p : Peer Message) input, Inv encode p → p.Enabled input → ¬ p.StepOk input →
      ¬ Served encode (p.step encode input) := fun p input h hen hno => h.not_served hen hno
  exact forall_prefix_iff_guarded_of_valid hgood hstep hbad (Inv.new encode outgoing) hinputs

/-- A message that is written in two parts, after a write that took nothing. -/
theorem served_run_iff_parts :
    Guarded (step id) StepOk (new false)
        [Input.send [7, 8, 9] true, .writable true, .wrote (.ok 0) true, .wrote (.ok 2) true,
          .wrote (.ok 5) true] ∧
      ∀ pre, pre <+: [Input.send [7, 8, 9] true, .writable true, .wrote (.ok 0) true,
          .wrote (.ok 2) true, .wrote (.ok 5) true] →
        Served id (run (step id) (new false) pre) := by
  have hinputs : Guarded (step id) Enabled (new false)
      [Input.send [7, 8, 9] true, .writable true, .wrote (.ok 0) true, .wrote (.ok 2) true,
        .wrote (.ok 5) true] := by decide
  refine ⟨by decide, (served_run_iff id false hinputs).mpr ?_⟩
  decide

/-- A write that would block, with no other message to fetch: the message stays in the
buffer of a peer that waits for reading only. -/
theorem not_served_of_wouldBlock :
    ¬ Served id (run (step id) (new false)
      [Input.send [7, 8, 9] true, .writable true, .wrote .err true]) := by
  intro h
  have hinterest := h.registered (by decide) (.inl (by decide))
  revert hinterest
  decide

end Peer

end Cashbox.Btc
