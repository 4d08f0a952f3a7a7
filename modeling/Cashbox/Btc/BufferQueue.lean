import Cashbox.Lib.Queue
import Cashbox.Lib.Simulation
import Cashbox.Btc.Buffer
import Cashbox.Btc.Consensus

/-!
# The buffer is a queue with a checkpoint

The operations of `Buffer` as the code computes them, where an index may be out of bounds, a
subtraction below zero and a loop without end. In a valid buffer none of this happens: two
cursors into the chunks, which are only appended to and dropped from the front, do what a
position and a checkpoint in one list of bytes do.
-/

namespace Cashbox.Btc

open Cashbox.Lib

namespace Buffer

/-! ## The operations, with their panics -/

/-- The loop that `read_ahead`, `advance` and `read_advance` share: until `len` bytes are
collected or the last chunk is read. -/
def collect (chunks : List Bytes) (len : Nat) :
    Nat → Nat × Nat → Bytes → Outcome ErrorKind ((Nat × Nat) × Bytes)
  | fuel, (chunk, offset), got =>
    if got.length < len then
      match fuel with
      | 0 => .panic .loopBound
      | fuel + 1 =>
        match chunks[chunk]? with
        | none => .panic .indexOutOfBounds
        | some current => do
          let missing ← checkedSub len got.length
          let left ← checkedSub current.length offset
          let available := min missing left
          let got := got ++ (current.drop offset).take available
          -- if the current chunk was wholly read
          if offset + available = current.length then
            let last ← checkedSub chunks.length 1
            if chunk < last then collect chunks len fuel (chunk + 1, 0) got
            else return ((chunk, offset + available), got)
          else collect chunks len fuel (chunk, offset + available) got
    else .ok ((chunk, offset), got)

/-- `len`, with its subtraction. -/
def tryLen (b : Buffer) : Outcome ErrorKind Nat :=
  checkedSub ((b.chunks.drop b.pos.1).map List.length).sum b.pos.2

/-- `commit`: `drain` panics when its range ends after the chunks. -/
def tryCommit (b : Buffer) : Outcome ErrorKind Buffer :=
  if b.pos.1 ≤ b.chunks.length then .ok b.commit else .panic .indexOutOfBounds

/-- Read without advancing position: a subsequent read delivers the same data again. -/
def readAhead (len : Nat) (b : Buffer) : Outcome ErrorKind Bytes :=
  if b.chunks.length = 0 then .ok []
  else do
    let (_, got) ← collect b.chunks len b.chunks.length b.pos []
    return got

/-- Advance position by `len`; a buffer without chunks is indexed, too. -/
def advance (len : Nat) (b : Buffer) : Outcome ErrorKind (Buffer × Nat) := do
  let (pos, got) ← collect b.chunks len b.chunks.length b.pos []
  return ({ b with pos := pos }, got.length)

/-- `read`: read and advance position in one step. -/
def tryRead (len : Nat) (b : Buffer) : Outcome ErrorKind (Buffer × Bytes) :=
  if b.chunks.length = 0 then .ok (b, [])
  else do
    let (pos, got) ← collect b.chunks len b.chunks.length b.pos []
    return ({ b with pos := pos }, got)

/-! ## The loop -/

theorem collect_done {chunks : List Bytes} {len : Nat} {got : Bytes} (hlen : len ≤ got.length)
    (fuel : Nat) (pos : Nat × Nat) : collect chunks len fuel pos got = .ok (pos, got) := by
  obtain ⟨chunk, offset⟩ := pos
  rw [collect.eq_def]
  exact if_neg (Nat.not_lt.mpr hlen)

/-- With one round for every chunk left, the loop computes what the loop over those chunks
does. -/
theorem collect_eq {chunks : List Bytes} {current : Bytes} {rest : List Bytes} {chunk offset : Nat}
    {got : Bytes} {len fuel : Nat} (hdrop : chunks.drop chunk = current :: rest)
    (hle : offset ≤ current.length) (hfuel : rest.length < fuel) :
    collect chunks len fuel (chunk, offset) got =
      .ok ((readLoop (current :: rest) (chunk, offset) (len - got.length)).2,
        got ++ (readLoop (current :: rest) (chunk, offset) (len - got.length)).1) := by
  induction fuel generalizing current rest chunk offset got with
  | zero => omega
  | succ fuel ih =>
    rcases Nat.lt_or_ge got.length len with hlt | hge
    · have hget : chunks[chunk]? = some current := by
        rw [← List.head?_drop, hdrop, List.head?_cons]
      have hlength : chunks.length = chunk + rest.length + 1 := by
        have hcount := congrArg List.length hdrop
        rw [List.length_drop, List.length_cons] at hcount
        omega
      rw [collect.eq_def]
      simp only [hlt, if_true, hget, checkedSub_of_le hlt.le, checkedSub_of_le hle, Outcome.ok_bind,
        checkedSub_of_le (by omega : 1 ≤ chunks.length)]
      rcases Nat.lt_or_ge (offset + (len - got.length)) current.length with hin | hout
      · -- what is missing lies in the current chunk
        have havail : min (len - got.length) (current.length - offset) = len - got.length := by
          omega
        have htaken : ((current.drop offset).take (len - got.length)).length =
            len - got.length := by
          rw [List.length_take, List.length_drop]
          omega
        rw [havail, if_neg (by omega), readLoop_inside hin]
        apply collect_done
        rw [List.length_append, htaken]
        omega
      · -- the current chunk is wholly read
        have havail : min (len - got.length) (current.length - offset) =
            current.length - offset := by
          omega
        have hall : (current.drop offset).take (current.length - offset) = current.drop offset :=
          List.take_of_length_le (by rw [List.length_drop])
        have hend : offset + (current.length - offset) = current.length := by omega
        rw [havail, if_pos hend, hall]
        cases rest with
        | nil =>
          rw [readLoop_last (by omega) hle hout, hend, if_neg (by simp at hlength; omega)]
          rfl
        | cons next rest =>
          rw [readLoop_next (by omega) hle hout, if_pos (by simp at hlength; omega)]
          have hnext : chunks.drop (chunk + 1) = next :: rest := by
            rw [← List.tail_drop, hdrop, List.tail_cons]
          rw [ih hnext (Nat.zero_le _) (by simpa using hfuel)]
          simp only [List.length_append, List.length_drop, List.append_assoc, Nat.sub_sub]
    · -- enough was read before
      have hzero : len - got.length = 0 := by omega
      rw [collect_done hge, hzero, readLoop_zero, List.append_nil]

variable {b : Buffer}

/-- In a valid buffer with chunks the loop reads as `readAdvance` does. -/
theorem Valid.collect (h : b.Valid) (hsome : b.chunks.length ≠ 0) (len : Nat) :
    collect b.chunks len b.chunks.length b.pos [] =
      .ok ((b.readAdvance len).1.pos, (b.readAdvance len).2) := by
  rcases h.pos.cases with ⟨hnil, _⟩ | ⟨current, rest, hdrop, _, hle⟩
  · exact absurd (by rw [hnil]; rfl) hsome
  · have hfuel : rest.length < b.chunks.length := by
      have hcount := congrArg List.length hdrop
      rw [List.length_drop, List.length_cons] at hcount
      omega
    rw [Buffer.readAdvance, if_neg hsome, hdrop]
    exact collect_eq hdrop hle hfuel

/-! ## No operation panics -/

theorem Valid.tryLen (h : b.Valid) : b.tryLen = .ok b.unread.length := by
  have hle : b.pos.2 ≤ ((b.chunks.drop b.pos.1).map List.length).sum := by
    rcases h.pos.cases with ⟨hnil, hzero⟩ | ⟨current, rest, hdrop, _, hle⟩
    · rw [hzero]
      exact Nat.zero_le _
    · rw [hdrop, List.map_cons, List.sum_cons]
      omega
  rw [Buffer.tryLen, checkedSub_of_le hle, ← len_eq, Buffer.len]

theorem Valid.tryCommit (h : b.Valid) : b.tryCommit = .ok b.commit := by
  apply if_pos
  rcases h.pos.cases with ⟨_, hzero⟩ | ⟨current, rest, _, hget, _⟩
  · rw [hzero]
    exact Nat.zero_le _
  · exact (List.getElem?_eq_some_iff.mp hget).1.le

theorem Valid.tryRead (h : b.Valid) (len : Nat) : b.tryRead len = .ok (b.readAdvance len) := by
  unfold Buffer.tryRead
  split_ifs with hempty
  · rw [Buffer.readAdvance, if_pos hempty]
  · rw [h.collect hempty]
    show Outcome.ok ({ b with pos := (b.readAdvance len).1.pos }, (b.readAdvance len).2) = _
    unfold Buffer.readAdvance
    rw [if_neg hempty]

theorem Valid.readAhead (h : b.Valid) (len : Nat) : b.readAhead len = .ok (b.unread.take len) := by
  obtain ⟨_, hgot, _⟩ := h.readAdvance len
  unfold Buffer.readAhead
  split_ifs with hempty
  · rw [← hgot, Buffer.readAdvance, if_pos hempty]
  · rw [h.collect hempty, ← hgot]
    rfl

/-- Skipping no more than there is does what a read does. -/
theorem Valid.advance (h : b.Valid) {len : Nat} (hlen : len ≤ b.unread.length) :
    b.advance len = .ok ((b.readAdvance len).1, len) := by
  obtain ⟨_, hgot, _⟩ := h.readAdvance len
  unfold Buffer.advance
  by_cases hempty : b.chunks.length = 0
  · -- nothing to skip
    have hnone : b.unread = [] := by
      rw [unread, contentFrom, List.length_eq_zero_iff.mp hempty]
      simp
    obtain rfl : len = 0 := by simpa [hnone] using hlen
    rw [collect_done (Nat.zero_le _), Buffer.readAdvance, if_pos hempty]
    rfl
  · rw [h.collect hempty, hgot]
    show Outcome.ok ({ b with pos := (b.readAdvance len).1.pos }, (b.unread.take len).length) = _
    rw [List.length_take, Nat.min_eq_left hlen]
    unfold Buffer.readAdvance
    rw [if_neg hempty]

/-! ## Refinement -/

/-- The buffer as a machine: each operation with what it answers. -/
def exec (b : Buffer) : Queue.Op UInt8 → Outcome ErrorKind (Buffer × Queue.Answer UInt8)
  | .write bytes => .ok (b.write bytes, .count bytes.length)
  | .read n => do
    let (b, got) ← b.tryRead n
    return (b, .items got)
  | .readAhead n => do
    let got ← b.readAhead n
    return (b, .items got)
  | .advance n => do
    let (b, have_) ← b.advance n
    return (b, .count have_)
  | .commit => do
    let b ← b.tryCommit
    return (b, .done)
  | .rollback => .ok (b.rollback, .done)
  | .len => do
    let n ← b.tryLen
    return (b, .count n)

/-- The buffer holds what the queue has from the checkpoint on, and stands at its position. -/
structure Refines (b : Buffer) (q : Queue UInt8) : Prop where
  valid : b.Valid
  unread : b.unread = q.unread
  uncommitted : b.uncommitted = q.uncommitted

theorem refines_new : new.Refines Queue.empty := ⟨valid_new, rfl, rfl⟩

/-- One operation: it does not panic, and answers as the queue does. -/
theorem Refines.exec {q : Queue UInt8} (h : b.Refines q) {op : Queue.Op UInt8}
    (hop : q.Allowed op) :
    ∃ b', b.exec op = .ok (b', (q.exec op).2) ∧ b'.Refines (q.exec op).1 := by
  obtain ⟨hvalid, hunread, huncommitted⟩ := h
  cases op with
  | write bytes =>
    obtain ⟨hvalid', hunread', huncommitted'⟩ := hvalid.write bytes
    refine ⟨_, rfl, hvalid', ?_, ?_⟩
    · rw [hunread', hunread]
      exact Queue.unread_write bytes |>.symm
    · rw [huncommitted', huncommitted]
      exact Queue.uncommitted_write bytes |>.symm
  | read n =>
    obtain ⟨hvalid', hgot, hunread', huncommitted'⟩ := hvalid.readAdvance n
    refine ⟨(b.readAdvance n).1, ?_, hvalid', ?_, huncommitted'.trans huncommitted⟩
    · simp only [Buffer.exec, hvalid.tryRead, Outcome.ok_bind, hgot, hunread, Queue.exec,
        Outcome.pure_eq_ok]
    · rw [hunread', hunread]
      exact Queue.unread_advance n |>.symm
  | readAhead n =>
    refine ⟨b, ?_, hvalid, hunread, huncommitted⟩
    simp only [Buffer.exec, hvalid.readAhead, Outcome.ok_bind, hunread, Queue.exec,
      Outcome.pure_eq_ok]
  | advance n =>
    obtain ⟨hvalid', _, hunread', huncommitted'⟩ := hvalid.readAdvance n
    have hle : n ≤ b.unread.length := hunread ▸ hop
    refine ⟨(b.readAdvance n).1, ?_, hvalid', ?_, huncommitted'.trans huncommitted⟩
    · simp only [Buffer.exec, hvalid.advance hle, Outcome.ok_bind, Queue.exec, Outcome.pure_eq_ok]
    · rw [hunread', hunread]
      exact Queue.unread_advance n |>.symm
  | commit =>
    refine ⟨b.commit, ?_, hvalid.commit, hunread, hunread⟩
    simp only [Buffer.exec, hvalid.tryCommit, Outcome.ok_bind, Queue.exec, Outcome.pure_eq_ok]
  | rollback => exact ⟨_, rfl, hvalid.rollback, huncommitted, huncommitted⟩
  | len =>
    refine ⟨b, ?_, hvalid, hunread, huncommitted⟩
    simp only [Buffer.exec, hvalid.tryLen, Outcome.ok_bind, hunread, Queue.exec,
      Outcome.pure_eq_ok]

/-- **The buffer is a queue with a checkpoint.** Over every sequence of operations that
skips no more than there is, nothing panics, every answer is that of the queue, and at the
end the buffer holds what the queue holds. -/
theorem tryRun_exec {ops : List (Queue.Op UInt8)}
    (hops : Guarded (fun q op => (q.exec op).1) Queue.Allowed Queue.empty ops) :
    ∃ b, tryRun exec new ops = .ok (b, answers Queue.exec Queue.empty ops) ∧
      b.Refines (run (fun q op => (q.exec op).1) Queue.empty ops) :=
  tryRun_of_simulates (fun _ _ _ hrel hop => hrel.exec hop) refines_new hops

/-- Two writes, a read over both of them that is rolled back, and a commit. -/
theorem tryRun_exec_rollback :
    ∃ b, tryRun exec new [.write [1, 2], .commit, .write [3], .read 5, .rollback, .advance 1,
        .commit, .readAhead 7, .len] =
        .ok (b, [.count 2, .done, .count 1, .items [1, 2, 3], .done, .count 1, .done,
          .items [2, 3], .count 2]) := by
  have hops : Guarded (fun (q : Queue UInt8) op => (q.exec op).1) Queue.Allowed Queue.empty
      [.write [1, 2], .commit, .write [3], .read 5, .rollback, .advance 1, .commit,
        .readAhead 7, .len] := by decide
  obtain ⟨b, hrun, _⟩ := tryRun_exec hops
  exact ⟨b, hrun⟩

end Buffer

end Cashbox.Btc
