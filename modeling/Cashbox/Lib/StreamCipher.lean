import Cashbox.Lib.Bytes
import Cashbox.Lib.Outcome

/-!
# Stream ciphers

A stream cipher adds its key stream to the data, byte by byte, so that the same key stream
takes it away again. It is driven from a read buffer to a write buffer of some capacity, in
as many rounds as the data takes.
-/

namespace Cashbox.Lib

/-! ## The key stream -/

/-- The data, from a position of the key stream on, with the key stream added. -/
def xorStream (keystream : Nat → UInt8) : Nat → Bytes → Bytes
  | _, [] => []
  | position, b :: data => (b ^^^ keystream position) :: xorStream keystream (position + 1) data

section XorStream

variable {keystream : Nat → UInt8}

@[simp] theorem xorStream_nil (position : Nat) : xorStream keystream position [] = [] := rfl

@[simp] theorem xorStream_cons (position : Nat) (b : UInt8) (data : Bytes) :
    xorStream keystream position (b :: data) =
      (b ^^^ keystream position) :: xorStream keystream (position + 1) data := rfl

@[simp] theorem length_xorStream (position : Nat) (data : Bytes) :
    (xorStream keystream position data).length = data.length := by
  induction data generalizing position with
  | nil => rfl
  | cons b data ih => rw [xorStream_cons, List.length_cons, ih, List.length_cons]

theorem xorStream_append (position : Nat) (data data' : Bytes) :
    xorStream keystream position (data ++ data') =
      xorStream keystream position data ++
        xorStream keystream (position + data.length) data' := by
  induction data generalizing position with
  | nil => rfl
  | cons b data ih =>
    rw [List.cons_append, xorStream_cons, ih, xorStream_cons, List.cons_append,
      List.length_cons, Nat.add_right_comm, Nat.add_assoc position]

/-- A key stream takes itself away. -/
theorem xorStream_xorStream (position : Nat) (data : Bytes) :
    xorStream keystream position (xorStream keystream position data) = data := by
  induction data generalizing position with
  | nil => rfl
  | cons b data ih =>
    rw [xorStream_cons, xorStream_cons, ih, UInt8.xor_assoc, UInt8.xor_self, UInt8.xor_zero]

end XorStream

/-! ## Buffers -/

/-- Why a call came to an end: there is no more input, or no more room. -/
inductive BufferResult where
  | bufferUnderflow
  | bufferOverflow
  deriving DecidableEq, Repr

/-- A cipher and the read buffer it is driven from. -/
structure CipherState where
  /-- The bytes of the key stream that are used up. -/
  position : Nat
  remaining : Bytes

/-- One call with an empty write buffer: it takes as many bytes as the buffers allow. The bytes
that are written are returned, too. -/
def processBuffer (keystream : Nat → UInt8) (capacity : Nat) (s : CipherState) :
    BufferResult × Bytes × CipherState :=
  let count := min s.remaining.length capacity
  let written := xorStream keystream s.position (s.remaining.take count)
  let rest := s.remaining.drop count
  (if rest = [] then .bufferUnderflow else .bufferOverflow, written, ⟨s.position + count, rest⟩)

/-- The loop that empties the write buffer after each call, until there is no more input. -/
def processAll {ε : Type} (keystream : Nat → UInt8) (capacity : Nat) :
    Nat → CipherState → Bytes → Outcome ε Bytes
  | 0, _, _ => .panic .loopBound
  | rounds + 1, s, finalResult =>
    let (result, written, s) := processBuffer keystream capacity s
    match result with
    | .bufferUnderflow => .ok (finalResult ++ written)
    | .bufferOverflow => processAll keystream capacity rounds s (finalResult ++ written)

section Buffers

variable {ε : Type} {keystream : Nat → UInt8} {capacity : Nat}

/-- A call to which all of the input fits is the last one. -/
theorem processBuffer_of_le {s : CipherState} (h : s.remaining.length ≤ capacity) :
    processBuffer keystream capacity s =
      (.bufferUnderflow, xorStream keystream s.position s.remaining,
        ⟨s.position + s.remaining.length, []⟩) := by
  unfold processBuffer
  rw [Nat.min_eq_left h]
  simp

/-- Any other call fills the write buffer. -/
theorem processBuffer_of_lt {s : CipherState} (h : capacity < s.remaining.length) :
    processBuffer keystream capacity s =
      (.bufferOverflow, xorStream keystream s.position (s.remaining.take capacity),
        ⟨s.position + capacity, s.remaining.drop capacity⟩) := by
  have hrest : s.remaining.drop capacity ≠ [] := by
    rw [Ne, List.drop_eq_nil_iff]
    omega
  unfold processBuffer
  simp only [Nat.min_eq_right (Nat.le_of_lt h), if_neg hrest]

/-- **The loop ends**, after a round for each full buffer and one more, with the key stream
added to all of the input. -/
theorem processAll_eq (hcapacity : 0 < capacity) {rounds : Nat} {s : CipherState}
    (hrounds : s.remaining.length / capacity < rounds) (finalResult : Bytes) :
    (processAll keystream capacity rounds s finalResult : Outcome ε Bytes) =
      .ok (finalResult ++ xorStream keystream s.position s.remaining) := by
  induction rounds generalizing s finalResult with
  | zero => exact absurd hrounds (Nat.not_lt_zero _)
  | succ rounds ih =>
    rw [processAll]
    by_cases h : s.remaining.length ≤ capacity
    · rw [processBuffer_of_le h]
    · have hlt : capacity < s.remaining.length := Nat.lt_of_not_le h
      -- a full buffer is one round less to go
      have hless : (s.remaining.drop capacity).length / capacity < rounds := by
        have hdiv := Nat.div_eq_sub_div hcapacity (Nat.le_of_lt hlt)
        rw [List.length_drop]
        omega
      have hsplit : xorStream keystream s.position s.remaining =
          xorStream keystream s.position (s.remaining.take capacity) ++
            xorStream keystream (s.position + capacity) (s.remaining.drop capacity) := by
        conv_lhs => rw [← List.take_append_drop capacity s.remaining]
        rw [xorStream_append, List.length_take, Nat.min_eq_left (Nat.le_of_lt hlt)]
      rw [processBuffer_of_lt hlt, hsplit, ← List.append_assoc]
      exact ih hless _

end Buffers

end Cashbox.Lib
