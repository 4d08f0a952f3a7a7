import Cashbox.Lib.Reader

/-!
# The read buffer

`Buffer` keeps what arrived from a peer in a deque of chunks, with a position to read from
and a checkpoint to roll back to. Whatever the chunks are, it behaves as a string of bytes:
a write appends, a read takes from the front, a rollback brings back what was read since
the last commit.
-/

namespace Cashbox.Btc

open Cashbox.Lib

def ioBufferSize : Nat := 1024 * 1024

/-- A buffer that can be rolled back and re-read from the last commit. -/
structure Buffer where
  /-- a deque of chunks -/
  chunks : List Bytes
  /-- the current chunk, and the position to read next in it -/
  pos : Nat × Nat
  /-- a copy of `pos` at the last checkpoint -/
  checkpoint : Nat × Nat
  deriving DecidableEq, Repr

namespace Buffer

/-! ## The code -/

def new : Buffer := ⟨[], (0, 0), (0, 0)⟩

/-- Not yet consumed length of the buffer. -/
def len (b : Buffer) : Nat := ((b.chunks.drop b.pos.1).map List.length).sum - b.pos.2

/-- Rollback to the last commit. -/
def rollback (b : Buffer) : Buffer := { b with pos := b.checkpoint }

/-- Checkpoint and drop already read content. -/
def commit (b : Buffer) : Buffer :=
  ⟨b.chunks.drop b.pos.1, (0, b.pos.2), (0, b.pos.2)⟩

/-- The loop of a read: `chunks` are the current chunk and those after it, `len` is what
the read still wants. -/
def readLoop : List Bytes → Nat × Nat → Nat → Bytes × (Nat × Nat)
  | [], pos, _ => ([], pos)
  | current :: rest, (chunk, offset), len =>
    if len = 0 then ([], (chunk, offset))
    else
      let available := min len (current.length - offset)
      let got := (current.drop offset).take available
      if offset + available = current.length then
        match rest with
        | [] => (got, (chunk, offset + available))
        | next :: rest =>
          let (more, pos) := readLoop (next :: rest) (chunk + 1, 0) (len - available)
          (got ++ more, pos)
      else (got, (chunk, offset + available))

/-- Read and advance position in one step, up to `len` bytes. -/
def readAdvance (len : Nat) (b : Buffer) : Buffer × Bytes :=
  if b.chunks.length = 0 then (b, [])
  else
    let (got, pos) := readLoop (b.chunks.drop b.pos.1) b.pos len
    ({ b with pos := pos }, got)

def write (bytes : Bytes) (b : Buffer) : Buffer :=
  if 0 < bytes.length then
    match b.chunks.getLast? with
    | some last =>
      if bytes.length + last.length > ioBufferSize then { b with chunks := b.chunks ++ [bytes] }
      else { b with chunks := b.chunks.dropLast ++ [last ++ bytes] }
    | none => { b with chunks := [bytes] }
  else b

/-- The loop of `read_exact`, each round of which reads at least one byte. -/
def readExactLoop : Nat → Nat → Buffer → Buffer × Option Bytes
  | 0, len, b => (b, if len = 0 then some [] else none)
  | fuel + 1, len, b =>
    if len = 0 then (b, some [])
    else
      let (b, got) := b.readAdvance len
      if got = [] then (b, none)
      else
        let (b, more) := readExactLoop fuel (len - got.length) b
        (b, more.map (got ++ ·))

/-- `read_exact` over `read`: `none` when the buffer ends before. -/
def readExact (len : Nat) (b : Buffer) : Buffer × Option Bytes := readExactLoop len len b

/-! ## What it holds -/

/-- The bytes from a position on. -/
def contentFrom (chunks : List Bytes) (pos : Nat × Nat) : Bytes :=
  (chunks.drop pos.1).flatten.drop pos.2

/-- The bytes not yet read. -/
def unread (b : Buffer) : Bytes := contentFrom b.chunks b.pos

/-- The bytes since the last commit, read or not. -/
def uncommitted (b : Buffer) : Bytes := contentFrom b.chunks b.checkpoint

/-- A position in a chunk, or the start of a buffer without chunks. -/
def PosOk (chunks : List Bytes) (pos : Nat × Nat) : Prop :=
  match chunks[pos.1]? with
  | some chunk => pos.2 ≤ chunk.length
  | none => chunks = [] ∧ pos = (0, 0)

/-- Both positions are in the buffer. -/
structure Valid (b : Buffer) : Prop where
  pos : PosOk b.chunks b.pos
  checkpoint : PosOk b.chunks b.checkpoint

variable {chunks : List Bytes} {pos : Nat × Nat} {b : Buffer}

theorem posOk_of_getElem? {chunk : Bytes} (h : chunks[pos.1]? = some chunk) :
    PosOk chunks pos ↔ pos.2 ≤ chunk.length := by
  simp only [PosOk, h]

theorem PosOk.cases (h : PosOk chunks pos) :
    (chunks = [] ∧ pos = (0, 0)) ∨ ∃ current rest,
      chunks.drop pos.1 = current :: rest ∧ chunks[pos.1]? = some current ∧
        pos.2 ≤ current.length := by
  cases hget : chunks[pos.1]? with
  | none =>
    simp only [PosOk, hget] at h
    exact .inl h
  | some current =>
    obtain ⟨hlt, hcur⟩ := List.getElem?_eq_some_iff.mp hget
    refine .inr ⟨current, chunks.drop (pos.1 + 1), ?_, rfl, (posOk_of_getElem? hget).mp h⟩
    rw [List.drop_eq_getElem_cons hlt, hcur]

theorem valid_new : Valid new := ⟨⟨rfl, rfl⟩, ⟨rfl, rfl⟩⟩

@[simp] theorem unread_new : unread new = [] := rfl

/-- The length of the buffer is that of what was not read. -/
theorem len_eq (b : Buffer) : b.len = b.unread.length := by
  rw [len, unread, contentFrom, List.length_drop, List.length_flatten]

@[simp] theorem unread_rollback (b : Buffer) : b.rollback.unread = b.uncommitted := rfl

@[simp] theorem uncommitted_rollback (b : Buffer) : b.rollback.uncommitted = b.uncommitted := rfl

theorem Valid.rollback (h : b.Valid) : b.rollback.Valid := ⟨h.checkpoint, h.checkpoint⟩

@[simp] theorem unread_commit (b : Buffer) : b.commit.unread = b.unread := rfl

@[simp] theorem uncommitted_commit (b : Buffer) : b.commit.uncommitted = b.unread := rfl

theorem Valid.commit (h : b.Valid) : b.commit.Valid := by
  have hpos : PosOk (b.chunks.drop b.pos.1) (0, b.pos.2) := by
    rcases h.pos.cases with ⟨hnil, hzero⟩ | ⟨current, rest, hdrop, _, hle⟩
    · rw [hnil, hzero]
      exact ⟨rfl, rfl⟩
    · rw [hdrop]
      exact hle
  exact ⟨hpos, hpos⟩

/-! ## Writes -/

/-- Bytes added to the last chunk, or in a chunk after it, come after what was there. -/
theorem contentFrom_write {chunks' : List Bytes} {bytes : Bytes} (h : PosOk chunks pos)
    (hchunks : chunks' = chunks ++ [bytes] ∨
      ∃ front last, chunks = front ++ [last] ∧ chunks' = front ++ [last ++ bytes]) :
    PosOk chunks' pos ∧ contentFrom chunks' pos = contentFrom chunks pos ++ bytes := by
  rcases h.cases with ⟨hnil, hzero⟩ | ⟨current, rest, hdrop, hget, hle⟩
  · subst hzero
    rcases hchunks with rfl | ⟨front, last, hsplit, _⟩
    · rw [hnil]
      exact ⟨Nat.zero_le _, by simp [contentFrom]⟩
    · simp [hnil] at hsplit
  · obtain ⟨hlt, _⟩ := List.getElem?_eq_some_iff.mp hget
    have hin : pos.2 ≤ (chunks.drop pos.1).flatten.length := by
      rw [hdrop, List.flatten_cons, List.length_append]
      omega
    rcases hchunks with rfl | ⟨front, last, rfl, rfl⟩
    · refine ⟨?_, ?_⟩
      · rw [posOk_of_getElem? (by rw [List.getElem?_append_left hlt, hget])]
        exact hle
      · rw [contentFrom, List.drop_append_of_le_length (Nat.le_of_lt hlt), List.flatten_append,
          List.drop_append_of_le_length hin, List.flatten_singleton, contentFrom]
    · -- the position is in the last chunk or before it
      rw [List.length_append, List.length_singleton] at hlt
      have hfront : pos.1 ≤ front.length := by omega
      refine ⟨?_, ?_⟩
      · rcases Nat.lt_or_ge pos.1 front.length with hbefore | hlast
        · rw [List.getElem?_append_left hbefore] at hget
          rw [posOk_of_getElem? (by rw [List.getElem?_append_left hbefore, hget])]
          exact hle
        · have hpos : pos.1 = front.length := by omega
          rw [hpos, List.getElem?_concat_length] at hget
          have hcur : last = current := Option.some.inj hget
          rw [posOk_of_getElem? (by rw [hpos, List.getElem?_concat_length] :
            (front ++ [last ++ bytes])[pos.1]? = some (last ++ bytes)), List.length_append, hcur]
          omega
      · rw [List.drop_append_of_le_length hfront] at hin
        rw [contentFrom, contentFrom, List.drop_append_of_le_length hfront,
          List.drop_append_of_le_length hfront, ← List.drop_append_of_le_length hin]
        simp

theorem write_chunks (bytes : Bytes) (b : Buffer) :
    b.write bytes = b ∧ bytes = [] ∨ ∃ chunks',
      b.write bytes = { b with chunks := chunks' } ∧
        (chunks' = b.chunks ++ [bytes] ∨
          ∃ front last, b.chunks = front ++ [last] ∧ chunks' = front ++ [last ++ bytes]) := by
  unfold write
  split_ifs with hbytes
  · right
    cases hlast : b.chunks.getLast? with
    | none =>
      have hnil : b.chunks = [] := List.getLast?_eq_none_iff.mp hlast
      exact ⟨_, rfl, .inl (by rw [hnil]; rfl)⟩
    | some last =>
      dsimp only
      split_ifs with hsize
      · exact ⟨_, rfl, .inl rfl⟩
      · exact ⟨_, rfl, .inr ⟨_, _, (List.dropLast_append_getLast? _ hlast).symm, rfl⟩⟩
  · exact .inl ⟨rfl, List.length_eq_zero_iff.mp (by omega)⟩

/-- **A write** appends to what the buffer holds. -/
theorem Valid.write (h : b.Valid) (bytes : Bytes) :
    (b.write bytes).Valid ∧ (b.write bytes).unread = b.unread ++ bytes ∧
      (b.write bytes).uncommitted = b.uncommitted ++ bytes := by
  rcases write_chunks bytes b with ⟨hsame, rfl⟩ | ⟨chunks', hwrite, hchunks⟩
  · rw [hsame]
    exact ⟨h, (List.append_nil _).symm, (List.append_nil _).symm⟩
  · rw [hwrite]
    obtain ⟨hpos, hunread⟩ := contentFrom_write h.pos hchunks
    obtain ⟨hcheck, huncommitted⟩ := contentFrom_write h.checkpoint hchunks
    exact ⟨⟨hpos, hcheck⟩, hunread, huncommitted⟩

/-! ## Reads -/

section Loop

variable {current next : Bytes} {rest : List Bytes} {chunk offset len : Nat}

theorem readLoop_zero : readLoop (current :: rest) (chunk, offset) 0 = ([], (chunk, offset)) := by
  rw [readLoop, if_pos rfl]

/-- The read ends in the current chunk. -/
theorem readLoop_inside (hlt : offset + len < current.length) :
    readLoop (current :: rest) (chunk, offset) len =
      ((current.drop offset).take len, (chunk, offset + len)) := by
  rcases Nat.eq_zero_or_pos len with rfl | hpos
  · rw [readLoop_zero, List.take_zero]
    rfl
  · have havail : min len (current.length - offset) = len := by omega
    rw [readLoop, if_neg (by omega), havail]
    exact if_neg (by omega)

/-- The read takes the rest of the last chunk. -/
theorem readLoop_last (hlen : 0 < len) (hle : offset ≤ current.length)
    (hge : current.length ≤ offset + len) :
    readLoop [current] (chunk, offset) len = (current.drop offset, (chunk, current.length)) := by
  have havail : min len (current.length - offset) = current.length - offset := by omega
  have hend : offset + (current.length - offset) = current.length := by omega
  rw [readLoop, if_neg (by omega), havail, if_pos hend,
    List.take_of_length_le (by rw [List.length_drop]), hend]

/-- The read takes the rest of the current chunk and goes on in the next. -/
theorem readLoop_next (hlen : 0 < len) (hle : offset ≤ current.length)
    (hge : current.length ≤ offset + len) :
    readLoop (current :: next :: rest) (chunk, offset) len =
      (current.drop offset ++
          (readLoop (next :: rest) (chunk + 1, 0) (len - (current.length - offset))).1,
        (readLoop (next :: rest) (chunk + 1, 0) (len - (current.length - offset))).2) := by
  have havail : min len (current.length - offset) = current.length - offset := by omega
  have hend : offset + (current.length - offset) = current.length := by omega
  rw [readLoop, if_neg (by omega), havail, if_pos hend,
    List.take_of_length_le (by rw [List.length_drop])]

/-- The loop takes from the front of what the chunks hold from the position on, and its
new position is in one of them. -/
theorem readLoop_spec (hle : offset ≤ current.length) :
    (readLoop (current :: rest) (chunk, offset) len).1 =
        ((current :: rest).flatten.drop offset).take len ∧
      ∃ n skipped kept, (readLoop (current :: rest) (chunk, offset) len).2 = (chunk + n, skipped) ∧
        (current :: rest)[n]? = some kept ∧ skipped ≤ kept.length ∧
        ((current :: rest).drop n).flatten.drop skipped =
          ((current :: rest).flatten.drop offset).drop len := by
  -- on the chunks that are left, of which the offset concerns the first only
  induction rest generalizing current chunk offset len with
  | nil =>
    -- the read ends in the last chunk
    rcases Nat.lt_or_ge (offset + len) current.length with hlt | hge
    · rw [readLoop_inside hlt]
      exact ⟨by simp, 0, offset + len, current, rfl, rfl, by omega, by simp⟩
    · rcases Nat.eq_zero_or_pos len with rfl | hlen
      · rw [readLoop_zero]
        exact ⟨by simp, 0, offset, current, rfl, rfl, hle, by simp⟩
      · -- it wants more than there is
        rw [readLoop_last hlen hle hge]
        refine ⟨?_, 0, current.length, current, rfl, rfl, Nat.le_refl _, ?_⟩
        · rw [List.flatten_singleton, List.take_of_length_le (by rw [List.length_drop]; omega)]
        · rw [List.drop_zero, List.flatten_singleton, List.drop_drop, List.drop_length,
            List.drop_eq_nil_of_le hge]
  | cons next rest ih =>
    rcases Nat.lt_or_ge (offset + len) current.length with hlt | hge
    · rw [readLoop_inside hlt]
      refine ⟨?_, 0, offset + len, current, rfl, rfl, by omega, by simp⟩
      rw [List.flatten_cons, List.drop_append_of_le_length hle,
        List.take_append_of_le_length (by rw [List.length_drop]; omega)]
    · rcases Nat.eq_zero_or_pos len with rfl | hlen
      · rw [readLoop_zero]
        exact ⟨by simp, 0, offset, current, rfl, rfl, hle, by simp⟩
      · -- the first chunk is used up, and the rest is read from the start of the next
        rw [readLoop_next hlen hle hge]
        obtain ⟨hgot, n, skipped, kept, hpos, hget, hskip, hcontent⟩ :=
          @ih next (chunk + 1) 0 (len - (current.length - offset)) (Nat.zero_le _)
        have hshort : (current.drop offset).length ≤ len := by
          rw [List.length_drop]
          omega
        have hflat : (current :: next :: rest).flatten.drop offset =
            current.drop offset ++ (next :: rest).flatten := by
          rw [List.flatten_cons (l := current), List.drop_append_of_le_length hle]
        rw [hflat]
        refine ⟨?_, n + 1, skipped, kept, ?_, hget, hskip, ?_⟩
        · rw [hgot, List.drop_zero, List.take_append, List.take_of_length_le hshort,
            List.length_drop]
        · rw [hpos]
          congr 1
          omega
        · rw [List.drop_succ_cons, hcontent, List.drop_zero, List.drop_append,
            List.drop_eq_nil_of_le hshort, List.nil_append, List.length_drop]

end Loop

/-- **A read** takes what there is, up to `len` bytes, from the front of what was not
read; a later rollback gives back the same bytes. -/
theorem Valid.readAdvance (h : b.Valid) (len : Nat) :
    (b.readAdvance len).1.Valid ∧ (b.readAdvance len).2 = b.unread.take len ∧
      (b.readAdvance len).1.unread = b.unread.drop len ∧
      (b.readAdvance len).1.uncommitted = b.uncommitted := by
  rcases h.pos.cases with ⟨hnil, hzero⟩ | ⟨current, rest, hdrop, hget, hle⟩
  · have hsame : b.readAdvance len = (b, []) := by
      rw [Buffer.readAdvance, if_pos (by rw [hnil]; rfl)]
    have hempty : b.unread = [] := by
      rw [unread, contentFrom, hnil]
      simp
    rw [hsame, hempty]
    exact ⟨h, by simp, by simp, rfl⟩
  · have hsome : b.chunks.length ≠ 0 := by
      intro hzero
      rw [List.length_eq_zero_iff.mp hzero] at hdrop
      simp at hdrop
    rw [Buffer.readAdvance, if_neg hsome, hdrop]
    obtain ⟨hgot, n, skipped, kept, hpos, hkept, hskip, hcontent⟩ :=
      @readLoop_spec current rest b.pos.1 b.pos.2 len hle
    dsimp only
    have hunread : b.unread = (current :: rest).flatten.drop b.pos.2 := by
      rw [unread, contentFrom, hdrop]
    rw [← hdrop, List.getElem?_drop] at hkept
    rw [← hdrop, List.drop_drop] at hcontent
    refine ⟨⟨?_, h.checkpoint⟩, by rw [hgot, hunread], ?_, rfl⟩
    · rw [hpos, posOk_of_getElem? hkept]
      exact hskip
    · rw [unread, contentFrom, hpos, hcontent, hunread, hdrop]

/-- The loop of `read_exact` takes all it asks for, or fails when there is less. -/
theorem Valid.readExactLoop (h : b.Valid) {fuel len : Nat} (hfuel : len ≤ fuel) :
    (b.readExactLoop fuel len).1.Valid ∧ (b.readExactLoop fuel len).1.uncommitted = b.uncommitted ∧
      (len ≤ b.unread.length → (b.readExactLoop fuel len).2 = some (b.unread.take len) ∧
        (b.readExactLoop fuel len).1.unread = b.unread.drop len) ∧
      (b.unread.length < len → (b.readExactLoop fuel len).2 = none) := by
  induction fuel generalizing b len with
  | zero =>
    have hlen : len = 0 := by omega
    rw [Buffer.readExactLoop, if_pos hlen, hlen]
    exact ⟨h, rfl, fun _ => ⟨rfl, rfl⟩, fun hlt => absurd hlt (Nat.not_lt_zero _)⟩
  | succ fuel ih =>
    rw [Buffer.readExactLoop]
    rcases Nat.eq_zero_or_pos len with rfl | hlen
    · rw [if_pos rfl]
      exact ⟨h, rfl, fun _ => ⟨rfl, rfl⟩, fun hlt => absurd hlt (Nat.not_lt_zero _)⟩
    · rw [if_neg (by omega)]
      obtain ⟨hvalid, hgot, hunread, hkeep⟩ := h.readAdvance len
      rcases hread : b.readAdvance len with ⟨b', got⟩
      rw [hread] at hvalid hgot hunread hkeep
      dsimp only at hvalid hgot hunread hkeep ⊢
      split_ifs with hnil
      · -- nothing was read: the buffer is at its end
        have hempty : b.unread.length = 0 := by
          have hlength := congrArg List.length hgot
          rw [hnil, List.length_take, List.length_nil] at hlength
          omega
        exact ⟨hvalid, hkeep, fun hle => by omega, fun _ => rfl⟩
      · have hpos : 0 < got.length := List.length_pos_iff.mpr hnil
        have hlength : got.length = min len b.unread.length := by rw [hgot, List.length_take]
        obtain ⟨hvalid', hkeep', henough, hshort⟩ :=
          ih hvalid (by omega : len - got.length ≤ fuel)
        rw [hunread, List.length_drop] at henough hshort
        refine ⟨hvalid', hkeep'.trans hkeep, ?_, ?_⟩
        · intro hle
          -- the first round read all
          have hall : len - got.length = 0 := by omega
          obtain ⟨hmore, hrest⟩ := henough (by omega)
          dsimp only
          rw [hmore, hrest, hall, hgot]
          exact ⟨by simp, rfl⟩
        · intro hlt
          dsimp only
          rw [hshort (by omega)]
          rfl

/-- The reads that a decoder makes, since a commit of `bytes`. -/
theorem serves (bytes : Bytes) :
    Reader.Serves readExact unread fun b => b.Valid ∧ b.uncommitted = bytes where
  inv len b h := by
    obtain ⟨hvalid, hkeep, _⟩ := h.1.readExactLoop (Nat.le_refl len)
    exact ⟨hvalid, hkeep.trans h.2⟩
  enough len b h := (h.1.readExactLoop (Nat.le_refl len)).2.2.1
  short len b h := (h.1.readExactLoop (Nat.le_refl len)).2.2.2

end Buffer

end Cashbox.Btc
