import Cashbox.Lib.Rlp

/-!
# Writing items to a stream

A stream of RLP items with lists that are still open. A list is opened with the
number of its items, and closed when the last of them is appended, or it is
opened without a number and closed by a call. Appending more items than announced
panics, and so does taking the bytes while a list is open.

`Writes m xs` says that a writer appends the items `xs`; a writer of one item `x`
leaves the encoding of `x` on a new stream.
-/

namespace Cashbox.Lib.Rlp

open Cashbox.Lib

/-! ## Streams -/

/-- A list that is not closed yet. -/
structure OpenList where
  /-- The number of items, unless the list is unbounded. -/
  max : Option Nat
  current : Nat
  payload : Bytes
  deriving DecidableEq, Repr

/-- The innermost open list comes first. -/
structure RlpStream where
  unfinished : List OpenList
  buffer : Bytes
  deriving DecidableEq, Repr

namespace RlpStream

variable {ε α : Type}

def new : RlpStream := ⟨[], []⟩

/-- An item is added where the stream stands; a list that is complete now is closed
and added in its turn. -/
def noteAppended (bytes : Bytes) : List OpenList → Bytes → Outcome ε RlpStream
  | [], buffer => .ok ⟨[], buffer ++ bytes⟩
  | l :: ls, buffer =>
    let l' : OpenList := { l with current := l.current + 1, payload := l.payload ++ bytes }
    match l.max with
    -- an unbounded list waits for its closing call
    | none => .ok ⟨l' :: ls, buffer⟩
    | some max =>
      if max < l'.current then .panic .explicit
      else if l'.current = max then noteAppended (frame .list l'.payload) ls buffer
      else .ok ⟨l' :: ls, buffer⟩

/-- `RlpStream::out`: the bytes, when no list is open. -/
def out (s : RlpStream) : Outcome ε Bytes :=
  if s.unfinished = [] then .ok s.buffer else .panic .explicit

/-- `RlpStream::as_raw`: all bytes written, with a place for the prefix of each open
list. -/
def asRaw (s : RlpStream) : Bytes :=
  s.buffer ++ s.unfinished.reverse.flatMap fun l => 0 :: l.payload

end RlpStream

/-! ## Writers -/

/-- A computation that writes to a stream. -/
abbrev RlpWriter (ε α : Type) := StateT RlpStream (Outcome ε) α

section Writers

variable {ε α : Type}

/-- A computation that does not touch the stream. -/
def compute (x : Outcome ε α) : RlpWriter ε α := StateT.lift x

def append (x : Item) : RlpWriter ε Unit := fun s => do
  let s' ← RlpStream.noteAppended x.encode s.unfinished s.buffer
  pure ((), s')

def beginList : Nat → RlpWriter ε Unit
  -- an empty list is complete at once
  | 0 => append (.list [])
  | n + 1 => fun s => pure ((), { s with unfinished := ⟨some (n + 1), 0, []⟩ :: s.unfinished })

def beginUnboundedList : RlpWriter ε Unit := fun s =>
  pure ((), { s with unfinished := ⟨none, 0, []⟩ :: s.unfinished })

def finalizeUnboundedList : RlpWriter ε Unit := fun s =>
  match s.unfinished with
  | [] => .panic .explicit
  | l :: ls =>
    if l.max.isSome then .panic .explicit
    else do
      let s' ← RlpStream.noteAppended (frame .list l.payload) ls s.buffer
      pure ((), s')

/-- The items in a row. -/
def appendAll : List Item → RlpWriter ε Unit
  | [] => pure ()
  | x :: xs => do
    append x
    appendAll xs

/-- What a writer leaves on a new stream. -/
def written (m : RlpWriter ε Unit) : Outcome ε RlpStream := do
  let (_, s) ← m.run RlpStream.new
  pure s

/-! ## Rows of items -/

theorem appendAll_append (xs ys : List Item) :
    (appendAll (xs ++ ys) : RlpWriter ε Unit) = (appendAll xs >>= fun _ => appendAll ys) := by
  induction xs with
  | nil => simp [appendAll]
  | cons x xs ih => simp [appendAll, ih]

theorem run_append (x : Item) (s : RlpStream) :
    (append x : RlpWriter ε Unit).run s =
      (RlpStream.noteAppended x.encode s.unfinished s.buffer >>= fun s' => pure ((), s')) := rfl

theorem run_appendAll_cons (x : Item) (xs : List Item) (s : RlpStream) :
    (appendAll (x :: xs) : RlpWriter ε Unit).run s =
      (RlpStream.noteAppended x.encode s.unfinished s.buffer >>= fun s' =>
        (appendAll xs : RlpWriter ε Unit).run s') := by
  show ((append x >>= fun _ => appendAll xs : RlpWriter ε Unit)).run s = _
  rw [StateT.run_bind, run_append, bind_assoc]
  rfl

/-- The last announced item closes the list. -/
theorem run_appendAll_counted (xs : List Item) (n current : Nat) (payload : Bytes)
    (ls : List OpenList) (buffer : Bytes) (hne : xs ≠ []) (hn : current + xs.length = n) :
    (appendAll xs : RlpWriter ε Unit).run ⟨⟨some n, current, payload⟩ :: ls, buffer⟩ =
      (RlpStream.noteAppended (frame .list (payload ++ encodeAll xs)) ls buffer >>= fun s' =>
        pure ((), s')) := by
  -- the items written so far are the payload of the open list
  induction xs generalizing current payload with
  | nil => exact absurd rfl hne
  | cons x xs ih =>
    rw [List.length_cons] at hn
    rw [run_appendAll_cons, RlpStream.noteAppended]
    dsimp only
    rw [if_neg (by omega)]
    cases xs with
    | nil =>
      rw [List.length_nil] at hn
      rw [if_pos (by omega), encodeAll_cons, encodeAll_nil, List.append_nil]
      rfl
    | cons y ys =>
      -- the list stays open for the items that follow
      rw [if_neg (by rw [List.length_cons] at hn; omega), Outcome.ok_bind,
        ih (current + 1) (payload ++ x.encode) (List.cons_ne_nil y ys) (by omega),
        encodeAll_cons x, List.append_assoc]

/-- An unbounded list takes every item. -/
theorem run_appendAll_unbounded (xs : List Item) (current : Nat) (payload : Bytes)
    (ls : List OpenList) (buffer : Bytes) :
    (appendAll xs : RlpWriter ε Unit).run ⟨⟨none, current, payload⟩ :: ls, buffer⟩ =
      .ok ((), ⟨⟨none, current + xs.length, payload ++ encodeAll xs⟩ :: ls, buffer⟩) := by
  induction xs generalizing current payload with
  | nil =>
    simp only [List.length_nil, Nat.add_zero, encodeAll_nil, List.append_nil]
    rfl
  | cons x xs ih =>
    rw [run_appendAll_cons, RlpStream.noteAppended]
    dsimp only
    rw [Outcome.ok_bind, ih, encodeAll_cons, List.append_assoc, List.length_cons]
    have hcount : current + 1 + xs.length = current + (xs.length + 1) := by omega
    rw [hcount]

/-! ## What a writer writes -/

/-- The writer appends the items. -/
def Writes (m : RlpWriter ε Unit) (xs : List Item) : Prop := m = appendAll xs

theorem Writes.nil : Writes (pure () : RlpWriter ε Unit) [] := rfl

theorem Writes.append (x : Item) : Writes (append x : RlpWriter ε Unit) [x] := by
  show Rlp.append x = (Rlp.append x >>= fun _ => pure ())
  rw [show (fun _ : Unit => (pure () : RlpWriter ε Unit)) = pure from rfl, bind_pure]

theorem Writes.seq {m m' : RlpWriter ε Unit} {xs ys : List Item} (h : Writes m xs)
    (h' : Writes m' ys) : Writes (m >>= fun _ => m') (xs ++ ys) := by
  subst h h'
  exact (appendAll_append xs ys).symm

/-- One item first. -/
theorem Writes.cons (x : Item) {m : RlpWriter ε Unit} {xs : List Item} (h : Writes m xs) :
    Writes (Rlp.append x >>= fun _ => m) (x :: xs) := (Writes.append x).seq h

/-- A list that announces as many items as are written is one item. -/
theorem Writes.list {m : RlpWriter ε Unit} {xs : List Item} {n : Nat} (h : Writes m xs)
    (hn : xs.length = n) : Writes (beginList n >>= fun _ => m) [.list xs] := by
  subst h hn
  apply Eq.trans _ (Writes.append (.list xs))
  cases xs with
  | nil =>
    show (Rlp.append (.list []) >>= fun _ => pure ()) = Rlp.append (.list [])
    rw [show (fun _ : Unit => (pure () : RlpWriter ε Unit)) = pure from rfl, bind_pure]
  | cons x xs =>
    -- the list is opened on the stream, filled, and closed by its last item
    funext s
    show (appendAll (x :: xs) : RlpWriter ε Unit).run
      ⟨⟨some (x :: xs).length, 0, []⟩ :: s.unfinished, s.buffer⟩ = _
    rw [run_appendAll_counted (x :: xs) _ 0 [] _ _ (List.cons_ne_nil x xs) (Nat.zero_add _),
      List.nil_append, ← encode_list]
    rfl

/-- A list that is closed by a call is one item, too. -/
theorem Writes.unboundedList {m : RlpWriter ε Unit} {xs : List Item} (h : Writes m xs) :
    Writes (beginUnboundedList >>= fun _ => m >>= fun _ => finalizeUnboundedList) [.list xs] := by
  subst h
  apply Eq.trans _ (Writes.append (.list xs))
  funext s
  show ((appendAll xs >>= fun _ => finalizeUnboundedList : RlpWriter ε Unit)).run
    ⟨⟨none, 0, []⟩ :: s.unfinished, s.buffer⟩ = _
  rw [StateT.run_bind, run_appendAll_unbounded, Outcome.ok_bind, List.nil_append]
  show (RlpStream.noteAppended (frame .list (encodeAll xs)) _ _ >>= fun s' => pure ((), s')) = _
  rw [← encode_list]
  rfl

/-- A loop writes the items of its rounds. -/
theorem Writes.forM {β : Type} {f : β → RlpWriter ε Unit} {g : β → Item} (bs : List β)
    (h : ∀ b ∈ bs, Writes (f b) [g b]) : Writes (bs.forM f) (bs.map g) := by
  induction bs with
  | nil => exact Writes.nil
  | cons b bs ih =>
    show Writes (f b >>= fun _ => bs.forM f) ([g b] ++ bs.map g)
    apply (h b List.mem_cons_self).seq
    exact ih fun b' hb' => h b' (List.mem_cons_of_mem b hb')

theorem Writes.compute {x : Outcome ε α} {a : α} {f : α → RlpWriter ε Unit} {xs : List Item}
    (hx : x = .ok a) (h : Writes (f a) xs) : Writes (compute x >>= f) xs := by
  subst hx
  exact h

/-- One item on a new stream leaves its encoding. -/
theorem Writes.written {m : RlpWriter ε Unit} {x : Item} (h : Writes m [x]) :
    written m = .ok ⟨[], x.encode⟩ := by
  rw [h, ← Writes.append x]
  rfl

end Writers

end Cashbox.Lib.Rlp
