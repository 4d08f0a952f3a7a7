import Mathlib.Data.List.Basic

/-!
# Parts of a list

`slice` reads a part of a list and `splice` writes over one. A part that was written is read
back, and a part beside it is read as before. Lists that are cut into blocks of one size are
equal if all their blocks are.
-/

namespace Cashbox.Lib

variable {α : Type} {bytes new more : List α} {pos len start n : Nat}

/-- The part of `len` elements from `pos` on. -/
def slice (bytes : List α) (pos len : Nat) : List α := (bytes.drop pos).take len

/-- The list with `new` written over the part from `pos` on. -/
def splice (bytes : List α) (pos : Nat) (new : List α) : List α :=
  bytes.take pos ++ new ++ bytes.drop (pos + new.length)

/-! ## Lengths -/

theorem length_slice (h : pos + len ≤ bytes.length) : (slice bytes pos len).length = len := by
  unfold slice
  rw [List.length_take, List.length_drop]
  omega

theorem length_splice (h : pos ≤ bytes.length) :
    (splice bytes pos new).length = max bytes.length (pos + new.length) := by
  unfold splice
  simp only [List.length_append, List.length_take, List.length_drop]
  omega

theorem length_splice_of_le (h : pos + new.length ≤ bytes.length) :
    (splice bytes pos new).length = bytes.length := by
  rw [length_splice (by omega)]
  omega

/-! ## Elements -/

theorem getElem?_slice (bytes : List α) (pos len i : Nat) :
    (slice bytes pos len)[i]? = if i < len then bytes[pos + i]? else none := by
  unfold slice
  rw [List.getElem?_take]
  split_ifs
  · rw [List.getElem?_drop]
  · rfl

theorem getElem?_splice (h : pos ≤ bytes.length) (i : Nat) :
    (splice bytes pos new)[i]? =
      if pos ≤ i ∧ i < pos + new.length then new[i - pos]? else bytes[i]? := by
  have hfront : (bytes.take pos).length = pos := by
    rw [List.length_take]
    omega
  unfold splice
  rw [List.append_assoc]
  by_cases hlow : i < pos
  · -- in front of what was written
    rw [if_neg (by omega), List.getElem?_append_left (by omega), List.getElem?_take, if_pos hlow]
  · rw [List.getElem?_append_right (by omega), hfront]
    by_cases hhigh : i < pos + new.length
    · rw [if_pos (by omega), List.getElem?_append_left (by omega)]
    · -- behind it
      rw [if_neg (by omega), List.getElem?_append_right (by omega), List.getElem?_drop]
      congr 1
      omega

/-! ## Reading what was written -/

/-- A part of what was written is read back. -/
theorem slice_splice_within (h : pos ≤ bytes.length) (hn : start + len ≤ new.length) :
    slice (splice bytes pos new) (pos + start) len = slice new start len := by
  apply List.ext_getElem?
  intro i
  rw [getElem?_slice, getElem?_slice]
  split_ifs with hi
  · rw [getElem?_splice h, if_pos (by omega)]
    congr 1
    omega
  · rfl

/-- What was written is read back. -/
theorem slice_splice_self (h : pos ≤ bytes.length) :
    slice (splice bytes pos new) pos new.length = new := by
  have hwithin : slice (splice bytes pos new) (pos + 0) new.length = slice new 0 new.length :=
    slice_splice_within h (by omega)
  rw [Nat.add_zero] at hwithin
  rw [hwithin]
  simp [slice]

/-- A part beside what was written is read as before. -/
theorem slice_splice_of_disjoint (h : pos ≤ bytes.length)
    (hbeside : start + len ≤ pos ∨ pos + new.length ≤ start) :
    slice (splice bytes pos new) start len = slice bytes start len := by
  apply List.ext_getElem?
  intro i
  rw [getElem?_slice, getElem?_slice]
  split_ifs with hi
  · rw [getElem?_splice h, if_neg (by omega)]
  · rfl

/-- A part of a part. -/
theorem slice_slice (h : start + n ≤ len) :
    slice (slice bytes pos len) start n = slice bytes (pos + start) n := by
  apply List.ext_getElem?
  intro i
  rw [getElem?_slice, getElem?_slice bytes (pos + start), Nat.add_assoc]
  split_ifs with hi
  · rw [getElem?_slice, if_pos (by omega)]
  · rfl

/-- Appending does not change a part. -/
theorem slice_append (h : pos + len ≤ bytes.length) :
    slice (bytes ++ more) pos len = slice bytes pos len := by
  unfold slice
  rw [List.drop_append_of_le_length (by omega), List.take_append_of_le_length]
  rw [List.length_drop]
  omega

/-- Two parts that follow each other. -/
theorem slice_add (bytes : List α) (pos m n : Nat) :
    slice bytes pos (m + n) = slice bytes pos m ++ slice bytes (pos + m) n := by
  unfold slice
  rw [List.take_add, List.drop_drop]

/-- The middle one of three lists. -/
theorem slice_mid (front mid back : List α) :
    slice (front ++ mid ++ back) front.length mid.length = mid := by
  unfold slice
  rw [List.append_assoc, List.drop_left, List.take_left]

theorem slice_left (mid back : List α) : slice (mid ++ back) 0 mid.length = mid :=
  slice_mid [] mid back

theorem slice_right (front mid : List α) : slice (front ++ mid) front.length mid.length = mid := by
  have h := slice_mid front mid []
  rwa [List.append_nil] at h

theorem slice_take (h : pos + len ≤ n) : slice (bytes.take n) pos len = slice bytes pos len := by
  apply List.ext_getElem?
  intro i
  rw [getElem?_slice, getElem?_slice]
  split_ifs with hi
  · rw [List.getElem?_take, if_pos (by omega)]
  · rfl

/-! ## Blocks -/

theorem length_flatten_of_forall {blocks : List (List α)} {size : Nat}
    (h : ∀ b ∈ blocks, b.length = size) : blocks.flatten.length = blocks.length * size := by
  induction blocks with
  | nil => simp
  | cons b blocks ih =>
    obtain ⟨hb, hblocks⟩ := List.forall_mem_cons.mp h
    rw [List.flatten_cons, List.length_append, hb, ih hblocks, List.length_cons, Nat.succ_mul,
      Nat.add_comm]

/-- Blocks of one size are read back from their concatenation. -/
theorem slice_flatten {blocks : List (List α)} {size i : Nat} {b : List α}
    (h : ∀ b ∈ blocks, b.length = size) (hi : blocks[i]? = some b) :
    slice blocks.flatten (i * size) size = b := by
  induction blocks generalizing i with
  | nil => cases hi
  | cons first blocks ih =>
    obtain ⟨hfirst, hblocks⟩ := List.forall_mem_cons.mp h
    rw [List.flatten_cons]
    cases i with
    | zero =>
      obtain rfl : first = b := by simpa using hi
      rw [Nat.zero_mul, ← hfirst, slice_left]
    | succ i =>
      have hrest := ih hblocks (by simpa using hi)
      -- the first block is in front of the part
      unfold slice at hrest ⊢
      rw [Nat.succ_mul, Nat.add_comm, ← hfirst, List.drop_length_add_append, hfirst, hrest]

end Cashbox.Lib
