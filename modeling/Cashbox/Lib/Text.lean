import Cashbox.Lib.Bytes

/-!
# Text

A Rust `str` as the list of its characters. Positions and lengths count the bytes
of the UTF-8 encoding, so a slice that would cut a character in two does not exist.
-/

namespace Cashbox.Lib

abbrev Text := List Char

-- under a name of its own, so that the definitions that compare texts share one proof
instance : LawfulBEq Text := List.instLawfulBEq

namespace Text

/-- `char::is_whitespace`: the property `White_Space` of Unicode. -/
def isWhitespace (c : Char) : Bool :=
  (9 ≤ c.toNat && c.toNat ≤ 13) || c.toNat = 0x20 || c.toNat = 0x85 || c.toNat = 0xa0 ||
    c.toNat = 0x1680 || (0x2000 ≤ c.toNat && c.toNat ≤ 0x200a) || c.toNat = 0x2028 ||
    c.toNat = 0x2029 || c.toNat = 0x202f || c.toNat = 0x205f || c.toNat = 0x3000

/-- `trim_matches`: characters are removed at both ends. -/
def trimMatches (p : Char → Bool) (s : Text) : Text :=
  ((s.dropWhile p).reverse.dropWhile p).reverse

def trim : Text → Text := trimMatches isWhitespace

/-- `trim_start_matches`, in at most `n` rounds. -/
def trimStartRounds (pat : Text) : Nat → Text → Text
  | 0, s => s
  | n + 1, s => if pat.isPrefixOf s then trimStartRounds pat n (s.drop pat.length) else s

/-- `trim_start_matches`: the pattern is removed as often as the text starts with it. -/
def trimStartMatches (s pat : Text) : Text := trimStartRounds pat s.length s

def asBytes (s : Text) : Bytes := s.flatMap String.utf8EncodeChar

/-- `String::from_utf8` -/
def fromUtf8 (bytes : Bytes) : Option Text := bytes.toByteArray.utf8Decode?.map Array.toList

theorem fromUtf8_asBytes (s : Text) : fromUtf8 s.asBytes = some s := by
  have hdecode : s.asBytes.toByteArray.utf8Decode? = some s.toArray := List.utf8Decode?_utf8Encode
  unfold fromUtf8
  rw [hdecode]
  rfl

theorem asBytes_injective : Function.Injective asBytes := by
  intro s s' h
  have hdecode := fromUtf8_asBytes s
  rw [h, fromUtf8_asBytes] at hdecode
  exact (Option.some.inj hdecode).symm

def byteLen (s : Text) : Nat := (asBytes s).length

/-- A number in decimal digits. -/
def decimal (n : Nat) : Text := Nat.toDigits 10 n

/-- `find`: the position of the first occurrence. -/
def find (c : Char) (s : Text) : Option Nat :=
  if c ∈ s then some (byteLen (s.takeWhile (· ≠ c))) else none

/-- The text from a position on. -/
def dropBytes : Nat → Text → Option Text
  | 0, s => some s
  | _ + 1, [] => none
  -- a position inside a character has no text after it
  | n + 1, c :: s => if c.utf8Size ≤ n + 1 then dropBytes (n + 1 - c.utf8Size) s else none

/-- The text up to a position. -/
def takeBytes : Nat → Text → Option Text
  | 0, _ => some []
  | _ + 1, [] => none
  | n + 1, c :: s =>
    if c.utf8Size ≤ n + 1 then (takeBytes (n + 1 - c.utf8Size) s).map (c :: ·) else none

/-- `get(start..stop)` -/
def get (s : Text) (start stop : Nat) : Option Text :=
  if start ≤ stop then (dropBytes start s).bind (takeBytes (stop - start)) else none

/-! ## Positions in a text of two parts -/

theorem byteLen_nil : byteLen [] = 0 := rfl

theorem byteLen_cons (c : Char) (s : Text) : byteLen (c :: s) = c.utf8Size + byteLen s := by
  simp [byteLen, asBytes]

theorem byteLen_append (a b : Text) : byteLen (a ++ b) = byteLen a + byteLen b := by
  simp [byteLen, asBytes]

theorem length_le_byteLen (s : Text) : s.length ≤ s.byteLen := by
  induction s with
  | nil => exact Nat.le_refl 0
  | cons c s ih =>
    have hpos : 0 < c.utf8Size := c.utf8Size_pos
    rw [byteLen_cons, List.length_cons]
    omega

section FirstOccurrence

variable {c : Char} {a : Text}

theorem takeWhile_append_cons (h : c ∉ a) (s : Text) : (a ++ c :: s).takeWhile (· ≠ c) = a := by
  rw [List.takeWhile_append_of_pos fun x hx => by simpa using ne_of_mem_of_not_mem hx h]
  simp

theorem dropWhile_append_cons (h : c ∉ a) (s : Text) :
    (a ++ c :: s).dropWhile (· ≠ c) = c :: s := by
  rw [List.dropWhile_append_of_pos fun x hx => by simpa using ne_of_mem_of_not_mem hx h]
  simp

/-- The position of a character that the first part does not have. -/
theorem find_append_cons (h : c ∉ a) (s : Text) : find c (a ++ c :: s) = some (byteLen a) := by
  unfold find
  rw [if_pos (by simp), takeWhile_append_cons h]

end FirstOccurrence

theorem find_of_not_mem {c : Char} {s : Text} (h : c ∉ s) : find c s = none := if_neg h

theorem dropBytes_append (a b : Text) : dropBytes (byteLen a) (a ++ b) = some b := by
  induction a with
  | nil => simp [byteLen_nil, dropBytes]
  | cons c a ih =>
    have hpos : 0 < c.utf8Size := c.utf8Size_pos
    rw [byteLen_cons]
    obtain ⟨n, hn⟩ := Nat.exists_eq_succ_of_ne_zero (show c.utf8Size + byteLen a ≠ 0 by omega)
    rw [hn, List.cons_append]
    have hrest : n + 1 - c.utf8Size = byteLen a := by omega
    simp only [dropBytes, hrest, ih]
    exact if_pos (by omega)

theorem takeBytes_append (a b : Text) : takeBytes (byteLen a) (a ++ b) = some a := by
  induction a with
  | nil => simp [byteLen_nil, takeBytes]
  | cons c a ih =>
    have hpos : 0 < c.utf8Size := c.utf8Size_pos
    rw [byteLen_cons]
    obtain ⟨n, hn⟩ := Nat.exists_eq_succ_of_ne_zero (show c.utf8Size + byteLen a ≠ 0 by omega)
    rw [hn, List.cons_append]
    have hrest : n + 1 - c.utf8Size = byteLen a := by omega
    simp only [takeBytes, hrest, ih]
    exact if_pos (by omega)

/-- What is taken is a first part of the text. -/
theorem eq_append_of_takeBytes {n : Nat} {s part : Text} (h : takeBytes n s = some part) :
    byteLen part = n ∧ ∃ rest, s = part ++ rest := by
  induction s generalizing n part with
  | nil =>
    cases n with
    | zero =>
      cases h
      exact ⟨rfl, [], rfl⟩
    | succ n => cases h
  | cons c s ih =>
    cases n with
    | zero =>
      cases h
      exact ⟨rfl, c :: s, rfl⟩
    | succ n =>
      unfold takeBytes at h
      split at h
      · obtain ⟨part', hpart', rfl⟩ := Option.map_eq_some_iff.mp h
        obtain ⟨hlength, rest, rfl⟩ := ih hpart'
        refine ⟨?_, rest, rfl⟩
        rw [byteLen_cons]
        omega
      · cases h

/-- What is left is a last part of the text. -/
theorem eq_append_of_dropBytes {n : Nat} {s rest : Text} (h : dropBytes n s = some rest) :
    ∃ before, s = before ++ rest ∧ byteLen before = n := by
  induction s generalizing n with
  | nil =>
    cases n with
    | zero =>
      cases h
      exact ⟨[], rfl, rfl⟩
    | succ n => cases h
  | cons c s ih =>
    cases n with
    | zero =>
      cases h
      exact ⟨[], rfl, rfl⟩
    | succ n =>
      unfold dropBytes at h
      split at h
      · obtain ⟨before, rfl, hlength⟩ := ih h
        refine ⟨c :: before, rfl, ?_⟩
        rw [byteLen_cons]
        omega
      · cases h

/-- The part between two positions of a text of which the first part is known. -/
theorem get_append (a b : Text) (n : Nat) :
    get (a ++ b) (byteLen a) (byteLen a + n) = takeBytes n b := by
  unfold get
  rw [if_pos (Nat.le_add_right _ _), dropBytes_append, Nat.add_sub_cancel_left]
  rfl

end Text

end Cashbox.Lib
