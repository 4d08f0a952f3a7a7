import Cashbox.Lib.Bytes

/-!
# SCALE encoding

The SCALE format writes values one after the other with no type information: fixed-width
integers in little-endian order, a length before a sequence, and the compact form of
an integer, which is as short as the integer allows.

A `Codec` carries the proof that its decoder takes exactly the bytes of a value off the
front of its input. This is what makes an encoding free of prefixes, and what sequences of
values are put together from.
-/

namespace Cashbox.Scale

open Cashbox.Lib

/-! ## Decoders -/

/-- What a decoder takes off its input, and the input after it. -/
abbrev Decoder (α : Type) := Bytes → Option (α × Bytes)

/-- The next `k` bytes. -/
def takeBytes (k : Nat) : Decoder Bytes := fun input =>
  if input.length < k then none else some (input.take k, input.drop k)

theorem takeBytes_append {bytes : Bytes} {k : Nat} (h : bytes.length = k) (rest : Bytes) :
    takeBytes k (bytes ++ rest) = some (bytes, rest) := by
  subst h
  simp [takeBytes]

/-- The number that little-endian bytes denote. -/
def ofLe (bytes : Bytes) : Nat := ofBe bytes.reverse

theorem ofLe_leBytes {k n : Nat} (h : n < 256 ^ k) : ofLe (leBytes k n) = n := ofBe_beBytes k n h

/-- The next `k` bytes as a number. -/
def readLe (k : Nat) : Decoder Nat := fun input =>
  (takeBytes k input).map fun x => (ofLe x.1, x.2)

theorem readLe_append {k n : Nat} (h : n < 256 ^ k) (rest : Bytes) :
    readLe k (leBytes k n ++ rest) = some (n, rest) := by
  rw [readLe, takeBytes_append (leBytes_length k n)]
  simp [ofLe_leBytes h]

/-- A decoder `n` times. -/
def decodeMany {α : Type} (d : Decoder α) : Nat → Decoder (List α)
  | 0, input => some ([], input)
  | n + 1, input => do
    let (x, input) ← d input
    let (xs, input) ← decodeMany d n input
    return (x :: xs, input)

/-! ## Codecs -/

/-- An encoding that its decoder takes off the front of any input. -/
structure Codec (α : Type) where
  encode : α → Bytes
  decode : Decoder α
  decode_append : ∀ (x : α) (rest : Bytes), decode (encode x ++ rest) = some (x, rest)

namespace Codec

variable {α β : Type}

/-- An encoding is not a proper prefix of another one. -/
theorem encode_append_inj (c : Codec α) {x y : α} {rest rest' : Bytes}
    (h : c.encode x ++ rest = c.encode y ++ rest') : x = y ∧ rest = rest' := by
  have hx := c.decode_append x rest
  rw [h, c.decode_append y rest'] at hx
  simp at hx
  exact ⟨hx.1.symm, hx.2.symm⟩

theorem encode_injective (c : Codec α) : Function.Injective c.encode := by
  intro x y h
  exact (c.encode_append_inj (by rw [h] : c.encode x ++ [] = c.encode y ++ [])).1

/-- The input of exactly one encoding is used up. -/
theorem decode_self (c : Codec α) (x : α) : c.decode (c.encode x) = some (x, []) := by
  have h := c.decode_append x []
  rwa [List.append_nil] at h

/-- The type `()` has no bytes. -/
def unit : Codec Unit where
  encode _ := []
  decode input := some ((), input)
  decode_append _ _ := rfl

/-- Values of one type written as values of another. -/
def map (c : Codec α) (f : β → α) (g : α → Option β) (h : ∀ b, g (f b) = some b) : Codec β where
  encode b := c.encode (f b)
  decode input := do
    let (a, rest) ← c.decode input
    let b ← g a
    return (b, rest)
  decode_append b rest := by simp [c.decode_append, h]

/-- One value after the other. -/
def prod (c : Codec α) (d : Codec β) : Codec (α × β) where
  encode x := c.encode x.1 ++ d.encode x.2
  decode input := do
    let (a, input) ← c.decode input
    let (b, input) ← d.decode input
    return ((a, b), input)
  decode_append x rest := by simp [List.append_assoc, c.decode_append, d.decode_append]

theorem encode_prod (c : Codec α) (d : Codec β) (x : α × β) :
    (c.prod d).encode x = c.encode x.1 ++ d.encode x.2 := rfl

theorem decodeMany_encode (c : Codec α) (xs : List α) (rest : Bytes) :
    decodeMany c.decode xs.length (xs.flatMap c.encode ++ rest) = some (xs, rest) := by
  induction xs with
  | nil => rfl
  | cons x xs ih => simp [decodeMany, List.append_assoc, c.decode_append, ih]

end Codec

/-! ## Fixed widths -/

/-- `[u8; k]`. -/
abbrev FixedBytes (k : Nat) := { bytes : Bytes // bytes.length = k }

/-- The array of zeros, which is the default. -/
def FixedBytes.zero (k : Nat) : FixedBytes k := ⟨List.replicate k 0, List.length_replicate⟩

instance (k : Nat) : Inhabited (FixedBytes k) := ⟨FixedBytes.zero k⟩

def fixedBytes (k : Nat) : Codec (FixedBytes k) where
  encode x := x.1
  decode input := do
    let (bytes, rest) ← takeBytes k input
    if h : bytes.length = k then some (⟨bytes, h⟩, rest) else none
  decode_append x rest := by simp [takeBytes_append x.2, x.2]

def u8 : Codec UInt8 where
  encode b := [b]
  decode
    | [] => none
    | b :: rest => some (b, rest)
  decode_append _ _ := rfl

def u32 : Codec UInt32 where
  encode n := leBytes 4 n.toNat
  decode input := (readLe 4 input).map fun x => (UInt32.ofNat x.1, x.2)
  decode_append n rest := by
    have hn : n.toNat < 256 ^ 4 := n.toNat_lt
    simp [readLe_append hn]

/-! ## Compact integers -/

/-- How many bytes a number has without leading zeros. -/
def byteCount (n : Nat) : Nat := (beMinimal n).length

theorem byteCount_le_iff (n k : Nat) : byteCount n ≤ k ↔ n < 256 ^ k := length_beMinimal_le_iff n k

/-- The two low bits of the first byte tell how many bytes there are. -/
def encodeCompact (n : Nat) : Bytes :=
  if n < 2 ^ 6 then leBytes 1 (4 * n)
  else if n < 2 ^ 14 then leBytes 2 (4 * n + 1)
  else if n < 2 ^ 30 then leBytes 4 (4 * n + 2)
  else UInt8.ofNat (4 * (byteCount n - 4) + 3) :: leBytes (byteCount n) n

/-- A number that no shorter form has. -/
def shortest (low n : Nat) (rest : Bytes) : Option (Nat × Bytes) :=
  if low ≤ n then some (n, rest) else none

theorem shortest_of_le {low n : Nat} (h : low ≤ n) (rest : Bytes) :
    shortest low n rest = some (n, rest) := if_pos h

/-- A compact integer of at most `width` bytes. -/
def decodeCompact (width : Nat) : Decoder Nat
  | [] => none
  | b :: rest =>
    if b.toNat % 4 = 0 then some (b.toNat / 4, rest)
    else if b.toNat % 4 = 1 then do
      let (n, rest) ← readLe 2 (b :: rest)
      shortest (2 ^ 6) (n / 4) rest
    else if b.toNat % 4 = 2 then do
      let (n, rest) ← readLe 4 (b :: rest)
      shortest (2 ^ 14) (n / 4) rest
    else if b.toNat / 4 + 4 ≤ width then do
      let (n, rest) ← readLe (b.toNat / 4 + 4) rest
      shortest (if b.toNat / 4 = 0 then 2 ^ 30 else 256 ^ (b.toNat / 4 + 3)) n rest
    else none

/-- The first of the low bytes keeps the two low bits. -/
theorem mod_four_head (m : Nat) : (UInt8.ofNat m).toNat % 4 = m % 4 := by
  rw [UInt8.toNat_ofNat']
  omega

theorem decodeCompact_encodeCompact {width n : Nat} (hwidth : width ≤ 67) (h : n < 256 ^ width)
    (rest : Bytes) : decodeCompact width (encodeCompact n ++ rest) = some (n, rest) := by
  unfold encodeCompact
  split_ifs with h6 h14 h30
  · -- one byte, two, four, or a count of bytes before the number
    have hbyte : (UInt8.ofNat (4 * n)).toNat = 4 * n := by
      rw [UInt8.toNat_ofNat']
      omega
    have hquot : 4 * n / 4 = n := by omega
    rw [leBytes_succ, List.cons_append, decodeCompact, hbyte, if_pos (by omega), hquot]
    rfl
  · have hmode := mod_four_head (4 * n + 1)
    have hread := readLe_append (show 4 * n + 1 < 256 ^ 2 by omega) rest
    have hhalf : (4 * n + 1) / 4 = n := by omega
    rw [leBytes_succ, List.cons_append] at hread ⊢
    rw [decodeCompact, if_neg (by omega), if_pos (by omega), hread]
    simp only [Option.bind_eq_bind, Option.bind_some, hhalf]
    exact shortest_of_le (by omega) rest
  · have hmode := mod_four_head (4 * n + 2)
    have hread := readLe_append (show 4 * n + 2 < 256 ^ 4 by omega) rest
    have hhalf : (4 * n + 2) / 4 = n := by omega
    rw [leBytes_succ, List.cons_append] at hread ⊢
    rw [decodeCompact, if_neg (by omega), if_neg (by omega), if_pos (by omega), hread]
    simp only [Option.bind_eq_bind, Option.bind_some, hhalf]
    exact shortest_of_le (by omega) rest
  · -- from here on the first byte counts the bytes beyond four
    have hlow : 4 ≤ byteCount n := by
      have hthree := (byteCount_le_iff n 3).not.mpr (by omega)
      omega
    have hhigh : byteCount n ≤ width := (byteCount_le_iff n width).mpr h
    have hbyte : (UInt8.ofNat (4 * (byteCount n - 4) + 3)).toNat = 4 * (byteCount n - 4) + 3 := by
      rw [UInt8.toNat_ofNat']
      omega
    have hquot : (4 * (byteCount n - 4) + 3) / 4 = byteCount n - 4 := by omega
    have hcount : byteCount n - 4 + 4 = byteCount n := by omega
    have hread := readLe_append ((byteCount_le_iff n _).mp le_rfl) rest
    have hmin : (if byteCount n - 4 = 0 then 2 ^ 30 else 256 ^ (byteCount n - 4 + 3)) ≤ n := by
      split_ifs with hfour
      · omega
      · have hless := (byteCount_le_iff n (byteCount n - 4 + 3)).not.mp (by omega)
        omega
    rw [List.cons_append, decodeCompact, hbyte, if_neg (by omega), if_neg (by omega),
      if_neg (by omega), hquot, hcount, if_pos hhigh, hread]
    exact shortest_of_le hmin rest

/-- How long the compact form is, below the last threshold. -/
theorem length_encodeCompact {n : Nat} (h : n < 2 ^ 30) :
    (encodeCompact n).length = if n < 2 ^ 6 then 1 else if n < 2 ^ 14 then 2 else 4 := by
  unfold encodeCompact
  split_ifs <;> simp

example : [63, 64, 16383, 16384].map encodeCompact =
    [[0xfc], [0x01, 0x01], [0xfd, 0xff], [0x02, 0x00, 0x01, 0x00]] := by decide

/-- `Compact<u32>`. -/
def compactU32 : Codec UInt32 where
  encode n := encodeCompact n.toNat
  decode input := (decodeCompact 4 input).map fun x => (UInt32.ofNat x.1, x.2)
  decode_append n rest := by
    have hn : n.toNat < 256 ^ 4 := n.toNat_lt
    simp [decodeCompact_encodeCompact (by decide) hn]

/-- `Compact<u64>`. -/
def compactU64 : Codec UInt64 where
  encode n := encodeCompact n.toNat
  decode input := (decodeCompact 8 input).map fun x => (UInt64.ofNat x.1, x.2)
  decode_append n rest := by
    have hn : n.toNat < 256 ^ 8 := n.toNat_lt
    simp [decodeCompact_encodeCompact (by decide) hn]

/-- `Compact<u128>`. -/
def compactU128 : Codec (BitVec 128) where
  encode n := encodeCompact n.toNat
  decode input := (decodeCompact 16 input).map fun x => (BitVec.ofNat 128 x.1, x.2)
  decode_append n rest := by
    have hn : n.toNat < 256 ^ 16 := n.isLt
    simp [decodeCompact_encodeCompact (by decide) hn]

/-! ## Sequences -/

/-- `Vec<T>`, whose length is a compact `u32`. -/
def vec {α : Type} (c : Codec α) : Codec { xs : List α // xs.length < 2 ^ 32 } where
  encode xs := encodeCompact xs.1.length ++ xs.1.flatMap c.encode
  decode input := do
    let (n, input) ← decodeCompact 4 input
    let (xs, input) ← decodeMany c.decode n input
    if h : xs.length < 2 ^ 32 then some (⟨xs, h⟩, input) else none
  decode_append xs rest := by
    have hlength : xs.1.length < 256 ^ 4 := xs.2
    simp only [List.append_assoc, decodeCompact_encodeCompact (by decide) hlength,
      Option.bind_eq_bind, Option.bind_some, c.decodeMany_encode]
    exact dif_pos xs.2

end Cashbox.Scale
