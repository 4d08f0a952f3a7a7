import Mathlib.Data.List.Forall2
import Cashbox.Lib.RlpStream

/-!
# Reading items

A view of a byte string reads the item it begins with; bytes after it are tolerated.
Nothing is read before it is asked for: the items of a list are cut off its payload one
by one, and those before the first that cannot be cut off are counted. A view is defined
on all byte strings, and what it shows of an encoding are the parts of the item.

A `Codec` is a pair of functions between values and items in which each undoes
the other: a value is read back from its item, and an item that is read is the
item of the value. Numbers are read without leading zeros, words of a fixed width
in full width.
-/

namespace Cashbox.Lib.Rlp

open Cashbox.Lib

variable {α β : Type}

/-! ## Views -/

/-- `Rlp`: a slice of bytes. -/
structure View where
  raw : Bytes

namespace View

/-- `Rlp::new`. -/
def new (bytes : Bytes) : View := ⟨bytes⟩

/-- The view of an item of a list. -/
def ofItem (x : Item) : View := ⟨x.encode⟩

/-- The first byte alone decides. -/
def isList (v : View) : Bool := v.raw.head?.any fun b => 0xc0 ≤ b

def isData (v : View) : Bool := v.raw.head?.any fun b => b < 0xc0

/-- The item is the empty string or the empty list. -/
def isEmpty (v : View) : Bool := v.raw.head?.any fun b => b = 0x80 ∨ b = 0xc0

/-- The payload of the item. -/
def data (v : View) : Outcome DecoderError Bytes := do
  let (_, payload, _) ← cut v.raw
  .ok payload

/-- The bytes of an item that has to be a string. -/
def dataValue (v : View) : Outcome DecoderError Bytes :=
  if v.isList then .err .rlpExpectedToBeData
  else do
    let payload ← v.data
    -- a single byte below 0x80 must not have a prefix
    if v.raw.head? = some 0x81 ∧ isSingle payload then .err .rlpInvalidIndirection
    else .ok payload

/-- The first item of a row, and the bytes after it. -/
def first (bytes : Bytes) : Outcome DecoderError (View × Bytes) := do
  let (_, _, rest) ← cut bytes
  .ok (⟨bytes.take (bytes.length - rest.length)⟩, rest)

/-- The item of a row with so many before it. -/
def nth : Nat → Bytes → Outcome DecoderError View
  | 0, bytes => do
    let (w, _) ← first bytes
    .ok w
  | n + 1, bytes => do
    let (_, rest) ← first bytes
    nth n rest

/-- The items of a row, up to the first that cannot be cut off; at most `n`. -/
def row : Nat → Bytes → List View
  | 0, _ => []
  | n + 1, bytes =>
    match first bytes with
    | .ok (w, rest) => w :: row n rest
    | _ => []

/-- `Rlp::at`. -/
def itemAt (v : View) (index : Nat) : Outcome DecoderError View :=
  if v.isList then do
    let payload ← v.data
    nth index payload
  else .err .rlpExpectedToBeList

/-- `Rlp::iter`: the views of the items, none if there is no list. -/
def iter (v : View) : List View :=
  if v.isList then
    match v.data with
    -- every item takes a byte
    | .ok payload => row payload.length payload
    | _ => []
  else []

def itemCount (v : View) : Outcome DecoderError Nat :=
  if v.isList then .ok v.iter.length else .err .rlpExpectedToBeList

/-! ## What is shown of an encoding -/

/-- The view shows the item: its encoding, which fits 64 bits, comes first. -/
def Reads (v : View) (x : Item) : Prop := x.encode.length < 2 ^ 64 ∧ x.encode <+: v.raw

theorem reads_encode {x : Item} (h : x.encode.length < 2 ^ 64) : (new x.encode).Reads x :=
  ⟨h, List.prefix_rfl⟩

theorem reads_ofItem {x : Item} (h : x.encode.length < 2 ^ 64) : (ofItem x).Reads x :=
  ⟨h, List.prefix_rfl⟩

theorem first_encode {x : Item} (h : x.encode.length < 2 ^ 64) (rest : Bytes) :
    first (x.encode ++ rest) = .ok (ofItem x, rest) := by
  have hraw : (x.encode ++ rest).take ((x.encode ++ rest).length - rest.length) = x.encode := by
    rw [List.length_append, Nat.add_sub_cancel, List.take_left]
  unfold first
  rw [cut_encode x rest h, Outcome.ok_bind]
  dsimp only
  rw [hraw]
  rfl

section Rows

variable {xs : List Item}

/-- The items of a row stand at their positions. -/
theorem nth_encodeAll (h : ∀ x ∈ xs, x.encode.length < 2 ^ 64) (index : Nat) :
    nth index (encodeAll xs) = Outcome.okOr .rlpIsTooShort (xs[index]?.map ofItem) := by
  induction xs generalizing index with
  | nil =>
    rw [encodeAll_nil, List.getElem?_nil]
    cases index <;> rfl
  | cons x xs ih =>
    obtain ⟨hx, hxs⟩ := List.forall_mem_cons.mp h
    rw [encodeAll_cons]
    cases index with
    | zero =>
      rw [nth, first_encode hx]
      rfl
    | succ index =>
      rw [nth, first_encode hx, Outcome.ok_bind, List.getElem?_cons_succ]
      exact ih hxs index

theorem row_encodeAll (h : ∀ x ∈ xs, x.encode.length < 2 ^ 64) {n : Nat} (hn : xs.length ≤ n) :
    row n (encodeAll xs) = xs.map ofItem := by
  induction xs generalizing n with
  | nil =>
    rw [encodeAll_nil]
    cases n <;> rfl
  | cons x xs ih =>
    obtain ⟨hx, hxs⟩ := List.forall_mem_cons.mp h
    rw [List.length_cons] at hn
    obtain ⟨n, rfl⟩ : ∃ m, n = m + 1 := ⟨n - 1, by omega⟩
    rw [encodeAll_cons, row, first_encode hx]
    dsimp only
    rw [ih hxs (by omega), List.map_cons]

theorem length_le_encodeAll (xs : List Item) : xs.length ≤ (encodeAll xs).length := by
  induction xs with
  | nil => exact Nat.zero_le _
  | cons x xs ih =>
    have hpos := length_encode_pos x
    rw [encodeAll_cons, List.length_append, List.length_cons]
    omega

end Rows

section Reads

variable {v : View} {x : Item} {xs : List Item} {bytes : Bytes}

theorem Reads.cut (h : v.Reads x) : ∃ rest, Rlp.cut v.raw = .ok (x.kind, x.payload, rest) := by
  obtain ⟨hsize, rest, hraw⟩ := h
  exact ⟨rest, hraw ▸ cut_encode x rest hsize⟩

theorem Reads.data (h : v.Reads x) : v.data = .ok x.payload := by
  obtain ⟨rest, hcut⟩ := h.cut
  unfold View.data
  rw [hcut]
  rfl

theorem Reads.isList (h : v.Reads x) : v.isList = true ↔ x.kind = .list := by
  obtain ⟨rest, hcut⟩ := h.cut
  obtain ⟨b, hhead, hkind⟩ := cut_kind hcut
  unfold View.isList
  rw [hhead, Option.any_some, decide_eq_true_iff, hkind]

theorem Reads.isData (h : v.Reads x) : v.isData = true ↔ x.kind = .data := by
  obtain ⟨rest, hcut⟩ := h.cut
  obtain ⟨b, hhead, hkind⟩ := cut_kind hcut
  unfold View.isData
  rw [hhead, Option.any_some, decide_eq_true_iff, ← UInt8.not_le, ← hkind]
  cases x.kind <;> simp

theorem Reads.isEmpty (h : v.Reads x) : v.isEmpty = true ↔ x.payload = [] := by
  obtain ⟨b, hhead, hbase⟩ := head?_encode h.1
  obtain ⟨rest, hraw⟩ := h.2
  have hfirst : v.raw.head? = some b := by
    rw [← hraw, List.head?_append, hhead]
    rfl
  unfold View.isEmpty
  rw [hfirst, Option.any_some, decide_eq_true_iff, hbase]

theorem Reads.dataValue (h : v.Reads (.data bytes)) : v.dataValue = .ok bytes := by
  have hlist : ¬ v.isList = true := by simp [h.isList, Item.kind]
  have hdata : v.data = .ok bytes := h.data
  have hprefixed : ¬ (v.raw.head? = some 0x81 ∧ isSingle bytes = true) := by
    rintro ⟨hhead, hsingle⟩
    obtain ⟨rest, hraw⟩ := h.2
    rw [← hraw, encode_data, frame_of_single hsingle] at hhead
    match bytes, hsingle with
    | [b], hb =>
      cases hhead
      exact absurd hb (by decide)
  unfold View.dataValue
  rw [if_neg hlist, hdata, Outcome.ok_bind, if_neg hprefixed]

theorem Reads.dataValue_list (h : v.Reads (.list xs)) :
    v.dataValue = .err .rlpExpectedToBeData := if_pos (h.isList.mpr rfl)

/-- The bytes of a string are read, and of nothing else. -/
theorem Reads.dataValue_eq_ok (h : v.Reads x) : v.dataValue = .ok bytes ↔ x = .data bytes := by
  cases x with
  | data b =>
    rw [h.dataValue]
    simp
  | list xs =>
    rw [h.dataValue_list]
    simp

/-- The items of a list are read as themselves. -/
theorem Reads.iter (h : v.Reads (.list xs)) : v.iter = xs.map ofItem := by
  have hdata : v.data = .ok (encodeAll xs) := h.data
  unfold View.iter
  rw [if_pos (h.isList.mpr rfl), hdata]
  exact row_encodeAll (fun x hx => fits_of_mem hx h.1) (length_le_encodeAll xs)

theorem Reads.iter_data (h : v.Reads (.data bytes)) : v.iter = [] := by
  unfold View.iter
  rw [if_neg (by simp [h.isList, Item.kind])]

theorem Reads.itemCount (h : v.Reads (.list xs)) : v.itemCount = .ok xs.length := by
  unfold View.itemCount
  rw [if_pos (h.isList.mpr rfl), h.iter, List.length_map]

theorem Reads.itemCount_data (h : v.Reads (.data bytes)) :
    v.itemCount = .err .rlpExpectedToBeList := by
  unfold View.itemCount
  rw [if_neg (by simp [h.isList, Item.kind])]

/-- Only of a list the items are counted. -/
theorem Reads.itemCount_eq_ok (h : v.Reads x) {n : Nat} :
    v.itemCount = .ok n ↔ ∃ xs, x = .list xs ∧ xs.length = n := by
  cases x with
  | data bytes =>
    rw [h.itemCount_data]
    simp
  | list xs =>
    rw [h.itemCount]
    simp

theorem Reads.itemAt (h : v.Reads (.list xs)) (index : Nat) :
    v.itemAt index = Outcome.okOr .rlpIsTooShort (xs[index]?.map ofItem) := by
  have hdata : v.data = .ok (encodeAll xs) := h.data
  unfold View.itemAt
  rw [if_pos (h.isList.mpr rfl), hdata, Outcome.ok_bind]
  exact nth_encodeAll (fun x hx => fits_of_mem hx h.1) index

/-- An item in a list is found at its position, as a view of itself. -/
theorem Reads.itemAt_eq_ok (h : v.Reads (.list xs)) {index : Nat} {w : View} :
    v.itemAt index = .ok w ↔ ∃ x, xs[index]? = some x ∧ w = ofItem x := by
  rw [h.itemAt]
  cases xs[index]? with
  | none => simp [Outcome.okOr]
  | some x => simp [Outcome.okOr, eq_comm]

theorem Reads.ofItem_mem (h : v.Reads (.list xs)) (hx : x ∈ xs) : (ofItem x).Reads x :=
  reads_ofItem (fits_of_mem hx h.1)

end Reads

/-! ## Refusals -/

section Avoids

variable (p : Panic)

theorem data_avoids (v : View) : v.data.Avoids p :=
  (cut_avoids p v.raw).bind fun _ => Outcome.avoids_ok p _

theorem dataValue_avoids (v : View) : v.dataValue.Avoids p := by
  unfold View.dataValue
  split_ifs
  · exact Outcome.avoids_err p _
  · apply (data_avoids p v).bind
    intro payload
    split_ifs
    · exact Outcome.avoids_err p _
    · exact Outcome.avoids_ok p _

theorem itemAt_avoids (v : View) (index : Nat) : (v.itemAt index).Avoids p := by
  have hfirst : ∀ bytes, (first bytes).Avoids p := fun bytes =>
    (cut_avoids p bytes).bind fun _ => Outcome.avoids_ok p _
  have hnth : ∀ index bytes, (nth index bytes).Avoids p := by
    intro index
    induction index with
    | zero => exact fun bytes => (hfirst bytes).bind fun _ => Outcome.avoids_ok p _
    | succ index ih => exact fun bytes => (hfirst bytes).bind fun _ => ih _
  unfold View.itemAt
  split_ifs
  · exact (data_avoids p v).bind fun payload => hnth index payload
  · exact Outcome.avoids_err p _

theorem itemCount_avoids (v : View) : v.itemCount.Avoids p := by
  unfold View.itemCount
  split_ifs
  · exact Outcome.avoids_ok p _
  · exact Outcome.avoids_err p _

end Avoids

end View

/-! ## Codecs -/

/-- A pair of functions between values and items that undo each other. -/
structure Codec (α : Type) where
  encode : α → Item
  decode : View → Outcome DecoderError α
  decode_eq_ok : ∀ {v x a}, v.Reads x → (decode v = .ok a ↔ x = encode a)

/-- `Rlp::val_at`. -/
def View.valAt (v : View) (c : Codec α) (index : Nat) : Outcome DecoderError α := do
  let w ← v.itemAt index
  c.decode w

/-- `Rlp::as_list`: of a string there are no items. -/
def View.asList (v : View) (c : Codec α) : Outcome DecoderError (List α) :=
  v.iter.mapM c.decode

/-- `Rlp::list_at`. -/
def View.listAt (v : View) (c : Codec α) (index : Nat) : Outcome DecoderError (List α) := do
  let w ← v.itemAt index
  w.asList c

/-- A value is at a position exactly when its item is. -/
theorem View.Reads.valAt {v : View} {xs : List Item} (h : v.Reads (.list xs)) {c : Codec α}
    {index : Nat} {a : α} : v.valAt c index = .ok a ↔ xs[index]? = some (c.encode a) := by
  unfold View.valAt
  rw [Outcome.bind_eq_ok]
  constructor
  · rintro ⟨w, hw, ha⟩
    obtain ⟨x, hx, rfl⟩ := h.itemAt_eq_ok.mp hw
    rw [hx, (c.decode_eq_ok (h.ofItem_mem (List.mem_of_getElem? hx))).mp ha]
  · intro hx
    refine ⟨.ofItem (c.encode a), h.itemAt_eq_ok.mpr ⟨_, hx, rfl⟩, ?_⟩
    exact (c.decode_eq_ok (h.ofItem_mem (List.mem_of_getElem? hx))).mpr rfl

/-- A traversal that succeeds has a result for each member, in order. -/
theorem mapM_eq_ok {ε : Type} {f : α → Outcome ε β} {as : List α} {bs : List β} :
    as.mapM f = .ok bs ↔ List.Forall₂ (fun a b => f a = .ok b) as bs := by
  induction as generalizing bs with
  | nil =>
    cases bs with
    | nil => simp
    | cons b bs => simp
  | cons a as ih =>
    rw [List.mapM_cons, Outcome.bind_eq_ok]
    constructor
    · rintro ⟨b, hb, h⟩
      obtain ⟨bs', hbs, h⟩ := Outcome.bind_eq_ok.mp h
      cases h
      exact .cons hb (ih.mp hbs)
    · rintro (_ | ⟨hb, hbs⟩)
      refine ⟨_, hb, ?_⟩
      rw [ih.mpr hbs]
      rfl

/-- A traversal depends on what is done to the members only. -/
theorem mapM_congr {ε : Type} {f g : α → Outcome ε β} {as : List α}
    (h : ∀ a ∈ as, f a = g a) : as.mapM f = as.mapM g := by
  induction as with
  | nil => rfl
  | cons a as ih =>
    rw [List.mapM_cons, List.mapM_cons, h a List.mem_cons_self,
      ih fun b hb => h b (List.mem_cons_of_mem a hb)]

/-- The items of a list are read one by one. -/
theorem View.Reads.mapM_iter {v : View} {xs : List Item} (h : v.Reads (.list xs))
    {f : View → Outcome DecoderError α} {r : Item → α → Prop}
    (hf : ∀ {w x a}, w.Reads x → (f w = .ok a ↔ r x a)) {as : List α} :
    v.iter.mapM f = .ok as ↔ List.Forall₂ r xs as := by
  rw [h.iter, mapM_eq_ok, List.forall₂_map_left_iff]
  have hmem : ∀ x ∈ xs, (View.ofItem x).Reads x := fun x hx => h.ofItem_mem hx
  constructor
  · intro hall
    have hboth := (List.forall₂_and_left ..).mpr ⟨hmem, hall⟩
    exact hboth.imp fun x a ⟨hx, ha⟩ => (hf hx).mp ha
  · intro hall
    have hboth := (List.forall₂_and_left ..).mpr ⟨hmem, hall⟩
    exact hboth.imp fun x a ⟨hx, ha⟩ => (hf hx).mpr ha

/-- What is read at a position as a list: the items of the values, or a string for none. -/
theorem View.Reads.listAt {v : View} {xs : List Item} (h : v.Reads (.list xs)) {c : Codec α}
    {index : Nat} {as : List α} :
    v.listAt c index = .ok as ↔ xs[index]? = some (.list (as.map c.encode)) ∨
      (as = [] ∧ ∃ bytes, xs[index]? = some (.data bytes)) := by
  have hitem : ∀ {x}, x ∈ xs → ((View.ofItem x).asList c = .ok as ↔
      x = .list (as.map c.encode) ∨ (as = [] ∧ ∃ bytes, x = .data bytes)) := by
    intro x hx
    have hread := h.ofItem_mem hx
    unfold View.asList
    cases x with
    | data bytes =>
      rw [hread.iter_data]
      simp [eq_comm]
    | list ys =>
      rw [hread.mapM_iter (r := fun y a => y = c.encode a) c.decode_eq_ok,
        ← List.forall₂_map_right_iff, List.forall₂_eq_eq_eq]
      simp
  unfold View.listAt
  rw [Outcome.bind_eq_ok]
  constructor
  · rintro ⟨w, hw, has⟩
    obtain ⟨x, hx, rfl⟩ := h.itemAt_eq_ok.mp hw
    rcases (hitem (List.mem_of_getElem? hx)).mp has with rfl | ⟨hnil, bytes, rfl⟩
    · exact .inl hx
    · exact .inr ⟨hnil, bytes, hx⟩
  · rintro (hx | ⟨hnil, bytes, hx⟩)
    · exact ⟨_, h.itemAt_eq_ok.mpr ⟨_, hx, rfl⟩, (hitem (List.mem_of_getElem? hx)).mpr (.inl rfl)⟩
    · exact ⟨_, h.itemAt_eq_ok.mpr ⟨_, hx, rfl⟩,
        (hitem (List.mem_of_getElem? hx)).mpr (.inr ⟨hnil, bytes, rfl⟩)⟩

/-! ## Strings, numbers and words -/

/-- Byte strings as they are. -/
def Codec.bytes : Codec Bytes where
  encode := .data
  decode := View.dataValue
  decode_eq_ok h := h.dataValue_eq_ok

/-- A number of at most `k` bytes, without leading zeros. -/
def decodeUnsigned (k : Nat) (v : View) : Outcome DecoderError Nat := do
  let b ← v.dataValue
  if b.head? = some 0 then .err .rlpInvalidIndirection
  else if k < b.length then .err .rlpIsTooBig
  else .ok (ofBe b)

/-- A word of exactly `k` bytes. -/
def decodeFixed (k : Nat) (v : View) : Outcome DecoderError Nat := do
  let b ← v.dataValue
  if b.length < k then .err .rlpIsTooShort
  else if k < b.length then .err .rlpIsTooBig
  else .ok (ofBe b)

theorem decodeUnsigned_eq_ok {k n : Nat} {v : View} {x : Item} (h : v.Reads x) :
    decodeUnsigned k v = .ok n ↔ x = .data (beMinimal n) ∧ n < 256 ^ k := by
  unfold decodeUnsigned
  rw [Outcome.bind_eq_ok]
  constructor
  · rintro ⟨b, hb, hn⟩
    split_ifs at hn with hzero hbig
    cases hn
    -- without a leading zero the bytes are the minimal ones of their value
    have hminimal := beMinimal_ofBe hzero
    refine ⟨by rw [h.dataValue_eq_ok.mp hb, hminimal], ?_⟩
    apply (length_beMinimal_le_iff _ k).mp
    rw [hminimal]
    omega
  · rintro ⟨rfl, hlt⟩
    have hfit : ¬ k < (beMinimal n).length :=
      Nat.not_lt.mpr ((length_beMinimal_le_iff n k).mpr hlt)
    refine ⟨_, h.dataValue, ?_⟩
    rw [if_neg (head?_beMinimal n), if_neg hfit, ofBe_beMinimal]

theorem decodeFixed_eq_ok {k n : Nat} {v : View} {x : Item} (h : v.Reads x) :
    decodeFixed k v = .ok n ↔ x = .data (beBytes k n) ∧ n < 256 ^ k := by
  unfold decodeFixed
  rw [Outcome.bind_eq_ok]
  constructor
  · rintro ⟨b, hb, hn⟩
    split_ifs at hn with hshort hlong
    cases hn
    -- neither too short nor too long
    have hlength : b.length = k := by omega
    rw [h.dataValue_eq_ok.mp hb, ← hlength, beBytes_ofBe]
    exact ⟨rfl, ofBe_lt b⟩
  · rintro ⟨rfl, hlt⟩
    have hlength := beBytes_length k n
    refine ⟨_, h.dataValue, ?_⟩
    rw [if_neg (by omega), if_neg (by omega), ofBe_beBytes k n hlt]

/-- A type of numbers below `256 ^ k`. -/
structure Word (α : Type) (k : Nat) where
  toNat : α → Nat
  ofNat : Nat → α
  toNat_lt : ∀ a, toNat a < 256 ^ k
  ofNat_toNat : ∀ a, ofNat (toNat a) = a
  toNat_ofNat : ∀ n, n < 256 ^ k → toNat (ofNat n) = n

section Word

variable {k : Nat} {w : Word α k}

/-- A number that is read as a word is the number of the word. -/
theorem Word.bind_eq_ok {read : Outcome DecoderError Nat} {x : Item} (encode : Nat → Item)
    (hread : ∀ n, read = .ok n ↔ x = encode n ∧ n < 256 ^ k) {a : α} :
    (read >>= fun n => .ok (w.ofNat n)) = .ok a ↔ x = encode (w.toNat a) := by
  rw [Outcome.bind_eq_ok]
  constructor
  · rintro ⟨n, hn, ha⟩
    obtain ⟨rfl, hlt⟩ := (hread n).mp hn
    cases ha
    rw [w.toNat_ofNat n hlt]
  · rintro rfl
    exact ⟨w.toNat a, (hread _).mpr ⟨rfl, w.toNat_lt a⟩, by rw [w.ofNat_toNat]⟩

end Word

/-- Numbers are written without leading zeros. -/
def Codec.unsigned {k : Nat} (w : Word α k) : Codec α where
  encode a := .data (beMinimal (w.toNat a))
  decode v := do
    let n ← decodeUnsigned k v
    .ok (w.ofNat n)
  decode_eq_ok h := Word.bind_eq_ok (fun n => .data (beMinimal n))
    fun _ => decodeUnsigned_eq_ok h

/-- Words are written in full width. -/
def Codec.fixed {k : Nat} (w : Word α k) : Codec α where
  encode a := .data (beBytes k (w.toNat a))
  decode v := do
    let n ← decodeFixed k v
    .ok (w.ofNat n)
  decode_eq_ok h := Word.bind_eq_ok (fun n => .data (beBytes k n))
    fun _ => decodeFixed_eq_ok h

def Word.u8 : Word UInt8 1 where
  toNat := UInt8.toNat
  ofNat := UInt8.ofNat
  toNat_lt a := a.toNat_lt
  ofNat_toNat _ := UInt8.ofNat_toNat
  toNat_ofNat _ h := UInt8.toNat_ofNat_of_lt h

def Word.u64 : Word UInt64 8 where
  toNat := UInt64.toNat
  ofNat := UInt64.ofNat
  toNat_lt a := a.toNat_lt
  ofNat_toNat _ := UInt64.ofNat_toNat
  toNat_ofNat _ h := UInt64.toNat_ofNat_of_lt h

/-- Words of `k` bytes as bit vectors. -/
def Word.bits (k : Nat) : Word (BitVec (8 * k)) k where
  toNat := BitVec.toNat
  ofNat := BitVec.ofNat (8 * k)
  toNat_lt a := by
    have h := a.isLt
    rwa [Nat.pow_mul] at h
  ofNat_toNat a := by simp
  toNat_ofNat n h := by
    rw [BitVec.toNat_ofNat]
    apply Nat.mod_eq_of_lt
    rwa [Nat.pow_mul]

end Cashbox.Lib.Rlp
