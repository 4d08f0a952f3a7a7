import Cashbox.Lib.Bytes
import Cashbox.Lib.Outcome

/-!
# Recursive length prefix

The RLP format. An item is a byte string or a list of items; its encoding is a
prefix that tells kind and length, followed by the payload. Every item has one
encoding: lengths have no leading zeros, a length of at most 55 is in the first
byte, and a single byte below `0x80` is its own encoding.

`cut` reads the prefix of the first item of a byte string and returns the payload and
the bytes after it. What the payload holds it does not look at.
-/

namespace Cashbox.Lib.Rlp

open Cashbox.Lib

/-! ## Items and their encoding -/

inductive Kind where
  | data
  | list
  deriving DecidableEq, Repr

inductive Item where
  | data (bytes : Bytes)
  | list (items : List Item)

/-- What the first byte says about a payload of `len` bytes, from its kind's base. -/
def lengthByte (len : Nat) : Nat := if len ≤ 55 then len else 55 + (beMinimal len).length

/-- The bytes of the length that follow the first byte. -/
def lengthBytes (len : Nat) : Bytes := if len ≤ 55 then [] else beMinimal len

/-- The prefix of a payload. -/
def header (base len : Nat) : Bytes := UInt8.ofNat (base + lengthByte len) :: lengthBytes len

/-- Single bytes that are encoded as themselves. -/
def isSingle : Bytes → Bool
  | [b] => b < 0x80
  | _ => false

/-- A payload with its prefix. -/
def frame : Kind → Bytes → Bytes
  | .data, payload => if isSingle payload then payload else header 0x80 payload.length ++ payload
  | .list, payload => header 0xc0 payload.length ++ payload

theorem frame_of_single {payload : Bytes} (h : isSingle payload) : frame .data payload = payload :=
  if_pos h

theorem frame_of_not_single {payload : Bytes} (h : ¬ isSingle payload) :
    frame .data payload = header 0x80 payload.length ++ payload := if_neg h

theorem frame_list (payload : Bytes) :
    frame .list payload = header 0xc0 payload.length ++ payload := rfl

mutual

def Item.encode : Item → Bytes
  | .data bytes => frame .data bytes
  | .list items => frame .list (encodeAll items)

/-- The encodings of items in a row, the payload of a list. -/
def encodeAll : List Item → Bytes
  | [] => []
  | x :: xs => x.encode ++ encodeAll xs

end

@[simp] theorem encodeAll_nil : encodeAll [] = [] := by rw [encodeAll]

@[simp] theorem encodeAll_cons (x : Item) (xs : List Item) :
    encodeAll (x :: xs) = x.encode ++ encodeAll xs := by rw [encodeAll]

@[simp] theorem encode_data (bytes : Bytes) : (Item.data bytes).encode = frame .data bytes := by
  rw [Item.encode]

@[simp] theorem encode_list (items : List Item) :
    (Item.list items).encode = frame .list (encodeAll items) := by
  rw [Item.encode]

/-! ## Decoding -/

/-- The errors of the decoder. -/
inductive DecoderError where
  | rlpIsTooBig
  | rlpIsTooShort
  | rlpExpectedToBeList
  | rlpExpectedToBeData
  | rlpIncorrectListLen
  | rlpDataLenWithZeroPrefix
  | rlpInvalidIndirection
  | custom (message : String)
  deriving DecidableEq, Repr

/-- The length of a payload, from the first byte less its base. -/
def readLength (n : Nat) (bytes : Bytes) : Outcome DecoderError (Nat × Bytes) :=
  let digits := bytes.take (n - 55)
  if n ≤ 55 then .ok (n, bytes)
  -- the length itself is cut short, has a leading zero, or fits the short form
  else if bytes.length < n - 55 then .err .rlpIsTooShort
  else if digits.head? = some 0 then .err .rlpDataLenWithZeroPrefix
  else if ofBe digits ≤ 55 then .err .rlpInvalidIndirection
  else .ok (ofBe digits, bytes.drop (n - 55))

/-- The payload and the bytes after it. -/
def readPayload (n : Nat) (bytes : Bytes) : Outcome DecoderError (Bytes × Bytes) := do
  let (len, bytes) ← readLength n bytes
  if bytes.length < len then .err .rlpIsTooShort else .ok (bytes.take len, bytes.drop len)

/-- The first item's kind and payload, and the bytes after it. -/
def cut : Bytes → Outcome DecoderError (Kind × Bytes × Bytes)
  | [] => .err .rlpIsTooShort
  | b :: bytes =>
    if b < 0x80 then .ok (.data, [b], bytes)
    else if b < 0xc0 then do
      let (payload, rest) ← readPayload (b.toNat - 0x80) bytes
      .ok (.data, payload, rest)
    else do
      let (payload, rest) ← readPayload (b.toNat - 0xc0) bytes
      .ok (.list, payload, rest)

theorem cut_cons (b : UInt8) (bytes : Bytes) :
    cut (b :: bytes) =
      if b < 0x80 then .ok (.data, [b], bytes)
      else if b < 0xc0 then
        readPayload (b.toNat - 0x80) bytes >>= fun (payload, rest) => .ok (.data, payload, rest)
      else
        readPayload (b.toNat - 0xc0) bytes >>= fun (payload, rest) =>
          .ok (.list, payload, rest) := rfl

/-! ## Prefixes -/

/-- A length that fits eight bytes has at most eight digits. -/
theorem lengthByte_le {len : Nat} (h : len < 2 ^ 64) : lengthByte len ≤ 63 := by
  unfold lengthByte
  split_ifs with hshort
  · omega
  · have hdigits : (beMinimal len).length ≤ 8 := by
      apply (length_beMinimal_le_iff len 8).mpr
      have hpow : (256 : Nat) ^ 8 = 2 ^ 64 := by decide
      omega
    omega

theorem readLength_lengthByte (len : Nat) (rest : Bytes) :
    readLength (lengthByte len) (lengthBytes len ++ rest) = .ok (len, rest) := by
  unfold readLength lengthByte lengthBytes
  by_cases hshort : len ≤ 55
  · simp [hshort]
  · have hdigits : beMinimal len ≠ [] := by
      intro hnil
      have hvalue := ofBe_beMinimal len
      rw [hnil] at hvalue
      have hzero : ofBe [] = 0 := rfl
      omega
    have hpos := List.length_pos_iff.mpr hdigits
    have hhead := head?_beMinimal len
    -- none of the three refusals of the long form applies
    have hlong : ¬ 55 + (beMinimal len).length ≤ 55 := by omega
    have hfit : ¬ (beMinimal len ++ rest).length < 55 + (beMinimal len).length - 55 := by
      rw [List.length_append]
      omega
    have hcount : 55 + (beMinimal len).length - 55 = (beMinimal len).length := by omega
    simp only [if_neg hshort, if_neg hlong, if_neg hfit]
    rw [hcount, List.take_left, List.drop_left, if_neg hhead, ofBe_beMinimal, if_neg hshort]

theorem readPayload_lengthByte (payload rest : Bytes) :
    readPayload (lengthByte payload.length) (lengthBytes payload.length ++ (payload ++ rest)) =
      .ok (payload, rest) := by
  unfold readPayload
  rw [readLength_lengthByte, Outcome.ok_bind]
  have hfit : ¬ (payload ++ rest).length < payload.length := by
    rw [List.length_append]
    omega
  apply (if_neg hfit).trans
  rw [List.take_left, List.drop_left]

/-- The first byte of a prefix gives back the length byte. -/
theorem toNat_header (base : Nat) {len : Nat} (hbase : base ≤ 0xc0) (h : len < 2 ^ 64) :
    (UInt8.ofNat (base + lengthByte len)).toNat = base + lengthByte len := by
  have hle := lengthByte_le h
  rw [UInt8.toNat_ofNat']
  apply Nat.mod_eq_of_lt
  show base + lengthByte len < 256
  omega

/-! ## One item -/

theorem cut_frame (kind : Kind) (payload : Bytes) (h : payload.length < 2 ^ 64) (rest : Bytes) :
    cut (frame kind payload ++ rest) = .ok (kind, payload, rest) := by
  have hle := lengthByte_le h
  cases kind with
  | data =>
    by_cases hsingle : isSingle payload
    · rw [frame_of_single hsingle]
      -- a single byte below 0x80 stands for itself
      match payload, hsingle with
      | [b], hb =>
        have hlt : b < 0x80 := by simpa [isSingle] using hb
        simp [cut, hlt]
    · rw [frame_of_not_single hsingle]
      have hbyte := toNat_header 0x80 (by decide) h
      have hge : ¬ UInt8.ofNat (0x80 + lengthByte payload.length) < 0x80 := by
        rw [UInt8.lt_iff_toNat_lt, hbyte]
        show ¬ 0x80 + lengthByte payload.length < 0x80
        omega
      have hlt : UInt8.ofNat (0x80 + lengthByte payload.length) < 0xc0 := by
        rw [UInt8.lt_iff_toNat_lt, hbyte]
        show 0x80 + lengthByte payload.length < 0xc0
        omega
      rw [header, List.cons_append, List.cons_append, List.append_assoc, cut_cons, if_neg hge,
        if_pos hlt, hbyte, Nat.add_sub_cancel_left, readPayload_lengthByte]
      rfl
  | list =>
    have hbyte := toNat_header 0xc0 (by decide) h
    have hge : ¬ UInt8.ofNat (0xc0 + lengthByte payload.length) < 0x80 := by
      rw [UInt8.lt_iff_toNat_lt, hbyte]
      show ¬ 0xc0 + lengthByte payload.length < 0x80
      omega
    have hge' : ¬ UInt8.ofNat (0xc0 + lengthByte payload.length) < 0xc0 := by
      rw [UInt8.lt_iff_toNat_lt, hbyte]
      show ¬ 0xc0 + lengthByte payload.length < 0xc0
      omega
    rw [frame_list, header, List.cons_append, List.cons_append, List.append_assoc, cut_cons,
      if_neg hge, if_neg hge', hbyte, Nat.add_sub_cancel_left, readPayload_lengthByte]
    rfl

theorem frame_ne_nil (kind : Kind) (payload : Bytes) : frame kind payload ≠ [] := by
  cases kind with
  | data =>
    by_cases hsingle : isSingle payload
    · rw [frame_of_single hsingle]
      rintro rfl
      cases hsingle
    · rw [frame_of_not_single hsingle]
      exact List.cons_ne_nil _ _
  | list => exact List.cons_ne_nil _ _

/-- A payload is not longer than its frame. -/
theorem length_le_frame (kind : Kind) (payload : Bytes) :
    payload.length ≤ (frame kind payload).length := by
  cases kind with
  | data =>
    by_cases hsingle : isSingle payload
    · rw [frame_of_single hsingle]
    · rw [frame_of_not_single hsingle, List.length_append]
      omega
  | list =>
    rw [frame_list, List.length_append]
    omega

theorem length_lt_frame_list (payload : Bytes) :
    payload.length < (frame .list payload).length := by
  simp only [frame, header, List.cons_append, List.length_cons, List.length_append]
  omega

/-! ## Items as frames -/

def Item.kind : Item → Kind
  | .data _ => .data
  | .list _ => .list

def Item.payload : Item → Bytes
  | .data bytes => bytes
  | .list items => encodeAll items

theorem encode_eq_frame (x : Item) : x.encode = frame x.kind x.payload := by
  cases x with
  | data bytes => exact encode_data bytes
  | list items => exact encode_list items

/-- The first item is cut off, whatever follows it. -/
theorem cut_encode (x : Item) (rest : Bytes) (h : x.encode.length < 2 ^ 64) :
    cut (x.encode ++ rest) = .ok (x.kind, x.payload, rest) := by
  rw [encode_eq_frame] at h ⊢
  have hle := length_le_frame x.kind x.payload
  exact cut_frame _ _ (by omega) rest

/-- An item is not longer than the list it is in. -/
theorem length_encode_le {x : Item} {xs : List Item} (h : x ∈ xs) :
    x.encode.length ≤ (encodeAll xs).length := by
  induction xs with
  | nil => cases h
  | cons y ys ih =>
    rw [encodeAll_cons, List.length_append]
    rcases List.mem_cons.mp h with rfl | hys
    · omega
    · have hle := ih hys
      omega

/-- The items of a list whose encoding fits 64 bits fit too. -/
theorem fits_of_mem {x : Item} {xs : List Item} (h : x ∈ xs)
    (hsize : (Item.list xs).encode.length < 2 ^ 64) : x.encode.length < 2 ^ 64 := by
  have hle := length_encode_le h
  have hlt := length_lt_frame_list (encodeAll xs)
  rw [encode_list] at hsize
  omega

/-- Every item takes a byte. -/
theorem length_encode_pos (x : Item) : 0 < x.encode.length := by
  rw [encode_eq_frame]
  exact List.length_pos_iff.mpr (frame_ne_nil _ _)

/-! ## The first byte -/

/-- A byte from `0xc0` on begins a list. -/
theorem cut_kind {bytes payload rest : Bytes} {kind : Kind}
    (h : cut bytes = .ok (kind, payload, rest)) :
    ∃ b, bytes.head? = some b ∧ (kind = .list ↔ 0xc0 ≤ b) := by
  cases bytes with
  | nil => cases h
  | cons b bytes =>
    refine ⟨b, rfl, ?_⟩
    rw [cut_cons] at h
    split_ifs at h with hsmall hdata
    · cases h
      have hlt : b.toNat < 0x80 := hsmall
      have hnot : ¬ (0xc0 : UInt8) ≤ b := by
        rw [UInt8.le_iff_toNat_le]
        show ¬ 0xc0 ≤ b.toNat
        omega
      exact iff_of_false (fun heq => nomatch heq) hnot
    · obtain ⟨_, _, hparts⟩ := Outcome.bind_eq_ok.mp h
      cases hparts
      exact iff_of_false (fun heq => nomatch heq) (UInt8.not_le.mpr hdata)
    · obtain ⟨_, _, hparts⟩ := Outcome.bind_eq_ok.mp h
      cases hparts
      exact iff_of_true rfl (UInt8.not_lt.mp hdata)

theorem lengthByte_eq_zero {len : Nat} : lengthByte len = 0 ↔ len = 0 := by
  unfold lengthByte
  split_ifs with hshort
  · rfl
  · omega

/-- The first byte of a prefix is its base exactly if the payload is empty. -/
theorem header_base {base len : Nat} (hbase : base = 0x80 ∨ base = 0xc0) (h : len < 2 ^ 64) :
    (UInt8.ofNat (base + lengthByte len) = 0x80 ∨ UInt8.ofNat (base + lengthByte len) = 0xc0) ↔
      len = 0 := by
  have hle := lengthByte_le h
  have hbyte := toNat_header base (by omega) h
  have hzero := @lengthByte_eq_zero len
  rw [← UInt8.toNat_inj, ← UInt8.toNat_inj, hbyte]
  show base + lengthByte len = 0x80 ∨ base + lengthByte len = 0xc0 ↔ len = 0
  omega

/-- Only an empty payload leaves the first byte at its base. -/
theorem head?_encode {x : Item} (h : x.encode.length < 2 ^ 64) :
    ∃ b, x.encode.head? = some b ∧ ((b = 0x80 ∨ b = 0xc0) ↔ x.payload = []) := by
  rw [encode_eq_frame] at h ⊢
  have hle := length_le_frame x.kind x.payload
  have hsize : x.payload.length < 2 ^ 64 := by omega
  rw [← List.length_eq_zero_iff]
  cases x.kind with
  | data =>
    by_cases hsingle : isSingle x.payload
    · rw [frame_of_single hsingle]
      -- a single byte below 0x80 is its own first byte
      match x.payload, hsingle with
      | [b], hb =>
        have hlt : b < 0x80 := by simpa [isSingle] using hb
        refine ⟨b, rfl, iff_of_false ?_ (by simp)⟩
        rintro (rfl | rfl)
        · exact absurd hlt (by decide)
        · exact absurd hlt (by decide)
    · rw [frame_of_not_single hsingle]
      exact ⟨_, rfl, header_base (.inl rfl) hsize⟩
  | list => exact ⟨_, rfl, header_base (.inr rfl) hsize⟩

/-! ## Refusals -/

theorem cut_avoids (p : Panic) (bytes : Bytes) : Outcome.Avoids p (cut bytes) := by
  have hlength : ∀ n bytes, Outcome.Avoids p (readLength n bytes) := by
    intro n bytes
    unfold readLength
    dsimp only
    split_ifs
    · exact Outcome.avoids_ok p _
    · exact Outcome.avoids_err p _
    · exact Outcome.avoids_err p _
    · exact Outcome.avoids_err p _
    · exact Outcome.avoids_ok p _
  have hpayload : ∀ n bytes, Outcome.Avoids p (readPayload n bytes) := by
    intro n bytes
    apply (hlength n bytes).bind
    intro (len, bytes)
    dsimp only
    split_ifs
    · exact Outcome.avoids_err p _
    · exact Outcome.avoids_ok p _
  cases bytes with
  | nil => exact Outcome.avoids_err p _
  | cons b bytes =>
    rw [cut_cons]
    split_ifs
    · exact Outcome.avoids_ok p _
    · exact (hpayload _ _).bind fun _ => Outcome.avoids_ok p _
    · exact (hpayload _ _).bind fun _ => Outcome.avoids_ok p _

end Cashbox.Lib.Rlp
