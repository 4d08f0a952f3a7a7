import Cashbox.Hammersbald.Format
import Cashbox.Hammersbald.PagedFile

/-!
# The data file

A file to which records are appended; a flush fills its last page with a record of zeros. A
record is read at the position where it was appended, and the records are listed in the order in
which they were appended.
-/

namespace Cashbox.Hammersbald

open Cashbox.Lib

/-! ## The data file -/

/-- File storing indexed and referred data, or links. -/
structure DataFile where
  appender : PagedFileAppender

namespace DataFile

def onAppender {α : Type} (m : Method PagedFileAppender Error α) : Method DataFile Error α :=
  m.on DataFile.appender fun _ a => ⟨a⟩

/-- Create new file. -/
def new (file : AsyncFile) : Outcome Error DataFile :=
  if file.len % pageSize ≠ 0 then .err (.corrupted "data file does not end at page boundary")
  else if pageSize ≤ file.len then .ok ⟨PagedFileAppender.new file file.len⟩
  else .ok ⟨PagedFileAppender.new file 0⟩

/-- Get a stored content at a pref. -/
def getEnvelope (d : DataFile) (pref : Nat) : Outcome Error Bytes := do
  let (pref, len) ← d.appender.read pref 3
  let (_, payload) ← d.appender.read pref (ofBe len)
  return payload

/-- Append a payload: `append_link`, `append_data` and `append_referred`. -/
def appendPayload (p : Payload) : Method DataFile Error Nat := do
  let payload ← Method.lift p.serialize
  let store ← Method.lift (Envelope.serialize payload)
  let d ← Method.get
  let me := d.appender.pos
  let _ ← onAppender (PagedFileAppender.append store)
  return me

/-- Append link. -/
def appendLink (links : Bytes) : Method DataFile Error Nat := appendPayload (.link links)

/-- Append indexed data. -/
def appendData (key data : Bytes) : Method DataFile Error Nat := appendPayload (.indexed key data)

/-- Append referred data. -/
def appendReferred (data : Bytes) : Method DataFile Error Nat := appendPayload (.referred data)

/-- Truncate file. -/
def truncate (len : Nat) : Method DataFile Error Unit := onAppender (PagedFileAppender.truncate len)

/-- The zeros of the record that fills the last page: its header takes seven bytes. -/
def padding (pos : Nat) : Bytes :=
  if 7 ≤ pageSize - PRef.inPagePos pos then List.replicate (pageSize - PRef.inPagePos pos - 7) 0
  else List.replicate (2 * pageSize - PRef.inPagePos pos - 7) 0

/-- The first part of `flush`: a record fills the last page. -/
def pad : Method DataFile Error Unit := do
  let d ← Method.get
  if 0 < PRef.inPagePos d.appender.pos then
    let _ ← appendReferred (padding d.appender.pos)
  else pure ()

/-- Flush buffers. -/
def flush : Method DataFile Error Unit := do
  pad
  onAppender PagedFileAppender.flush

/-- Get file length. -/
def len (d : DataFile) : Nat := d.appender.file.len

end DataFile

/-! ### Iteration -/

/-- `EnvelopeIterator::next`: the envelope at the position, and the position behind it. -/
def DataFile.nextEnvelope (d : DataFile) (pos : Nat) :
    Outcome Error (Option ((Nat × Bytes) × Nat)) :=
  if PRef.IsValid pos then
    match d.appender.read pos 3 with
    | .ok (start, len) =>
      if 0 < ofBe len then do
        let (behind, payload) ← (d.appender.read start (ofBe len)).unwrap
        return some ((pos, payload), behind)
      else .ok none
    | .err _ => .ok none
    | .panic why => .panic why
  else .ok none

/-- The first `n` envelopes of the iterator from a position on. -/
def DataFile.envelopes (d : DataFile) : Nat → Nat → Outcome Error (List (Nat × Bytes))
  | 0, _ => .ok []
  | n + 1, pos => do
    match ← d.nextEnvelope pos with
    | some (envelope, behind) =>
      let rest ← d.envelopes n behind
      return envelope :: rest
    | none => return []

/-! ## Records -/

/-- The bytes of a record. -/
def envelopeBytes (payload : Bytes) : Bytes := beBytes 3 payload.length ++ payload

/-- The payload of the record at a pref, if all of it is there. -/
def recordAt (bytes : Bytes) (pref : Nat) : Option Bytes :=
  if pref + 3 + ofBe (slice bytes pref 3) ≤ bytes.length then
    some (slice bytes (pref + 3) (ofBe (slice bytes pref 3)))
  else none

/-- What the record at a pref is read as. -/
def payloadAt (bytes : Bytes) (pref : Nat) : Option Payload :=
  match recordAt bytes pref with
  | some payload =>
    match Payload.deserialize payload with
    | .ok p => some p
    | _ => none
  | none => none

theorem length_envelopeBytes (payload : Bytes) :
    (envelopeBytes payload).length = payload.length + 3 := by
  simp [envelopeBytes, Nat.add_comm]

theorem recordAt_eq_some {bytes payload : Bytes} {pref : Nat} :
    recordAt bytes pref = some payload ↔
      pref + 3 + ofBe (slice bytes pref 3) ≤ bytes.length ∧
        slice bytes (pref + 3) (ofBe (slice bytes pref 3)) = payload := by
  unfold recordAt
  split_ifs with h <;> simp [h]

/-- A record stays where it is. -/
theorem recordAt_append {bytes payload : Bytes} {pref : Nat}
    (h : recordAt bytes pref = some payload) (more : Bytes) :
    recordAt (bytes ++ more) pref = some payload := by
  obtain ⟨hle, hslice⟩ := recordAt_eq_some.mp h
  have hlen : slice (bytes ++ more) pref 3 = slice bytes pref 3 := slice_append (by omega)
  apply recordAt_eq_some.mpr
  rw [hlen, slice_append hle, List.length_append]
  exact ⟨by omega, hslice⟩

/-- What was appended as a record is one. -/
theorem recordAt_envelopeBytes (bytes : Bytes) {payload : Bytes} (h : payload.length < 2 ^ 24) :
    recordAt (bytes ++ envelopeBytes payload) bytes.length = some payload := by
  have hlen : slice (bytes ++ envelopeBytes payload) bytes.length 3 = beBytes 3 payload.length := by
    have hmid := slice_mid bytes (beBytes 3 payload.length) payload
    rwa [beBytes_length, List.append_assoc] at hmid
  have hpayload : slice (bytes ++ envelopeBytes payload) (bytes.length + 3) payload.length =
      payload := by
    have hright := slice_right (bytes ++ beBytes 3 payload.length) payload
    rwa [List.length_append, beBytes_length, List.append_assoc] at hright
  apply recordAt_eq_some.mpr
  rw [hlen, ofBe_beBytes 3 _ h, List.length_append, length_envelopeBytes]
  exact ⟨by omega, hpayload⟩

theorem payloadAt_eq_some {bytes : Bytes} {pref : Nat} {p : Payload} :
    payloadAt bytes pref = some p ↔
      ∃ payload, recordAt bytes pref = some payload ∧ Payload.deserialize payload = .ok p := by
  unfold payloadAt
  cases recordAt bytes pref with
  | none => simp
  | some payload =>
    cases hread : Payload.deserialize payload <;> simp [hread]

theorem payloadAt_append {bytes : Bytes} {pref : Nat} {p : Payload}
    (h : payloadAt bytes pref = some p) (more : Bytes) :
    payloadAt (bytes ++ more) pref = some p := by
  obtain ⟨payload, hrecord, hread⟩ := payloadAt_eq_some.mp h
  exact payloadAt_eq_some.mpr ⟨payload, recordAt_append hrecord more, hread⟩

/-- There is room for the payload behind `n` bytes. -/
def Payload.Room (p : Payload) (n : Nat) : Prop :=
  ∃ payload, p.serialize = .ok payload ∧ payload.length < 2 ^ 24 ∧
    n + payload.length + 3 < PRef.invalid

namespace DataFile

variable {d : DataFile} {bytes : Bytes} {fail : DataFile → Prop}

/-- **A record** is read at its pref. -/
theorem getEnvelope_of_recordAt (h : d.appender.Holds bytes) {pref : Nat} {payload : Bytes}
    (hrecord : recordAt bytes pref = some payload) : d.getEnvelope pref = .ok payload := by
  obtain ⟨hle, hslice⟩ := recordAt_eq_some.mp hrecord
  unfold getEnvelope
  rw [h.read (by omega), Outcome.ok_bind]
  simp only [h.read hle, Outcome.ok_bind, hslice]
  rfl

/-- A payload that is short is appended where there is room for it. -/
theorem appendPayload_ok (h : d.appender.Holds bytes) {p : Payload} {payload : Bytes}
    (hpayload : p.serialize = .ok payload) (hlt : payload.length < 2 ^ 24)
    (hroom : bytes.length + payload.length + 3 < PRef.invalid) :
    ∃ d', (appendPayload p).run d = (d', .ok bytes.length) ∧
      d'.appender.Holds (bytes ++ envelopeBytes payload) := by
  have hstore : Envelope.serialize payload = .ok (envelopeBytes payload) :=
    (Envelope.serialize_eq_ok (by omega)).mpr ⟨hlt, rfl⟩
  have happend : (PagedFileAppender.append (envelopeBytes payload)).wp _ (fun _ => False)
      d.appender := h.append fun hfull _ => by
    rw [length_envelopeBytes] at hfull
    omega
  obtain ⟨a, pos, hrun, hholds⟩ := happend.exists_run
  refine ⟨⟨a⟩, ?_, hholds⟩
  unfold appendPayload onAppender
  simp only [Method.run_bind, Method.run_lift, Method.run_get, Method.run_on, Method.run_pure,
    hpayload, hstore, hrun, h.pos]

/-- Appending does not touch the file of the operating system. -/
theorem keeps_appendPayload (p : Payload) :
    Method.Keeps (fun d => d.appender.file.file) (appendPayload p) :=
  .bind (.lift _) fun _ => .bind (.lift _) fun _ => .bind (fun _ => rfl) fun _ =>
    .bind (fun d => PagedFileAppender.keeps_append _ d.appender) fun _ => .pure _

/-- **Appending** adds a record at the end, if there is room for it. -/
theorem appendPayload_spec {p : Payload} (hfail : ¬ p.Room bytes.length → ∀ d, fail d)
    (h : d.appender.Holds bytes) (hfits : p.Fits) :
    (appendPayload p).wp (fun me d' => me = bytes.length ∧
      (∃ payload, p.serialize = .ok payload ∧ payload.length < 2 ^ 24 ∧
        d'.appender.Holds (bytes ++ envelopeBytes payload)) ∧
      d'.appender.file.file = d.appender.file.file) fail d := by
  have hkeeps := keeps_appendPayload p d
  by_cases hroom : p.Room bytes.length
  · obtain ⟨payload, hpayload, hlt, hroom⟩ := hroom
    obtain ⟨d', hrun, hholds⟩ := appendPayload_ok h hpayload hlt hroom
    rw [hrun] at hkeeps
    exact (Method.wp_of_ok hrun).mpr ⟨rfl, ⟨payload, hpayload, hlt, hholds⟩, hkeeps⟩
  · have hfail := hfail hroom
    have happend : (appendPayload p).wp (fun me d' => me = bytes.length ∧
        ∃ payload, p.serialize = .ok payload ∧ payload.length < 2 ^ 24 ∧
          d'.appender.Holds (bytes ++ envelopeBytes payload)) fail d := by
      unfold appendPayload
      refine Method.wp_lift_bind (fun payload hpayload => ?_) (hfail _)
      refine Method.wp_lift_bind (fun store hstore => ?_) (hfail _)
      have hshort := Payload.length_serialize_lt hfits hpayload
      obtain ⟨hlt, rfl⟩ := (Envelope.serialize_eq_ok hshort).mp hstore
      simp only [Method.wp_bind, Method.wp_get, onAppender, Method.wp_on, Method.wp_pure]
      refine Method.wp_mono (h.append fun _ _ => hfail _) (fun _ a ha => ?_) fun _ h => h
      exact ⟨h.pos, payload, hpayload, hlt, ha⟩
    refine Method.wp_mono (Method.wp_run happend) (fun me d' hd' => ?_) fun _ h => h
    rw [hd'.2] at hkeeps
    exact ⟨hd'.1.1, hd'.1.2, hkeeps⟩

/-- A record that was appended is read as the payload. -/
theorem payloadAt_of_serialize {p : Payload} {payload : Bytes} (hfits : p.Fits)
    (hpayload : p.serialize = .ok payload) (hlt : payload.length < 2 ^ 24) (bytes : Bytes) :
    payloadAt (bytes ++ envelopeBytes payload) bytes.length = some p :=
  payloadAt_eq_some.mpr
    ⟨payload, recordAt_envelopeBytes bytes hlt, Payload.deserialize_serialize hfits hpayload⟩

/-- The padding and its header end with a page. -/
theorem length_padding (pos : Nat) : ∃ k, PRef.inPagePos pos + ((padding pos).length + 7) =
    k * pageSize ∧ (padding pos).length < 2 * pageSize := by
  have hlt := PRef.inPagePos_lt pos
  unfold padding
  split_ifs with h
  · refine ⟨1, ?_⟩
    rw [List.length_replicate]
    omega
  · have hseven : 7 ≤ pageSize := by decide
    refine ⟨2, ?_⟩
    rw [List.length_replicate]
    omega

/-- The record that a flush adds, if it adds one. -/
def padRecord (pos : Nat) : Bytes :=
  if 0 < PRef.inPagePos pos then
    envelopeBytes (1 :: (beBytes 3 (padding pos).length ++ padding pos))
  else []

theorem inPagePos_padRecord (bytes : Bytes) :
    PRef.inPagePos (bytes ++ padRecord bytes.length).length = 0 := by
  unfold padRecord
  split_ifs with h
  · obtain ⟨k, hk, _⟩ := length_padding bytes.length
    have hsplit := PRef.thisPage_add_inPagePos bytes.length
    obtain ⟨m, hm⟩ := PRef.dvd_thisPage bytes.length
    have hlength : (bytes ++ envelopeBytes (1 ::
        (beBytes 3 (padding bytes.length).length ++ padding bytes.length))).length =
          pageSize * (m + k) := by
      simp only [List.length_append, length_envelopeBytes, List.length_cons, beBytes_length]
      rw [Nat.mul_add, ← hm, Nat.mul_comm pageSize k, ← hk]
      omega
    rw [hlength]
    exact Nat.mul_mod_right _ _
  · rw [List.append_nil]
    omega

/-- The zeros and their header are less than two pages. -/
theorem length_padRecord_le (pos : Nat) : (padRecord pos).length ≤ 2 * pageSize := by
  unfold padRecord
  split_ifs
  · have hlt : (padding pos).length + 7 ≤ 2 * pageSize := by
      have hseven : 7 ≤ pageSize := by decide
      unfold padding
      split_ifs <;> rw [List.length_replicate] <;> omega
    simp only [length_envelopeBytes, List.length_cons, List.length_append, beBytes_length]
    omega
  · exact Nat.zero_le _

/-- Where there is room for the header of the zeros, the record ends with the page. -/
theorem length_padRecord {pos : Nat} (hpos : 0 < PRef.inPagePos pos)
    (hroom : PRef.inPagePos pos + 7 ≤ pageSize) :
    (padRecord pos).length = pageSize - PRef.inPagePos pos := by
  unfold padRecord padding
  rw [if_pos hpos, if_pos (by omega), length_envelopeBytes, List.length_cons, List.length_append,
    beBytes_length, List.length_replicate]
  omega

/-- The payload of the zeros. -/
theorem serialize_padding (pos : Nat) : (Payload.referred (padding pos)).serialize =
    .ok (1 :: (beBytes 3 (padding pos).length ++ padding pos)) := by
  obtain ⟨_, _, hlt⟩ := length_padding pos
  have hsmall : 2 * pageSize = 8192 := rfl
  have hdata : Data.serialize (padding pos) = .ok _ :=
    Data.serialize_eq_ok.mpr ⟨(Nat.mod_le _ _).trans_lt (by omega), rfl⟩
  rw [Nat.mod_eq_of_lt (by omega)] at hdata
  unfold Payload.serialize
  simp only [hdata, Outcome.ok_bind]
  rfl

theorem fits_padding (pos : Nat) : (Payload.referred (padding pos)).Fits := by
  obtain ⟨_, _, hlt⟩ := length_padding pos
  have hsmall : 2 * pageSize = 8192 := rfl
  show (padding pos).length < 2 ^ 31
  omega

/-- The record of zeros ends with a page. -/
theorem pad_spec (hfail : PRef.invalid ≤ bytes.length + 2 * pageSize → ∀ d, fail d)
    (h : d.appender.Holds bytes) :
    pad.wp (fun _ d' => d'.appender.Holds (bytes ++ padRecord bytes.length) ∧
      d'.appender.file.file = d.appender.file.file) fail d := by
  unfold pad
  rw [Method.wp_bind, Method.wp_get, h.pos]
  by_cases hpos : 0 < PRef.inPagePos bytes.length
  · have hrecord : padRecord bytes.length = envelopeBytes
        (1 :: (beBytes 3 (padding bytes.length).length ++ padding bytes.length)) := if_pos hpos
    have hle := length_padRecord_le bytes.length
    have hsmall : 2 * pageSize = 8192 := rfl
    rw [hrecord, length_envelopeBytes] at hle
    have hroom : ¬ (Payload.referred (padding bytes.length)).Room bytes.length →
        PRef.invalid ≤ bytes.length + 2 * pageSize := by
      intro hfull
      by_contra hlt
      exact hfull ⟨_, serialize_padding _, by omega, by omega⟩
    rw [if_pos hpos]
    refine Method.wp_seq (appendPayload_spec (fun hfull => hfail (hroom hfull)) h
      (fits_padding _)) ?_
    rintro _ d' ⟨_, ⟨payload, hpayload, _, hd'⟩, hfile⟩
    rw [serialize_padding] at hpayload
    cases hpayload
    rw [Method.wp_pure, hrecord]
    exact ⟨hd', hfile⟩
  · unfold padRecord
    rw [if_neg hpos, if_neg hpos, List.append_nil]
    exact ⟨h, rfl⟩

/-- No write of the file fails, and there is room for the end of the last page. -/
structure Writable (d : DataFile) : Prop where
  left : d.appender.file.file.left = none
  room : d.appender.pos + 2 * pageSize < PRef.invalid

/-- **A flush** ends the page, and then all bytes are in the file. -/
theorem flush_spec (hfail : ¬ d.Writable → ∀ d, fail d) (h : d.appender.Holds bytes) :
    flush.wp (fun _ d' => d'.appender.Holds (bytes ++ padRecord bytes.length) ∧
      d'.appender.page = none ∧
      d'.appender.file.file.content = bytes ++ padRecord bytes.length ∧
      d'.appender.file.queue = [] ∧
      (d.appender.file.file.left = none → d'.appender.file.file.left = none)) fail d := by
  have hroom : PRef.invalid ≤ bytes.length + 2 * pageSize → ¬ d.Writable := fun hfull hw => by
    have hroom := hw.room
    rw [h.pos] at hroom
    omega
  unfold flush
  refine Method.wp_seq (pad_spec (fun hfull => hfail (hroom hfull)) h) ?_
  rintro _ d' ⟨hd', hfile⟩
  unfold onAppender
  rw [Method.wp_on, ← hfile]
  exact hd'.flush (fun hleft _ => hfail (fun hw => hleft (hfile ▸ hw.left)) _)
    (inPagePos_padRecord bytes)

/-- A file that ends with a page is opened with the bytes it has. -/
theorem new_spec {file : AsyncFile} (hqueue : file.queue = [])
    (halign : pageSize ∣ file.file.content.length)
    (hvalid : file.file.content.length < PRef.invalid) :
    ∃ d, DataFile.new file = .ok d ∧ d.appender.Holds file.file.content ∧
      d.appender.page = none ∧ d.appender.file = file := by
  have hlen : file.len = file.file.content.length := rfl
  have hzero : file.file.content.length % pageSize = 0 := Nat.mod_eq_zero_of_dvd halign
  have hthis : PRef.thisPage file.file.content.length = file.file.content.length :=
    PRef.thisPage_eq halign pageSize_pos (Nat.add_zero _)
  have hcontent : file.content =
      file.file.content.take (PRef.thisPage file.file.content.length) := by
    rw [hthis, List.take_length]
    simp [AsyncFile.content, AsyncFile.queued, hqueue]
  unfold DataFile.new
  rw [hlen, if_neg (not_not.mpr hzero)]
  by_cases hle : pageSize ≤ file.file.content.length
  · rw [if_pos hle]
    exact ⟨_, rfl, ⟨rfl, hvalid, halign, hcontent, .inl ⟨rfl, hzero⟩⟩, rfl, rfl⟩
  · -- a file shorter than a page that ends with one is empty
    have hempty : file.file.content.length = 0 :=
      Nat.eq_zero_of_dvd_of_lt halign (Nat.not_le.mp hle)
    rw [if_neg hle]
    exact ⟨_, rfl, ⟨hempty.symm, hvalid, halign, hcontent, .inl ⟨rfl, hzero⟩⟩, rfl, rfl⟩

end DataFile

/-! ## The list of records -/

namespace PagedFileAppender

variable {a : PagedFileAppender} {bytes : Bytes}

/-- Behind the bytes there are zeros to the end of the page, and then there is no page. -/
theorem Holds.read_behind (h : a.Holds bytes) {p len : Nat} (hle : bytes.length ≤ p)
    (hvalid : p + len < PRef.invalid) :
    a.read p len = .err .io ∨ a.read p len = .ok (p + len, List.replicate len 0) := by
  -- on the length, as the read goes on with the next page
  induction len using Nat.strong_induction_on generalizing p with
  | _ len ih =>
    have hmono : PRef.thisPage bytes.length ≤ PRef.thisPage p := PRef.thisPage_mono hle
    have hthis : PRef.thisPage (PRef.thisPage p) = PRef.thisPage p :=
      PRef.thisPage_eq (PRef.dvd_thisPage p) pageSize_pos (Nat.add_zero _)
    -- the file has no page there
    have hnone : a.file.readPage (PRef.thisPage p) = .ok none := by
      apply AsyncFile.readPage_of_length_le h.aligned (PRef.dvd_thisPage p)
      rw [h.content, List.length_take]
      omega
    unfold PagedFileAppender.read
    split_ifs with hzero
    · right
      rw [hzero]
      rfl
    · have hspace := @space_pos p len (by omega)
      have hmin : space p len ≤ len := Nat.min_le_right _ _
      unfold PagedFileAppender.readPage
      rcases h.page with ⟨hpage, _⟩ | ⟨page, hpage, hcontent⟩
      · left
        rw [hpage]
        simp only [hnone, Outcome.ok_bind]
      · rw [hpage]
        simp only [hthis, h.pos]
        by_cases hlast : PRef.thisPage p = PRef.thisPage bytes.length
        · -- the page in memory, behind its bytes
          have hin : PRef.inPagePos p + space p len ≤ pageSize := by
            have hlt := PRef.inPagePos_lt p
            unfold space
            omega
          have hsplit := PRef.thisPage_add_inPagePos p
          have hsplit' := PRef.thisPage_add_inPagePos bytes.length
          have hrest := length_drop_thisPage bytes
          have hzeros : slice page.content (PRef.inPagePos p) (space p len) =
              List.replicate (space p len) 0 := by
            unfold slice
            rw [hcontent, List.drop_append, List.drop_eq_nil_of_le (by omega), List.nil_append,
              List.drop_replicate, List.take_replicate, Nat.min_eq_left (by omega)]
          have hsum : p + space p len + (len - space p len) = p + len := by omega
          have hreplicate : List.replicate (space p len) (0 : UInt8) ++
              List.replicate (len - space p len) 0 = List.replicate len 0 := by
            rw [← List.replicate_add, Nat.add_sub_cancel' hmin]
          rw [if_pos hlast, Outcome.ok_bind]
          simp only [Page.read_of_le hin, Outcome.ok_bind, hzeros,
            PRef.addAssign_of_lt (by omega : p + space p len < PRef.invalid)]
          -- the rest is read behind it
          rcases ih (len - space p len) (by omega) (p := p + space p len) (by omega) (by omega)
            with herr | hok
          · left
            rw [herr]
            rfl
          · right
            rw [hok, hsum, ← hreplicate]
            rfl
        · -- a page behind the one in memory
          left
          rw [if_neg hlast, hnone]
          rfl

end PagedFileAppender

/-- The bytes of payloads that were appended one behind the other. -/
def contents (payloads : List Bytes) : Bytes := (payloads.map envelopeBytes).flatten

theorem contents_append (payloads : List Bytes) (payload : Bytes) :
    contents (payloads ++ [payload]) = contents payloads ++ envelopeBytes payload := by
  simp [contents]

/-- The record behind some others. -/
theorem recordAt_contents {front back : List Bytes} {payload : Bytes}
    (h : payload.length < 2 ^ 24) :
    recordAt (contents (front ++ payload :: back)) (contents front).length = some payload := by
  have hsplit : contents (front ++ payload :: back) =
      contents front ++ envelopeBytes payload ++ contents back := by
    simp [contents]
  rw [hsplit]
  exact recordAt_append (recordAt_envelopeBytes (contents front) h) (contents back)

namespace DataFile

variable {d d' : DataFile} {payloads : List Bytes} {fail : DataFile → Prop}

/-- The iterator returns the next record. -/
theorem nextEnvelope_of_recordAt {bytes : Bytes} (h : d.appender.Holds bytes) {pref : Nat}
    {payload : Bytes} (hrecord : recordAt bytes pref = some payload) (hpos : payload ≠ []) :
    d.nextEnvelope pref = .ok (some ((pref, payload), pref + (envelopeBytes payload).length)) := by
  obtain ⟨hle, hslice⟩ := recordAt_eq_some.mp hrecord
  have hlength : ofBe (slice bytes pref 3) = payload.length := by
    rw [← hslice, length_slice hle]
  have hvalid := h.valid
  have hlt := List.length_pos_iff.mpr hpos
  rw [hlength] at hle hslice
  unfold nextEnvelope
  rw [if_pos (by unfold PRef.IsValid; omega), h.read (by omega)]
  simp only [hlength, if_pos hlt, h.read hle, hslice, Outcome.unwrap, Outcome.ok_bind,
    Outcome.pure_eq_ok, length_envelopeBytes, Nat.add_assoc, Nat.add_comm 3]

/-- Behind the last record there is no other. -/
theorem nextEnvelope_of_length {bytes : Bytes} (h : d.appender.Holds bytes)
    (hvalid : bytes.length + 3 < PRef.invalid) : d.nextEnvelope bytes.length = .ok none := by
  unfold nextEnvelope
  rw [if_pos (by unfold PRef.IsValid; omega)]
  rcases h.read_behind (le_refl _) hvalid with herr | hok
  · rw [herr]
  · rw [hok]
    exact if_neg (by decide)

/-- The records behind `front`, with their positions. -/
def positioned (front : List Bytes) : List Bytes → List (Nat × Bytes)
  | [] => []
  | payload :: back => ((contents front).length, payload) :: positioned (front ++ [payload]) back

/-- **The iterator** lists the records in order. -/
theorem envelopes_contents (h : d.appender.Holds (contents payloads))
    (hfits : ∀ payload ∈ payloads, payload ≠ [] ∧ payload.length < 2 ^ 24)
    (hvalid : (contents payloads).length + 3 < PRef.invalid) (n : Nat) {front back : List Bytes}
    (hsplit : front ++ back = payloads) :
    d.envelopes n (contents front).length = .ok ((positioned front back).take n) := by
  induction n generalizing front back with
  | zero => rfl
  | succ n ih =>
    unfold envelopes
    cases back with
    | nil =>
      rw [List.append_nil] at hsplit
      rw [hsplit, nextEnvelope_of_length h hvalid]
      rfl
    | cons payload back =>
      obtain ⟨hne, hlt⟩ := hfits payload (by simp [← hsplit])
      have hrecord : recordAt (contents (front ++ payload :: back)) (contents front).length =
          some payload := recordAt_contents hlt
      have hbehind : (contents front).length + (envelopeBytes payload).length =
          (contents (front ++ [payload])).length := by
        rw [contents_append, List.length_append]
      rw [hsplit] at hrecord
      have hrest : d.envelopes n (contents (front ++ [payload])).length =
          .ok ((positioned (front ++ [payload]) back).take n) := ih (by simpa using hsplit)
      rw [nextEnvelope_of_recordAt h hrecord hne, Outcome.ok_bind, hbehind]
      simp only [hrest, Outcome.ok_bind]
      rfl

/-- Whatever comes behind them, records keep their positions. -/
theorem positioned_append (front back more : List Bytes) :
    positioned front (back ++ more) =
      positioned front back ++ positioned (front ++ back) more := by
  induction back generalizing front with
  | nil => simp [positioned]
  | cons first back ih => simp [positioned, ih]

theorem recordAt_of_mem_positioned {e : Nat × Bytes} {front back : List Bytes}
    (hfits : ∀ payload ∈ back, payload ≠ [] ∧ payload.length < 2 ^ 24)
    (he : e ∈ positioned front back) : recordAt (contents (front ++ back)) e.1 = some e.2 := by
  induction back generalizing front with
  | nil => cases he
  | cons payload back ih =>
    obtain ⟨hpayload, hback⟩ := List.forall_mem_cons.mp hfits
    rcases List.mem_cons.mp he with rfl | he
    · exact recordAt_contents hpayload.2
    · have hrest := ih hback he
      rwa [List.append_assoc, List.singleton_append] at hrest

/-! ### Runs -/

/-- The record of zeros that a flush adds. -/
def padOf (pos : Nat) : List (Nat × Payload) :=
  if 0 < PRef.inPagePos pos then [(pos, .referred (padding pos))] else []

/-- The file after some calls, with what they appended and where. -/
inductive Run : List (Nat × Payload) → DataFile → Prop
  | new {file : AsyncFile} {d : DataFile} : file.queue = [] → file.file.content = [] →
      DataFile.new file = .ok d → Run [] d
  | append {records : List (Nat × Payload)} {d d' : DataFile} {p : Payload} {me : Nat} :
      Run records d → p.Fits → (appendPayload p).run d = (d', .ok me) →
      Run (records ++ [(me, p)]) d'
  | flush {records : List (Nat × Payload)} {d d' : DataFile} : Run records d →
      DataFile.flush.run d = (d', .ok ()) → Run (records ++ padOf d.appender.pos) d'
  /-- The background writes the queue. -/
  | background {records : List (Nat × Payload)} {d d' : DataFile} : Run records d →
      (onAppender (PagedFileAppender.onFile AsyncFile.background)).run d = (d', .ok ()) →
      Run records d'

/-- A record of the run is read as the payload at its place. -/
def Reads (r : Nat × Payload) (e : Nat × Bytes) : Prop :=
  e.1 = r.1 ∧ Payload.deserialize e.2 = .ok r.2

/-- The background changes nothing for the readers. -/
theorem background_spec {bytes : Bytes}
    (hfail : d.appender.file.file.left ≠ none → ∀ d, fail d) (h : d.appender.Holds bytes) :
    (onAppender (PagedFileAppender.onFile AsyncFile.background)).wp
      (fun _ d' => d'.appender.Holds bytes ∧
        (d.appender.file.file.left = none → d'.appender.file.file.left = none)) fail d := by
  unfold onAppender PagedFileAppender.onFile
  rw [Method.wp_on, Method.wp_on]
  refine Method.wp_mono (AsyncFile.flush_spec fun hleft _ => hfail hleft _) ?_ fun _ h => h
  rintro _ file ⟨hcontent, _, haligned, hleft⟩
  exact ⟨⟨h.pos, h.valid, haligned h.aligned, hcontent.trans h.content, h.page⟩, hleft⟩

/-- What a flush adds is a payload of zeros. -/
theorem exists_padRecord (payloads : List Bytes) :
    ∃ more : List Bytes, contents payloads ++ padRecord (contents payloads).length =
        contents (payloads ++ more) ∧
      (∀ payload ∈ more, payload ≠ [] ∧ payload.length < 2 ^ 24) ∧
      List.Forall₂ Reads (padOf (contents payloads).length)
        (positioned payloads more) := by
  unfold padRecord padOf
  split_ifs with h
  · obtain ⟨_, _, hlt⟩ := length_padding (contents payloads).length
    have hsmall : 2 * pageSize = 8192 := rfl
    refine ⟨[_], (contents_append payloads _).symm, ?_, ?_⟩
    · simp only [List.mem_singleton, forall_eq]
      refine ⟨List.cons_ne_nil _ _, ?_⟩
      simp only [List.length_cons, List.length_append, beBytes_length]
      omega
    · exact .cons ⟨rfl, Payload.deserialize_serialize (fits_padding _) (serialize_padding _)⟩ .nil
  · exact ⟨[], by simp, by simp, .nil⟩

/-- **Every run** makes a list of records. -/
theorem Run.lists {records : List (Nat × Payload)} (h : Run records d) :
    ∃ payloads, d.appender.Holds (contents payloads) ∧
      (∀ payload ∈ payloads, payload ≠ [] ∧ payload.length < 2 ^ 24) ∧
      List.Forall₂ Reads records (positioned [] payloads) := by
  induction h with
  | new hqueue hcontent hnew =>
    obtain ⟨d', hd', hholds, _⟩ := new_spec hqueue (by simp [hcontent]) (by simp [hcontent]; decide)
    rw [hnew] at hd'
    cases hd'
    rw [hcontent] at hholds
    exact ⟨[], hholds, by simp, .nil⟩
  | @append records d d' p me _ hfits hrun ih =>
    obtain ⟨payloads, hholds, hsmall, hreads⟩ := ih
    obtain ⟨rfl, ⟨payload, hpayload, hlt, hholds'⟩, _⟩ := Method.wp.ok_of_run
      (fun _ hfail => appendPayload_spec (fun _ => hfail) hholds hfits) hrun
    -- a record without bytes could not be read back
    have hne : payload ≠ [] := by
      rintro rfl
      cases Payload.deserialize_serialize hfits hpayload
    rw [← contents_append] at hholds'
    refine ⟨payloads ++ [payload], hholds', ?_, ?_⟩
    · simp only [List.mem_append, List.mem_singleton]
      rintro q (hq | rfl)
      · exact hsmall q hq
      · exact ⟨hne, hlt⟩
    · rw [positioned_append, List.nil_append]
      refine List.rel_append hreads (.cons ⟨rfl, ?_⟩ .nil)
      exact Payload.deserialize_serialize hfits hpayload
  -- the padding is a list of records itself
  | flush _ hrun ih =>
    obtain ⟨payloads, hholds, hsmall, hreads⟩ := ih
    obtain ⟨hholds', _⟩ := Method.wp.ok_of_run
      (fun _ hfail => flush_spec (fun _ => hfail) hholds) hrun
    obtain ⟨more, hcontents, hmore, hpad⟩ := exists_padRecord payloads
    rw [hcontents] at hholds'
    rw [hholds.pos]
    refine ⟨payloads ++ more, hholds', ?_, ?_⟩
    · intro q hq
      rcases List.mem_append.mp hq with hq | hq
      · exact hsmall q hq
      · exact hmore q hq
    · rw [positioned_append, List.nil_append]
      exact List.rel_append hreads hpad
  | background _ hrun ih =>
    obtain ⟨payloads, hholds, hsmall, hreads⟩ := ih
    obtain ⟨hholds', _⟩ := Method.wp.ok_of_run
      (fun _ hfail => background_spec (fun _ => hfail) hholds) hrun
    exact ⟨payloads, hholds', hsmall, hreads⟩

/-- **The data file** gives every record back at the pref that was returned for it, and the
iterator lists the records in the order in which they were appended. -/
theorem Run.readsBack {records : List (Nat × Payload)} (h : Run records d)
    (hvalid : d.appender.pos + 3 < PRef.invalid) :
    (∀ r ∈ records, ∃ payload, d.getEnvelope r.1 = .ok payload ∧
      Payload.deserialize payload = .ok r.2) ∧
      ∀ n, ∃ envelopes, d.envelopes n 0 = .ok envelopes ∧
        List.Forall₂ Reads (records.take n) envelopes := by
  obtain ⟨payloads, hholds, hsmall, hreads⟩ := h.lists
  constructor
  · intro r hr
    obtain ⟨⟨i, hi⟩, rfl⟩ := List.mem_iff_get.mp hr
    have hread := hreads.get hi (hreads.length_eq ▸ hi)
    have hmem := List.get_mem (positioned [] payloads) ⟨i, hreads.length_eq ▸ hi⟩
    have hrecord := recordAt_of_mem_positioned hsmall hmem
    rw [hread.1, List.nil_append] at hrecord
    exact ⟨_, getEnvelope_of_recordAt hholds hrecord, hread.2⟩
  · intro n
    rw [hholds.pos] at hvalid
    exact ⟨_, envelopes_contents hholds hsmall hvalid n (List.nil_append _),
      List.forall₂_take n hreads⟩

/-- Where a record was appended, and where it ends. -/
theorem Run.pos_append {records : List (Nat × Payload)} (h : Run records d) {p : Payload}
    (hfits : p.Fits) {me : Nat} (hrun : (appendPayload p).run d = (d', .ok me)) :
    me = d.appender.pos ∧ ∃ payload, p.serialize = .ok payload ∧
      d'.appender.pos = me + (envelopeBytes payload).length := by
  obtain ⟨payloads, hholds, _⟩ := h.lists
  obtain ⟨rfl, ⟨payload, hpayload, _, hholds'⟩, _⟩ := Method.wp.ok_of_run
    (fun _ hfail => appendPayload_spec (fun _ => hfail) hholds hfits) hrun
  refine ⟨hholds.pos.symm, payload, hpayload, ?_⟩
  rw [hholds'.pos, List.length_append]

/-- Where the page ends that a flush has filled. -/
theorem Run.pos_flush {records : List (Nat × Payload)} (h : Run records d)
    (hrun : DataFile.flush.run d = (d', .ok ())) :
    d'.appender.pos = d.appender.pos + (padRecord d.appender.pos).length := by
  obtain ⟨payloads, hholds, _⟩ := h.lists
  obtain ⟨hholds', _⟩ := Method.wp.ok_of_run
    (fun _ hfail => flush_spec (fun _ => hfail) hholds) hrun
  rw [hholds'.pos, List.length_append, hholds.pos]

/-! ### Runs that go on -/

/-- A record is appended where there is room for it. -/
theorem Run.append_ok {records : List (Nat × Payload)} (h : Run records d) {p : Payload}
    (hfits : p.Fits) {payload : Bytes} (hpayload : p.serialize = .ok payload)
    (hlt : payload.length < 2 ^ 24) (hroom : d.appender.pos + payload.length + 3 < PRef.invalid) :
    ∃ d', Run (records ++ [(d.appender.pos, p)]) d' ∧
      d'.appender.pos = d.appender.pos + payload.length + 3 ∧
      d'.appender.file.file = d.appender.file.file := by
  obtain ⟨payloads, hholds, _⟩ := h.lists
  have hpos := hholds.pos
  rw [hpos] at hroom ⊢
  obtain ⟨d', hrun, hholds'⟩ := appendPayload_ok hholds hpayload hlt hroom
  have hfile := keeps_appendPayload p d
  rw [hrun] at hfile
  refine ⟨d', .append h hfits hrun, ?_, hfile⟩
  rw [hholds'.pos, List.length_append, length_envelopeBytes, Nat.add_assoc]

/-- The page is filled where no write fails. -/
theorem Run.flush_ok {records : List (Nat × Payload)} (h : Run records d) (hw : d.Writable) :
    ∃ d', Run (records ++ padOf d.appender.pos) d' ∧
      d'.appender.pos = d.appender.pos + (padRecord d.appender.pos).length ∧
      d'.appender.file.file.left = none := by
  obtain ⟨payloads, hholds, _⟩ := h.lists
  have hspec : DataFile.flush.wp _ (fun _ => False) d :=
    flush_spec (fun hnot => absurd hw hnot) hholds
  obtain ⟨d', _, hrun, _, _, _, _, hleft⟩ := hspec.exists_run
  exact ⟨d', .flush h hrun, h.pos_flush hrun, hleft hw.left⟩

/-- The background writes the queue where no write fails. -/
theorem Run.background_ok {records : List (Nat × Payload)} (h : Run records d)
    (hleft : d.appender.file.file.left = none) :
    ∃ d', Run records d' ∧ d'.appender.pos = d.appender.pos ∧
      d'.appender.file.file.left = none := by
  obtain ⟨payloads, hholds, _⟩ := h.lists
  have hspec : (onAppender (PagedFileAppender.onFile AsyncFile.background)).wp _
      (fun _ => False) d := background_spec (fun hnot => absurd hleft hnot) hholds
  obtain ⟨d', _, hrun, hholds', hleft'⟩ := hspec.exists_run
  exact ⟨d', .background h hrun, by rw [hholds'.pos, hholds.pos], hleft' hleft⟩

/-- A data file without records. -/
def empty : DataFile := ⟨PagedFileAppender.new (AsyncFile.new ⟨[], none⟩) 0⟩

/-- A record that is longer than a page, one behind it, a flush, and one on the next page. -/
def someRecords : List (Nat × Payload) :=
  [(0, .referred (List.replicate 5000 7)), (5007, .indexed [1] [8])] ++ padOf 5017 ++
    [(8192, .referred [9])]

theorem exists_run_someRecords : ∃ d, Run someRecords d ∧ d.appender.pos = 8200 := by
  have hlength : (List.replicate 5000 (7 : UInt8)).length = 5000 := List.length_replicate
  obtain ⟨payload, hpayload, hsize⟩ :=
    @Payload.exists_serialize_referred (List.replicate 5000 7) (by rw [hlength]; decide)
  rw [hlength] at hsize
  have hfits : (Payload.referred (List.replicate 5000 7)).Fits := by
    show (List.replicate 5000 (7 : UInt8)).length < 2 ^ 31
    rw [hlength]
    decide
  have hnew : Run [] empty := @Run.new ⟨⟨[], none⟩, []⟩ empty rfl rfl rfl
  have hzero : empty.appender.pos = 0 := rfl
  obtain ⟨d₁, h₁, hpos₁, hfile₁⟩ := hnew.append_ok hfits hpayload (by rw [hsize]; decide)
    (by rw [hsize]; decide)
  rw [hsize, hzero] at hpos₁
  obtain ⟨d₂, h₂, hpos₂, hleft₂⟩ := h₁.background_ok (by rw [hfile₁]; rfl)
  have hpos₂ : d₂.appender.pos = 5007 := hpos₂.trans hpos₁
  obtain ⟨d₃, h₃, hpos₃, hfile₃⟩ := @Run.append_ok _ _ h₂ (.indexed [1] [8]) (by decide)
    [0, 1, 1, 0, 0, 1, 8] rfl (by decide) (by rw [hpos₂]; decide)
  rw [hpos₂] at hpos₃ h₃
  have hpos₃ : d₃.appender.pos = 5017 := hpos₃
  have hpage : (padRecord 5017).length = 3175 := length_padRecord (by decide) (by decide)
  obtain ⟨d₄, h₄, hpos₄, _⟩ := h₃.flush_ok ⟨by rw [hfile₃, hleft₂], by rw [hpos₃]; decide⟩
  rw [hpos₃] at hpos₄ h₄
  rw [hpage] at hpos₄
  have hpos₄ : d₄.appender.pos = 8192 := hpos₄
  obtain ⟨d₅, h₅, hpos₅, _⟩ := @Run.append_ok _ _ h₄ (.referred [9]) (by decide)
    [1, 0, 0, 1, 9] rfl (by decide) (by rw [hpos₄]; decide)
  rw [hpos₄] at hpos₅ h₅
  exact ⟨d₅, h₅, hpos₅⟩

theorem readsBack_appended : ∃ d, Run someRecords d ∧
    ((∀ r ∈ someRecords, ∃ payload, d.getEnvelope r.1 = .ok payload ∧
      Payload.deserialize payload = .ok r.2) ∧
      ∀ n, ∃ envelopes, d.envelopes n 0 = .ok envelopes ∧
        List.Forall₂ Reads (someRecords.take n) envelopes) := by
  obtain ⟨d, hrun, hpos⟩ := exists_run_someRecords
  exact ⟨d, hrun, hrun.readsBack (by rw [hpos]; decide)⟩

end DataFile

end Cashbox.Hammersbald
