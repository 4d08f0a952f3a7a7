import Cashbox.Lib.Method
import Cashbox.Eth.Sign

/-!
# Decoding a raw transaction

`RawTransaction::decode` reads an RLP list of 6 or 9 items into a transaction that is
there already. It assigns every field as soon as it is read, so a list whose later
items are malformed leaves the earlier fields overwritten. A recipient that cannot be
read is taken for none, which is a contract creation.
-/

namespace Cashbox.Eth

open Cashbox.Lib Cashbox.Lib.Rlp

namespace RawTransaction

/-! ## Decoding -/

section Decode

variable {ε α : Type}

/-- The list of the fields, with the chain id and its two empty fields where a chain id
is given. -/
def rlpList (tx : RawTransaction) (chainId : Option UInt64) : Outcome ε Bytes := do
  let stream ← written do
    beginUnboundedList
    tx.encode
    appendChainId chainId
    finalizeUnboundedList
  stream.out

/-- Assigns a field what was read, if it was read. -/
def assign (read : Outcome DecoderError α) (write : RawTransaction → α → RawTransaction) :
    Method RawTransaction DecoderError Unit := do
  let a ← Method.lift read
  Method.modify fun tx => write tx a

/-- The recipient: an item that is no address is taken for none. -/
def recipientOf (rlp : View) : Option H160 :=
  match rlp.valAt h160 3 with
  | .ok t => some t
  | _ => none

/-- The assignments of `decode`, each of which may return early. -/
def assignFields (rlp : View) : Method RawTransaction DecoderError Unit := do
  assign (rlp.valAt u256 0) fun tx nonce => { tx with nonce }
  assign (rlp.valAt u256 1) fun tx gasPrice => { tx with gasPrice }
  assign (rlp.valAt u256 2) fun tx gas => { tx with gas }
  Method.modify fun tx => { tx with toAddress := recipientOf rlp }
  assign (rlp.valAt u256 4) fun tx value => { tx with value }
  assign (rlp.valAt Codec.bytes 5) fun tx data => { tx with data }

def decode (data : Bytes) : Method RawTransaction DecoderError Unit := do
  let rlp := View.new data
  let count ← Method.lift rlp.itemCount
  if count ≠ 6 ∧ count ≠ 9 then Method.lift (.err .rlpIncorrectListLen)
  else assignFields rlp

end Decode

/-! ## Faithful decoding -/

/-- What decoding `data` into `target` has to satisfy. -/
structure Faithful (target : RawTransaction) (data : Bytes) : Prop where
  /-- The list of a transaction is decoded to it. -/
  roundTrip : ∀ tx chainId, tx.rlpList chainId = (.ok data : Outcome DecoderError _) →
    (decode data).run target = (tx, .ok ())
  /-- What is accepted has a fourth item that is empty, for no recipient, or the 20
  bytes of the recipient. -/
  recipient : ∀ tx, (decode data).run target = (tx, .ok ()) →
    ∃ item bytes, (View.new data).itemAt 3 = .ok item ∧ item.dataValue = .ok bytes ∧
      ((bytes = [] ∧ tx.toAddress = none) ∨
        (bytes.length = 20 ∧ tx.toAddress = some (BitVec.ofNat 160 (ofBe bytes))))
  /-- What is refused leaves the target as it is. -/
  refused : ((decode data).run target).2.IsErr → ((decode data).run target).1 = target

/-- The condition: an accepted list names its recipient properly, and where an item
cannot be read, the target already holds what was read before it. -/
def DecodeOk (target : RawTransaction) (data : Bytes) : Prop :=
  let rlp := View.new data
  ∀ count, rlp.itemCount = .ok count → count = 6 ∨ count = 9 →
    ∀ nonce, rlp.valAt u256 0 = .ok nonce →
      match rlp.valAt u256 1, rlp.valAt u256 2, rlp.valAt u256 4, rlp.valAt Codec.bytes 5 with
      | .ok _, .ok _, .ok _, .ok _ =>
        ∃ item bytes, rlp.itemAt 3 = .ok item ∧ item.dataValue = .ok bytes ∧
          (bytes = [] ∨ bytes.length = 20)
      | .ok gasPrice, .ok gas, .ok value, _ =>
        { target with nonce, gasPrice, gas, value, toAddress := recipientOf rlp } = target
      | .ok gasPrice, .ok gas, _, _ =>
        { target with nonce, gasPrice, gas, toAddress := recipientOf rlp } = target
      | .ok gasPrice, _, _, _ => { target with nonce, gasPrice } = target
      | _, _, _, _ => { target with nonce } = target

/-! ## Reading one field -/

section Fields

variable {α : Type} {v : View} {c : Codec α} {target : RawTransaction}

/-- What never panics is read or refused. -/
theorem valAt_cases (v : View) (hc : ∀ w p, (c.decode w).Avoids p) (index : Nat) :
    (∃ a, v.valAt c index = .ok a) ∨ ∃ e, v.valAt c index = .err e := by
  have havoids : ∀ p, (v.valAt c index).Avoids p := fun p =>
    (View.itemAt_avoids p v index).bind fun w => hc w p
  cases hread : v.valAt c index with
  | ok a => exact .inl ⟨a, rfl⟩
  | err e => exact .inr ⟨e, rfl⟩
  | panic p => exact absurd hread (havoids p)

theorem u256_avoids (w : View) (p : Panic) : (u256.decode w).Avoids p := by
  have hread : (decodeUnsigned 32 w).Avoids p := by
    apply (View.dataValue_avoids p w).bind
    intro bytes
    split_ifs
    · exact Outcome.avoids_err p _
    · exact Outcome.avoids_err p _
    · exact Outcome.avoids_ok p _
  exact hread.bind fun n => Outcome.avoids_ok p _

theorem bytes_avoids (w : View) (p : Panic) : (Codec.bytes.decode w).Avoids p :=
  View.dataValue_avoids p w

theorem run_assign_of_ok {a : α} {write : RawTransaction → α → RawTransaction}
    {m : Method RawTransaction DecoderError Unit} :
    (assign (.ok a) write >>= fun _ => m).run target = m.run (write target a) := rfl

theorem run_assign_of_err {e : DecoderError} {write : RawTransaction → α → RawTransaction}
    {m : Method RawTransaction DecoderError Unit} :
    (assign (.err e) write >>= fun _ => m).run target = (target, .err e) := rfl

theorem run_modify_recipient {rlp : View} {m : Method RawTransaction DecoderError Unit} :
    ((Method.modify fun tx => { tx with toAddress := recipientOf rlp }) >>= fun _ => m).run
      target = m.run { target with toAddress := recipientOf rlp } := rfl

/-- The recipient of a list whose fourth item is a string. -/
theorem recipientOf_eq {item : View} (hitem : v.itemAt 3 = .ok item) {bytes : Bytes}
    (hbytes : item.dataValue = .ok bytes) :
    (bytes = [] → recipientOf v = none) ∧
      (bytes.length = 20 → recipientOf v = some (BitVec.ofNat 160 (ofBe bytes))) := by
  have hread : v.valAt h160 3 = (if bytes.length < 20 then .err .rlpIsTooShort
      else if 20 < bytes.length then .err .rlpIsTooBig
      else .ok (ofBe bytes)) >>= fun n => .ok (BitVec.ofNat 160 n) := by
    unfold View.valAt
    rw [hitem]
    show (decodeFixed 20 item >>= _) = _
    unfold decodeFixed
    rw [hbytes]
    rfl
  unfold recipientOf
  rw [hread]
  constructor
  · rintro rfl
    rfl
  · intro hlength
    rw [hlength]
    rfl

end Fields

/-! ## Runs of the decoder -/

section Runs

variable {data : Bytes} {count : Nat} {target : RawTransaction}

theorem run_decode (h : (View.new data).itemCount = .ok count) (hcount : count = 6 ∨ count = 9) :
    (decode data).run target = (assignFields (.new data)).run target := by
  have hlift : (Method.lift (View.new data).itemCount :
      Method RawTransaction DecoderError Nat).run target = (target, .ok count) := by
    rw [Method.run_lift, h]
  have hlength : ¬ (count ≠ 6 ∧ count ≠ 9) := by omega
  unfold decode
  rw [Method.run_bind_of_ok hlift, if_neg hlength]

/-- A list of another length is refused at once. -/
theorem run_decode_of_count (h : (View.new data).itemCount = .ok count)
    (hcount : ¬ (count = 6 ∨ count = 9)) :
    (decode data).run target = (target, .err .rlpIncorrectListLen) := by
  have hlift : (Method.lift (View.new data).itemCount :
      Method RawTransaction DecoderError Nat).run target = (target, .ok count) := by
    rw [Method.run_lift, h]
  have hlength : count ≠ 6 ∧ count ≠ 9 := by omega
  unfold decode
  rw [Method.run_bind_of_ok hlift, if_pos hlength]
  rfl

/-- The items of a list that is written for a transaction. -/
def trailer : Option UInt64 → List Item
  | some n => [u64.encode n, u8.encode 0, u8.encode 0]
  | none => []

theorem rlpList_eq (tx : RawTransaction) (chainId : Option UInt64) :
    (tx.rlpList chainId : Outcome DecoderError Bytes) =
      .ok (Item.list (tx.toTransaction.items ++ trailer chainId)).encode := by
  have htrailer : Writes (appendChainId chainId : RlpWriter DecoderError Unit)
      (trailer chainId) := by
    cases chainId with
    | none => exact Writes.nil
    | some n => exact writes_appendChainId n
  have hwrites := (tx.writes_encode.seq htrailer).unboundedList
  rw [bind_assoc] at hwrites
  unfold rlpList
  rw [hwrites.written]
  rfl

/-- The list of a transaction is read back. -/
theorem decode_rlpList (hsize : data.length < 2 ^ 64) {tx : RawTransaction}
    {chainId : Option UInt64} (h : tx.rlpList chainId = (.ok data : Outcome DecoderError _)) :
    (decode data).run target = (tx, .ok ()) := by
  rw [rlpList_eq, Outcome.ok.injEq] at h
  subst h
  have hdata := View.reads_encode hsize
  -- six items without a chain id, nine with one
  have hcount : (tx.toTransaction.items ++ trailer chainId).length = 6 ∨
      (tx.toTransaction.items ++ trailer chainId).length = 9 := by
    cases chainId with
    | none => exact .inl rfl
    | some n => exact .inr rfl
  -- the recipient is read from the fourth item
  have hto : recipientOf (.new (Item.list (tx.toTransaction.items ++ trailer chainId)).encode) =
      tx.toAddress := by
    cases hcase : tx.toAddress with
    | none =>
      have hfourth : (tx.toTransaction.items ++ trailer chainId)[3]? = some (.data []) := by
        show some tx.toTransaction.action.item = _
        unfold toTransaction
        rw [hcase]
        rfl
      have hempty := hdata.ofItem_mem (List.mem_of_getElem? hfourth)
      exact (recipientOf_eq (hdata.itemAt_eq_ok.mpr ⟨_, hfourth, rfl⟩) hempty.dataValue).1 rfl
    | some address =>
      have hread : (View.new (Item.list (tx.toTransaction.items ++ trailer chainId)).encode).valAt
          h160 3 = .ok address := by
        apply hdata.valAt.mpr
        show some tx.toTransaction.action.item = _
        unfold toTransaction
        rw [hcase]
        rfl
      unfold recipientOf
      rw [hread]
  rw [run_decode hdata.itemCount hcount]
  unfold assignFields
  rw [hdata.valAt.mpr (rfl : _ = some (u256.encode tx.nonce)),
    hdata.valAt.mpr (rfl : _ = some (u256.encode tx.gasPrice)),
    hdata.valAt.mpr (rfl : _ = some (u256.encode tx.gas)),
    hdata.valAt.mpr (rfl : _ = some (u256.encode tx.value)),
    hdata.valAt.mpr (rfl : _ = some (Codec.bytes.encode tx.data)), hto]
  rfl

/-- A refusal is faithful when the target is what it was. -/
theorem faithful_iff_of_err (hsize : data.length < 2 ^ 64) {tx : RawTransaction}
    {e : DecoderError} (hrun : (decode data).run target = (tx, .err e)) :
    Faithful target data ↔ tx = target := by
  constructor
  · intro h
    have hrefused := h.refused
    rw [hrun] at hrefused
    exact hrefused trivial
  · intro htx
    refine ⟨?_, ?_, ?_⟩
    · intro tx' chainId hlist
      exact decode_rlpList hsize hlist
    · intro tx' hok
      rw [hrun] at hok
      cases hok
    · intro _
      rw [hrun]
      exact htx

/-- A list that is accepted is faithful when its fourth item is a recipient. -/
theorem faithful_iff_of_ok (hsize : data.length < 2 ^ 64) {tx : RawTransaction}
    (hrun : (decode data).run target = (tx, .ok ()))
    (hto : tx.toAddress = recipientOf (.new data)) :
    Faithful target data ↔
      ∃ item bytes, (View.new data).itemAt 3 = .ok item ∧ item.dataValue = .ok bytes ∧
        (bytes = [] ∨ bytes.length = 20) := by
  constructor
  · intro h
    obtain ⟨item, bytes, hitem, hbytes, hcase⟩ := h.recipient tx hrun
    exact ⟨item, bytes, hitem, hbytes, hcase.imp And.left And.left⟩
  · rintro ⟨item, bytes, hitem, hbytes, hcase⟩
    obtain ⟨hnone, hsome⟩ := recipientOf_eq hitem hbytes
    refine ⟨fun tx' chainId hlist => decode_rlpList hsize hlist, ?_, ?_⟩
    · intro tx' hok
      rw [hrun] at hok
      cases hok
      refine ⟨item, bytes, hitem, hbytes, ?_⟩
      rw [hto]
      exact hcase.imp (fun hempty => ⟨hempty, hnone hempty⟩)
        fun hlength => ⟨hlength, hsome hlength⟩
    · intro herr
      rw [hrun] at herr
      exact herr.elim

end Runs

/-- **Faithful decoding.** For every target and every byte string, decoding is faithful
exactly under the condition. -/
theorem faithful_iff_decodeOk (target : RawTransaction) {data : Bytes}
    (hsize : data.length < 2 ^ 64) : Faithful target data ↔ DecodeOk target data := by
  cases hitems : (View.new data).itemCount with
  | panic p => exact absurd hitems (View.itemCount_avoids p _)
  | err e =>
    have hrun : (decode data).run target = (target, .err e) := by
      unfold decode
      dsimp only
      rw [hitems]
      rfl
    rw [faithful_iff_of_err hsize hrun]
    simp [DecodeOk, hitems]
  | ok count =>
    by_cases hcount : count = 6 ∨ count = 9
    · have hrun : (decode data).run target = _ := run_decode hitems hcount
      -- the fields in the order of their assignments; the first refusal ends the run
      rcases valAt_cases (.new data) u256_avoids 0 with ⟨nonce, hnonce⟩ | ⟨e, hnonce⟩
      · rcases valAt_cases (.new data) u256_avoids 1 with ⟨gasPrice, hprice⟩ | ⟨e, hprice⟩
        · rcases valAt_cases (.new data) u256_avoids 2 with ⟨gas, hgas⟩ | ⟨e, hgas⟩
          · rcases valAt_cases (.new data) u256_avoids 4 with ⟨value, hvalue⟩ | ⟨e, hvalue⟩
            · rcases valAt_cases (.new data) bytes_avoids 5 with ⟨bytes, hdata⟩ | ⟨e, hdata⟩
              · unfold assignFields at hrun
                rw [hnonce, run_assign_of_ok, hprice, run_assign_of_ok, hgas, run_assign_of_ok,
                  run_modify_recipient, hvalue, run_assign_of_ok, hdata] at hrun
                rw [faithful_iff_of_ok hsize hrun rfl]
                simp [DecodeOk, hitems, hcount, hnonce, hprice, hgas, hvalue, hdata]
              · unfold assignFields at hrun
                rw [hnonce, run_assign_of_ok, hprice, run_assign_of_ok, hgas, run_assign_of_ok,
                  run_modify_recipient, hvalue, run_assign_of_ok, hdata] at hrun
                rw [faithful_iff_of_err hsize hrun]
                simp [DecodeOk, hitems, hcount, hnonce, hprice, hgas, hvalue, hdata]
            · unfold assignFields at hrun
              rw [hnonce, run_assign_of_ok, hprice, run_assign_of_ok, hgas, run_assign_of_ok,
                run_modify_recipient, hvalue, run_assign_of_err] at hrun
              rw [faithful_iff_of_err hsize hrun]
              simp [DecodeOk, hitems, hcount, hnonce, hprice, hgas, hvalue]
          · unfold assignFields at hrun
            rw [hnonce, run_assign_of_ok, hprice, run_assign_of_ok, hgas, run_assign_of_err] at hrun
            rw [faithful_iff_of_err hsize hrun]
            simp [DecodeOk, hitems, hcount, hnonce, hprice, hgas]
        · unfold assignFields at hrun
          rw [hnonce, run_assign_of_ok, hprice, run_assign_of_err] at hrun
          rw [faithful_iff_of_err hsize hrun]
          simp [DecodeOk, hitems, hcount, hnonce, hprice]
      · unfold assignFields at hrun
        rw [hnonce, run_assign_of_err] at hrun
        rw [faithful_iff_of_err hsize hrun]
        simp [DecodeOk, hitems, hnonce]
    · rw [faithful_iff_of_err hsize (run_decode_of_count hitems hcount)]
      simp [DecodeOk, hitems, hcount]

/-! ## A list on each side of the condition -/

/-- The fields of a payment of 1000 wei, with a given recipient item. -/
def unitItems (recipient : Bytes) : List Item :=
  [u256.encode 1, u256.encode 20, u256.encode 21000, .data recipient, u256.encode 1000, .data []]

/-- The transaction that `decode` makes of these items without a recipient. -/
def unitCreation : RawTransaction := { unitRaw with toAddress := none }

/-- With a recipient of 20 bytes decoding is faithful. -/
theorem faithful_iff_decodeOk_call :
    Faithful unitCreation (Item.list (unitItems (beBytes 20 0x35))).encode := by
  have hsize : (Item.list (unitItems (beBytes 20 0x35))).encode.length < 2 ^ 64 := by
    decide +kernel
  apply (faithful_iff_decodeOk unitCreation hsize).mpr
  have hdata := View.reads_encode hsize
  intro count _ _ nonce _
  rw [hdata.valAt.mpr (rfl : _ = some (u256.encode 20)),
    hdata.valAt.mpr (rfl : _ = some (u256.encode 21000)),
    hdata.valAt.mpr (rfl : _ = some (u256.encode 1000)),
    hdata.valAt.mpr (rfl : _ = some (Codec.bytes.encode []))]
  have hfourth : (unitItems (beBytes 20 0x35))[3]? = some (.data (beBytes 20 0x35)) := rfl
  have hrecipient := hdata.ofItem_mem (List.mem_of_getElem? hfourth)
  exact ⟨_, beBytes 20 0x35, hdata.itemAt_eq_ok.mpr ⟨_, hfourth, rfl⟩, hrecipient.dataValue,
    .inr (beBytes_length 20 0x35)⟩

/-- A recipient of 19 bytes is accepted as a contract creation. -/
theorem not_faithful_of_short_recipient :
    ¬ ∀ (target : RawTransaction) (data : Bytes), data.length < 2 ^ 64 → Faithful target data := by
  intro hall
  have hsize : (Item.list (unitItems (beBytes 19 0x35))).encode.length < 2 ^ 64 := by
    decide +kernel
  have hrun : (decode (Item.list (unitItems (beBytes 19 0x35))).encode).run unitRaw =
      (unitCreation, .ok ()) := by decide +kernel
  obtain ⟨item, bytes, hitem, hbytes, hcase⟩ := (hall unitRaw _ hsize).recipient _ hrun
  -- the fourth item is the string of these 19 bytes
  have hdata := View.reads_encode hsize
  obtain ⟨x, hfourth, rfl⟩ := hdata.itemAt_eq_ok.mp hitem
  cases hfourth
  have hrecipient := hdata.ofItem_mem (x := .data (beBytes 19 0x35)) (by simp [unitItems])
  cases hrecipient.dataValue.symm.trans hbytes
  rcases hcase with ⟨hempty, _⟩ | ⟨hlength, _⟩
  · exact absurd hempty (by decide)
  · exact absurd hlength (by decide)

end RawTransaction

end Cashbox.Eth
