import Cashbox.Lib.UniqueTable
import Cashbox.Eee.EventRecords
import Cashbox.Eee.TxSign

/-!
# Results of extrinsics

`decode_events` of the chain helper turns the events of a block into a map from the index
of an extrinsic to whether it succeeded. An event that belongs to no extrinsic counts for
the first one, and the last of several events for one extrinsic decides.
-/

namespace Cashbox.Eee

open Cashbox.Lib Cashbox.Scale

variable {E I : Type} (dispatch : DispatchCodecs E I)

/-! ## The map -/

/-- The entry that an event makes. -/
def txResult (x : Phase × RuntimeEvent E I) : Option (Nat × Bool) :=
  let index := match x.1 with
    | .applyExtrinsic index => index.toNat
    | _ => 0
  match x.2 with
  | .system (.extrinsicSuccess _) => some (index, true)
  | .system (.extrinsicFailed _ _) => some (index, false)
  | _ => none

def ChainHelper.decodeEvents (helper : ChainHelper) (eventStr : Text)
    (decoder : Option EventsDecoder) : Outcome Error (List (Nat × Bool)) := do
  let unhex ← (Eth.hexstrToVec eventStr).mapErr .hexError
  let eventDecoder := decoder.getD (.ofMetadata helper.metadata)
  let events ← ((eventDecoder.decodeEvents dispatch).run ⟨unhex, []⟩).2.mapErr .eventsError
  .ok (hashMapOf (events.filterMap txResult))

/-! ## Results of records -/

namespace EventRecord

/-- The result that a record reports. -/
def status (r : EventRecord E I) : Option Bool :=
  match r.event with
  | .system (.extrinsicSuccess _) => some true
  | .system (.extrinsicFailed _ _) => some false
  | _ => none

/-- The record reports a result of the extrinsic with an index. -/
def Applies (r : EventRecord E I) (index : Nat) (success : Bool) : Prop :=
  r.status = some success ∧ ∃ i : UInt32, r.phase = .applyExtrinsic i ∧ i.toNat = index

end EventRecord

/-- Every result belongs to an extrinsic, and no extrinsic has two different ones. -/
structure StatusesOk (records : List (EventRecord E I)) : Prop where
  applies : ∀ r ∈ records, r.status.isSome → ∃ i, r.phase = .applyExtrinsic i
  single : ∀ index, ¬ ((∃ r ∈ records, r.Applies index true) ∧
    ∃ r ∈ records, r.Applies index false)

/-- The entry of a record is made of its result. -/
theorem txResult_of_describes {d : EventsDecoder} {r : EventRecord E I}
    {entry : Phase × RuntimeEvent E I} (h : r.Describes d entry)
    (happlies : r.status.isSome → ∃ i, r.phase = .applyExtrinsic i) (index : Nat)
    (success : Bool) : txResult entry = some (index, success) ↔ r.Applies index success := by
  obtain ⟨phase, event⟩ := entry
  obtain ⟨hphase, hevent⟩ := h
  obtain rfl : phase = r.phase := hphase
  -- a record with a result is one of the two events of the system, for an extrinsic
  have hstatus : ∀ s, r.status = some s → ∃ i : UInt32, r.phase = .applyExtrinsic i ∧
      (txResult (r.phase, event) = some (index, success) ↔ i.toNat = index ∧ s = success) := by
    intro s hs
    obtain ⟨i, hi⟩ := happlies (by rw [hs]; rfl)
    refine ⟨i, hi, ?_⟩
    unfold EventRecord.status at hs
    split at hs
    · rename_i info hvalue
      rw [hvalue] at hevent
      obtain rfl : event = .system (.extrinsicSuccess info) := hevent
      obtain rfl := Option.some.inj hs
      simp [txResult, hi]
    · rename_i error info hvalue
      rw [hvalue] at hevent
      obtain rfl : event = .system (.extrinsicFailed error info) := hevent
      obtain rfl := Option.some.inj hs
      simp [txResult, hi]
    · cases hs
  cases hs : r.status with
  | some s =>
    obtain ⟨i, hi, hiff⟩ := hstatus s hs
    rw [hiff, EventRecord.Applies, hs, hi]
    simp [and_comm, eq_comm]
  | none =>
    -- any other event is no result
    have hnone : txResult (r.phase, event) = none := by
      cases hvalue : r.event with
      | system e =>
        rw [hvalue] at hevent
        obtain rfl : event = .system e := hevent
        cases e with
        | extrinsicSuccess info => simp [EventRecord.status, hvalue] at hs
        | extrinsicFailed error info => simp [EventRecord.status, hvalue] at hs
        | codeUpdated => rfl
        | newAccount account => rfl
        | killedAccount account => rfl
      | raw variant args =>
        rw [hvalue] at hevent
        obtain ⟨module, metadata, data, _, _, rfl⟩ := hevent
        rfl
    simp [hnone, EventRecord.Applies, hs]

/-- The entries of a list of records are the results that the records report. -/
theorem mem_filterMap_txResult {d : EventsDecoder} {records : List (EventRecord E I)}
    {entries : List (Phase × RuntimeEvent E I)}
    (h : List.Forall₂ (fun r entry => r.Describes d entry) records entries)
    (happlies : ∀ r ∈ records, r.status.isSome → ∃ i, r.phase = .applyExtrinsic i)
    (index : Nat) (success : Bool) :
    (index, success) ∈ entries.filterMap txResult ↔ ∃ r ∈ records, r.Applies index success := by
  induction h with
  | nil => simp
  | @cons r entry records entries hdescribes _ ih =>
    have hentry := txResult_of_describes hdescribes (happlies r List.mem_cons_self) index success
    have hrest := ih fun r hr => happlies r (List.mem_cons_of_mem _ hr)
    rw [List.mem_filterMap] at hrest ⊢
    simp only [List.mem_cons, exists_eq_or_imp, hentry, hrest]

/-- Where every record can be decoded and no result is ambiguous, each record is consumed
exactly and described by its entry, and the map has the results of the extrinsics. -/
theorem decodeEvents_exact (helper : ChainHelper) (decoder : Option EventsDecoder)
    (records : List (EventRecord E I)) (hlength : records.length < 2 ^ 32)
    (hwell : ∀ r ∈ records, r.WellFormed (decoder.getD (.ofMetadata helper.metadata)))
    (hdec : ∀ r ∈ records, r.Decodable dispatch (decoder.getD (.ofMetadata helper.metadata)))
    (hstatus : StatusesOk records) :
    (∃ entries,
      List.Forall₂
        (fun r entry => r.Describes (decoder.getD (.ofMetadata helper.metadata)) entry ∧
          r.ConsumedAs dispatch (decoder.getD (.ofMetadata helper.metadata)) entry)
        records entries ∧
      ∀ rest output, ∃ output',
        ((decoder.getD (.ofMetadata helper.metadata)).decodeEvents dispatch).run
          ⟨encodeRecords dispatch records ++ rest, output⟩ = (⟨rest, output'⟩, .ok entries)) ∧
    ∃ map, helper.decodeEvents dispatch (hexPrefixed (encodeRecords dispatch records)) decoder =
        .ok map ∧
      ∀ index success,
        map.lookup index = some success ↔ ∃ r ∈ records, r.Applies index success := by
  obtain ⟨entries, hentries, hrun⟩ := run_decodeEvents dispatch records hlength hwell hdec
  refine ⟨⟨entries, hentries, hrun⟩, hashMapOf (entries.filterMap txResult), ?_, ?_⟩
  · obtain ⟨output', hall⟩ := hrun [] []
    rw [List.append_nil] at hall
    unfold ChainHelper.decodeEvents hexPrefixed
    rw [Crypto.hexstrToVec_hexEncode]
    show (((decoder.getD (.ofMetadata helper.metadata)).decodeEvents dispatch).run
      ⟨encodeRecords dispatch records, []⟩).2.mapErr Error.eventsError >>= _ = _
    rw [hall]
    rfl
  · intro index success
    have hmem := mem_filterMap_txResult (hentries.imp fun _ _ h => h.1) hstatus.applies
    rw [lookup_hashMapOf, hmem]
    intro k v v' hv hv'
    have hone := hstatus.single k
    rw [hmem] at hv hv'
    -- a key with two different values would be an extrinsic with two results
    cases v with
    | true =>
      cases v' with
      | true => rfl
      | false => exact absurd ⟨hv, hv'⟩ hone
    | false =>
      cases v' with
      | true => exact absurd ⟨hv', hv⟩ hone
      | false => rfl

/-! ### A runtime with two modules -/

/-- The modules System and Sudo; the result of a call under Sudo has no registered type. -/
def sudoHelper : ChainHelper where
  metadata :=
    { modules := []
      modulesWithCalls := []
      modulesWithEvents :=
        [("System", { index := 0, name := "System", events := [] }),
         ("Sudo",
          { index := 12, name := "Sudo"
            events := [(0, { name := "Sudid", arguments := [.primitive "DispatchResult"] })] })] }
  runtimeVersion := 6
  txVersion := 1
  genesisHash := FixedBytes.zero 32

/-- The errors without fields are one byte, and the information about a dispatch without weight
four. -/
def sudoCodecs : DispatchCodecs UInt8 (FixedBytes 4) where
  error := u8
  info := fixedBytes 4

/-- The event of a call under Sudo. -/
def sudid (r : Except UInt8 Unit) : EventRecord UInt8 (FixedBytes 4) where
  phase := .applyExtrinsic 1
  moduleIndex := 12
  event := .raw 0 [.result "DispatchResult" r]
  topics := ⟨[], by decide⟩

/-- The success of the call's extrinsic. -/
def sudoSuccess : EventRecord UInt8 (FixedBytes 4) where
  phase := .applyExtrinsic 1
  moduleIndex := 0
  event := .system (.extrinsicSuccess (FixedBytes.zero 4))
  topics := ⟨[], by decide⟩

theorem sudid_wellFormed (r : Except UInt8 Unit) :
    (sudid r).WellFormed (.ofMetadata sudoHelper.metadata) := by
  refine ⟨_, rfl, ⟨_, rfl, rfl, ?_⟩⟩
  intro a ha
  obtain rfl := List.mem_singleton.mp ha
  exact ⟨by decide, by decide⟩

/-- A call under Sudo that succeeds. -/
theorem decodeEvents_exact_sudo :
    ∃ map, sudoHelper.decodeEvents sudoCodecs
        (hexPrefixed (encodeRecords sudoCodecs [sudid (.ok ()), sudoSuccess])) none = .ok map ∧
      map.lookup 1 = some true := by
  have hmem : ∀ r ∈ [sudid (.ok ()), sudoSuccess], r = sudid (.ok ()) ∨ r = sudoSuccess := by
    simp
  obtain ⟨_, map, hmap, hresults⟩ := decodeEvents_exact sudoCodecs sudoHelper none
    [sudid (.ok ()), sudoSuccess] (by decide)
    (by
      intro r hr
      rcases hmem r hr with rfl | rfl
      · exact sudid_wellFormed _
      · exact ⟨_, rfl, rfl⟩)
    (by
      intro r hr
      rcases hmem r hr with rfl | rfl
      · refine ⟨fun module hmodule => ?_, rfl⟩
        obtain rfl := Outcome.ok.inj hmodule
        decide
      · trivial)
    { applies := by
        intro r hr _
        rcases hmem r hr with rfl | rfl
        · exact ⟨1, rfl⟩
        · exact ⟨1, rfl⟩
      single := by
        rintro index ⟨_, r, hr, hfailed, _⟩
        rcases hmem r hr with rfl | rfl
        · cases hfailed
        · cases hfailed }
  exact ⟨map, hmap, (hresults 1 true).mpr ⟨sudoSuccess, by simp, rfl, 1, rfl, rfl⟩⟩

/-- A call under Sudo that fails with an error of one byte, `BadOrigin`: the count of the
topics is taken for the second byte, and the topics are missing. -/
theorem not_exact_of_short_error :
    (sudid (.error 2)).WellFormed (.ofMetadata sudoHelper.metadata) ∧
      sudoHelper.decodeEvents sudoCodecs
        (hexPrefixed (encodeRecords sudoCodecs [sudid (.error 2)])) none =
          .err (.eventsError (.codecError .input)) := by
  refine ⟨sudid_wellFormed _, ?_⟩
  unfold ChainHelper.decodeEvents hexPrefixed
  rw [Crypto.hexstrToVec_hexEncode]
  rfl

end Cashbox.Eee
