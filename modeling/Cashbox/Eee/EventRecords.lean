import Cashbox.Eee.Events

/-!
# Event records

The records that a block can have, with values for their arguments, and when the decoder
consumes them exactly. A record is decodable if it is a System event that the decoder
knows, or if no `PhantomData` among its arguments has bytes behind it and a dispatch
result is what the decoder guesses.
-/

namespace Cashbox.Eee

open Cashbox.Lib Cashbox.Scale

variable {E I : Type} (dispatch : DispatchCodecs E I)

/-! ## What is encoded -/

/-- A value of an argument type made from primitive types: bytes of a type with a size, the
value of a `PhantomData` type, a `Vec` of a type, or a tuple. -/
inductive Value where
  | sized (name : String) (bytes : Bytes)
  | phantom (name : String)
  | vec (arg : EventArg) (elems : List Value)
  | tuple (elems : List Value)

def Value.isPhantom : Value → Bool
  | .phantom _ => true
  | _ => false

mutual

/-- The type of a value. -/
def Value.arg : Value → EventArg
  | .sized name _ => .primitive name
  | .phantom name => .primitive name
  | .vec arg _ => .vec arg
  | .tuple elems => .tuple (argsOf elems)

def argsOf : List Value → List EventArg
  | [] => []
  | v :: vs => v.arg :: argsOf vs

end

mutual

def Value.encode : Value → Bytes
  | .sized _ bytes => bytes
  | .phantom _ => []
  | .vec _ elems => encodeCompact elems.length ++ encodeAll elems
  | .tuple elems => encodeAll elems

def encodeAll : List Value → Bytes
  | [] => []
  | v :: vs => v.encode ++ encodeAll vs

end

mutual

/-- The value is one of its type: primitive types are registered, and the elements of a
vector are of its type. -/
def Value.WellTyped (typeSizes : List (String × Nat)) : Value → Prop
  | .sized name bytes => isPhantomData name = false ∧ typeSizes.lookup name = some bytes.length
  | .phantom name => isPhantomData name = true
  | .vec arg elems =>
    elems.length < 2 ^ 32 ∧ AllOf typeSizes arg elems ∧ AllTyped typeSizes elems
  | .tuple elems => AllTyped typeSizes elems

/-- The elements are of a type. -/
def AllOf (typeSizes : List (String × Nat)) (arg : EventArg) : List Value → Prop
  | [] => True
  | v :: vs => v.arg = arg ∧ AllOf typeSizes arg vs

def AllTyped (typeSizes : List (String × Nat)) : List Value → Prop
  | [] => True
  | v :: vs => v.WellTyped typeSizes ∧ AllTyped typeSizes vs

end

mutual

/-- No `PhantomData` has bytes behind it in its list of arguments. -/
def Value.Straight : Value → Prop
  | .sized _ _ => True
  | .phantom _ => True
  | .vec _ elems => EachStraight elems
  | .tuple elems => AllStraight elems

def EachStraight : List Value → Prop
  | [] => True
  | v :: vs => v.Straight ∧ EachStraight vs

def AllStraight : List Value → Prop
  | [] => True
  | v :: vs => (v.isPhantom = true → encodeAll vs = []) ∧ v.Straight ∧ AllStraight vs

end

/-! ### Values are skipped -/

theorem run_readWith {α : Type} {decode : Decoder α} {input rest : Bytes} {x : α}
    (h : decode input = some (x, rest)) (output : Bytes) :
    (readWith decode).run ⟨input, output⟩ = (⟨rest, output⟩, .ok x) := by
  simp [readWith, h]

mutual

/-- The bytes of a value are moved to the output. -/
theorem run_decodeArg {typeSizes : List (String × Nat)} (v : Value)
    (htyped : v.WellTyped typeSizes) (hstraight : v.Straight) (rest output : Bytes) :
    (decodeArg typeSizes v.arg).run ⟨v.encode ++ rest, output⟩ =
      (⟨rest, output ++ v.encode⟩, .ok !v.isPhantom) := by
  cases v with
  | sized name bytes =>
    obtain ⟨hphantom, hsize⟩ := htyped
    -- the size of the type is known, and as many bytes are taken
    have hread := run_readWith (takeBytes_append (k := bytes.length) rfl rest) output
    simp only [Value.arg, decodeArg, hphantom, hsize, Value.encode]
    rw [if_neg Bool.false_ne_true, Method.run_bind_of_ok hread]
    rfl
  | phantom name =>
    have hphantom : isPhantomData name = true := htyped
    simp only [Value.arg, decodeArg, hphantom, if_true, Value.encode]
    simp [Value.isPhantom]
  | vec arg elems =>
    obtain ⟨hlength, hof, hall⟩ := htyped
    -- the count, and then an element for each
    have hlen : elems.length < 256 ^ 4 := hlength
    have hread := run_readWith
      (@decodeCompact_encodeCompact 4 _ (by decide) hlen (encodeAll elems ++ rest)) output
    simp only [Value.arg, decodeArg, Value.encode, List.append_assoc]
    rw [Method.run_bind_of_ok hread]
    obtain ⟨xs, htimes⟩ := run_times_decodeArg elems hof hall hstraight rest
      (output ++ encodeCompact elems.length)
    show ((decodeArg typeSizes arg).times elems.length >>= fun _ => pure true).run
      ⟨encodeAll elems ++ rest, output ++ encodeCompact elems.length⟩ = _
    rw [Method.run_bind_of_ok htimes]
    simp [Value.isPhantom]
  | tuple elems =>
    have hread := run_decodeRawBytes elems htyped hstraight rest output
    simp only [Value.arg, decodeArg, Value.encode]
    rw [Method.run_bind_of_ok hread]
    rfl

theorem run_times_decodeArg {typeSizes : List (String × Nat)} {arg : EventArg} (vs : List Value)
    (hof : AllOf typeSizes arg vs) (hall : AllTyped typeSizes vs) (hstraight : EachStraight vs)
    (rest output : Bytes) :
    ∃ xs, ((decodeArg typeSizes arg).times vs.length).run ⟨encodeAll vs ++ rest, output⟩ =
      (⟨rest, output ++ encodeAll vs⟩, .ok xs) := by
  cases vs with
  | nil => exact ⟨[], by simp [encodeAll, Method.times]⟩
  | cons v vs =>
    obtain ⟨rfl, hof⟩ := hof
    have hv := run_decodeArg v hall.1 hstraight.1 (encodeAll vs ++ rest) output
    obtain ⟨xs, hvs⟩ := run_times_decodeArg vs hof hall.2 hstraight.2 rest (output ++ v.encode)
    refine ⟨(!v.isPhantom) :: xs, ?_⟩
    simp only [encodeAll, List.append_assoc] at hvs ⊢
    exact Method.run_times_succ hv hvs

theorem run_decodeRawBytes {typeSizes : List (String × Nat)} (vs : List Value)
    (hall : AllTyped typeSizes vs) (hstraight : AllStraight vs) (rest output : Bytes) :
    (decodeRawBytes typeSizes (argsOf vs)).run ⟨encodeAll vs ++ rest, output⟩ =
      (⟨rest, output ++ encodeAll vs⟩, .ok ()) := by
  cases vs with
  | nil => simp [encodeAll, argsOf, decodeRawBytes]
  | cons v vs =>
    obtain ⟨hstop, hv, hvs⟩ := hstraight
    have hrun := run_decodeArg v hall.1 hv (encodeAll vs ++ rest) output
    simp only [argsOf, decodeRawBytes, encodeAll, List.append_assoc]
    rw [Method.run_bind_of_ok hrun]
    cases hphantom : v.isPhantom with
    | true =>
      -- the loop returns, and nothing is left to skip
      rw [hstop hphantom]
      simp
    | false =>
      rw [Bool.not_false, if_pos rfl, run_decodeRawBytes vs hall.2 hvs rest (output ++ v.encode)]
      simp

end

/-! ### Arguments -/

/-- An argument of an event: a value, or the result of a dispatch, whose type is not
registered. -/
inductive Argument (E : Type) where
  | value (v : Value)
  | result (name : String) (r : Except E Unit)

def Argument.arg : Argument E → EventArg
  | .value v => v.arg
  | .result name _ => .primitive name

def encodeResult : Except E Unit → Bytes
  | .ok _ => [0]
  | .error e => 1 :: dispatch.error.encode e

def Argument.encode : Argument E → Bytes
  | .value v => v.encode
  | .result _ r => encodeResult dispatch r

def encodeArguments (args : List (Argument E)) : Bytes := args.flatMap (Argument.encode dispatch)

def Argument.WellTyped (typeSizes : List (String × Nat)) : Argument E → Prop
  | .value v => v.WellTyped typeSizes
  | .result name _ => isPhantomData name = false ∧ typeSizes.lookup name = none

/-- The guess is right: a successful result comes last, and there are two bytes behind the
mark of an error. -/
def GuessOk (r : Except E Unit) (args : List (Argument E)) : Prop :=
  match r with
  | .ok _ => encodeArguments dispatch args = []
  | .error e => (dispatch.error.encode e ++ encodeArguments dispatch args).length = 2

/-- No `PhantomData` has bytes behind it in its list of arguments, and a result of a dispatch
is what the decoder takes it for. -/
def ArgumentsOk : List (Argument E) → Prop
  | [] => True
  | .value v :: args =>
    (v.isPhantom = true → encodeArguments dispatch args = []) ∧ v.Straight ∧ ArgumentsOk args
  | .result _ r :: args => GuessOk dispatch r args

/-- Decoding the arguments ends behind them, or before a result that is guessed rightly. -/
theorem run_decodeRawBytes_arguments {typeSizes : List (String × Nat)} (args : List (Argument E))
    (htyped : ∀ a ∈ args, a.WellTyped typeSizes) (hok : ArgumentsOk dispatch args)
    (output : Bytes) :
    (∃ output', ∀ rest, (decodeRawBytes typeSizes (args.map Argument.arg)).run
        ⟨encodeArguments dispatch args ++ rest, output⟩ = (⟨rest, output'⟩, .ok ())) ∨
      ∃ name r args' output', GuessOk dispatch r args' ∧
        ∀ rest, (decodeRawBytes typeSizes (args.map Argument.arg)).run
            ⟨encodeArguments dispatch args ++ rest, output⟩ =
          (⟨encodeResult dispatch r ++ encodeArguments dispatch args' ++ rest, output'⟩,
            .err (.typeSizeUnavailable name)) := by
  induction args generalizing output with
  | nil => exact .inl ⟨output, fun _ => rfl⟩
  | cons a args ih =>
    have hargs : ∀ a ∈ args, a.WellTyped typeSizes :=
      fun a ha => htyped a (List.mem_cons_of_mem _ ha)
    have ha := htyped a List.mem_cons_self
    cases a with
    | value v =>
      obtain ⟨hstop, hv, hrest⟩ := hok
      have hcons : ∀ rest, encodeArguments dispatch (.value v :: args) ++ rest =
          v.encode ++ (encodeArguments dispatch args ++ rest) := fun _ => List.append_assoc _ _ _
      have hrun := fun rest =>
        run_decodeArg v ha hv (encodeArguments dispatch args ++ rest) output
      simp only [List.map_cons, Argument.arg, decodeRawBytes, hcons]
      cases hphantom : v.isPhantom with
      | true =>
        -- the loop returns, and nothing is left to skip
        refine .inl ⟨output ++ v.encode, fun rest => ?_⟩
        rw [Method.run_bind_of_ok (hrun rest), hphantom, hstop hphantom]
        rfl
      | false =>
        rcases ih hargs hrest (output ++ v.encode) with
          ⟨output', hdone⟩ | ⟨name, r, args', output', hguess, hstopped⟩
        · refine .inl ⟨output', fun rest => ?_⟩
          rw [Method.run_bind_of_ok (hrun rest), hphantom]
          exact hdone rest
        · refine .inr ⟨name, r, args', output', hguess, fun rest => ?_⟩
          rw [Method.run_bind_of_ok (hrun rest), hphantom]
          exact hstopped rest
    | result name r =>
      obtain ⟨hphantom, hsize⟩ := ha
      refine .inr ⟨name, r, args, output, hok, fun rest => ?_⟩
      simp only [List.map_cons, Argument.arg, decodeRawBytes, decodeArg, hphantom, hsize]
      rfl

/-- A right guess takes the rest of the arguments. -/
theorem run_guess {r : Except E Unit} {args : List (Argument E)} (h : GuessOk dispatch r args)
    (rest output : Bytes) :
    (readWith u8.decode >>= fun b => if b = 1 then skipTwo else pure ()).run
        ⟨encodeResult dispatch r ++ encodeArguments dispatch args ++ rest, output⟩ =
      (⟨rest, output⟩, .ok ()) := by
  cases r with
  | ok _ =>
    have hnil : encodeArguments dispatch args = [] := h
    rw [hnil]
    rfl
  | error e =>
    have htwo : (dispatch.error.encode e ++ encodeArguments dispatch args).length = 2 := h
    have hlong : ¬ (dispatch.error.encode e ++ encodeArguments dispatch args ++ rest).length <
        2 := by
      rw [List.length_append, htwo]
      omega
    have hdrop : (dispatch.error.encode e ++ encodeArguments dispatch args ++ rest).drop 2 =
        rest := by
      rw [← htwo, List.drop_left]
    show skipTwo.run ⟨dispatch.error.encode e ++ encodeArguments dispatch args ++ rest, output⟩ = _
    simp only [skipTwo, Method.run_modify, if_neg hlong, hdrop]

theorem run_decodeArguments {typeSizes : List (String × Nat)} (args : List (Argument E))
    (htyped : ∀ a ∈ args, a.WellTyped typeSizes) (hok : ArgumentsOk dispatch args)
    (output : Bytes) :
    ∃ output', ∀ rest, (decodeArguments typeSizes (args.map Argument.arg)).run
      ⟨encodeArguments dispatch args ++ rest, output⟩ = (⟨rest, output'⟩, .ok ()) := by
  unfold decodeArguments
  rcases run_decodeRawBytes_arguments dispatch args htyped hok output with
    ⟨output', hrun⟩ | ⟨name, r, args', output', hguess, hrun⟩
  · refine ⟨output', fun rest => ?_⟩
    rw [Method.run_bind_of_ok (Method.run_attempt_of_ok (hrun rest))]
    rfl
  · refine ⟨output', fun rest => ?_⟩
    rw [Method.run_bind_of_ok (Method.run_attempt_of_err (hrun rest))]
    exact run_guess dispatch hguess rest output'

/-! ### Records -/

/-- What a record reports: an event of the System module that the decoder knows, or the
arguments of a variant. -/
inductive EventValue (E I : Type) where
  | system (event : SystemEvent E I)
  | raw (variant : UInt8) (args : List (Argument E))

def EventValue.encode : EventValue E I → Bytes
  | .system event => (systemEvent dispatch).encode event
  | .raw variant args => variant :: encodeArguments dispatch args

structure EventRecord (E I : Type) where
  phase : Phase
  moduleIndex : UInt8
  event : EventValue E I
  topics : { topics : List Hash // topics.length < 2 ^ 32 }

namespace EventRecord

variable (r : EventRecord E I) (d : EventsDecoder)

def encode : Bytes :=
  phaseCodec.encode r.phase ++ (r.moduleIndex ::
    (r.event.encode dispatch ++ (vec (fixedBytes 32)).encode r.topics))

/-- The record is one of the runtime: its module and variant are in the metadata, and its
arguments are of the types there. -/
def WellFormed : Prop :=
  ∃ module, d.metadata.moduleWithEvents r.moduleIndex = .ok module ∧
    match r.event with
    | .system _ => module.name = "System"
    | .raw variant args =>
      ∃ metadata, module.event variant = .ok metadata ∧
        metadata.arguments = args.map Argument.arg ∧
        ∀ a ∈ args, a.WellTyped d.typeSizes

/-- The decoder knows the event if it is one of the System module, and skips its arguments
otherwise. -/
def Decodable : Prop :=
  match r.event with
  | .system _ => True
  | .raw _ args =>
    (∀ module, d.metadata.moduleWithEvents r.moduleIndex = .ok module →
      module.name ≠ "System") ∧ ArgumentsOk dispatch args

/-- The entry has the phase, the module and the variant of the record. -/
def Describes (entry : Phase × RuntimeEvent E I) : Prop :=
  entry.1 = r.phase ∧
    match r.event with
    | .system event => entry.2 = .system event
    | .raw variant _ =>
      ∃ module metadata data, d.metadata.moduleWithEvents r.moduleIndex = .ok module ∧
        module.event variant = .ok metadata ∧
        entry.2 = .raw { module := module.name, variant := metadata.name, data }

/-- The record is consumed exactly, whatever follows it. -/
def ConsumedAs (entry : Phase × RuntimeEvent E I) : Prop :=
  ∀ rest output, ∃ output', (d.decodeRecord dispatch).run ⟨r.encode dispatch ++ rest, output⟩ =
    (⟨rest, output'⟩, .ok entry)

variable {r d}

theorem run_decodeEvent (hwell : r.WellFormed d) (hdec : r.Decodable dispatch d) :
    ∃ module event, d.metadata.moduleWithEvents r.moduleIndex = .ok module ∧
      r.Describes d (r.phase, event) ∧
      ∀ rest output, ∃ output', (d.decodeEvent dispatch module).run
        ⟨r.event.encode dispatch ++ rest, output⟩ = (⟨rest, output'⟩, .ok event) := by
  obtain ⟨module, hmodule, hevent⟩ := hwell
  unfold Decodable at hdec
  unfold Describes
  cases hvalue : r.event with
  | system event =>
    rw [hvalue] at hevent
    refine ⟨module, .system event, hmodule, ⟨rfl, rfl⟩, fun rest output => ⟨output, ?_⟩⟩
    have hread := run_readWith ((systemEvent dispatch).decode_append event rest) output
    -- the fixed enum of the system events
    rw [EventsDecoder.decodeEvent, if_pos hevent]
    exact Method.run_bind_of_ok hread
  | raw variant args =>
    rw [hvalue] at hevent hdec
    obtain ⟨metadata, hmetadata, hargs, htyped⟩ := hevent
    obtain ⟨output', hrun⟩ := run_decodeArguments dispatch args htyped hdec.2 []
    refine ⟨module, .raw { module := module.name, variant := metadata.name, data := output' },
      hmodule, ⟨rfl, module, metadata, output', hmodule, hmetadata, rfl⟩,
      fun rest output => ⟨output', ?_⟩⟩
    -- the variant is looked up, and its arguments are read one by one
    have hvariant := run_readWith (u8.decode_append variant (encodeArguments dispatch args ++ rest))
      output
    have hlookup : (module.event variant).mapErr EventsError.metadata = .ok metadata := by
      rw [hmetadata]
      rfl
    rw [EventsDecoder.decodeEvent, if_neg (hdec.1 module hmodule)]
    show ((readWith u8.decode) >>= _).run
      ⟨u8.encode variant ++ (encodeArguments dispatch args ++ rest), output⟩ = _
    rw [Method.run_bind_of_ok hvariant, hlookup]
    show (decodeArguments d.typeSizes metadata.arguments >>= _).run
      ⟨encodeArguments dispatch args ++ rest, []⟩ = _
    rw [hargs]
    exact Method.run_bind_of_ok (hrun rest)

/-- A record that can be decoded is consumed exactly. -/
theorem run_decodeRecord (hwell : r.WellFormed d) (hdec : r.Decodable dispatch d) :
    ∃ entry, r.Describes d entry ∧ r.ConsumedAs dispatch d entry := by
  obtain ⟨module, event, hmodule, hdescribes, hrun⟩ := run_decodeEvent dispatch hwell hdec
  refine ⟨(r.phase, event), hdescribes, fun rest output => ?_⟩
  have hphase := run_readWith (phaseCodec.decode_append r.phase (r.moduleIndex ::
    (r.event.encode dispatch ++ ((vec (fixedBytes 32)).encode r.topics ++ rest)))) output
  have hindex : (readWith u8.decode).run ⟨r.moduleIndex :: (r.event.encode dispatch ++
      ((vec (fixedBytes 32)).encode r.topics ++ rest)), output⟩ =
        (⟨_, output⟩, .ok r.moduleIndex) :=
    run_readWith (u8.decode_append r.moduleIndex _) output
  have hlookup : (d.metadata.moduleWithEvents r.moduleIndex).mapErr EventsError.metadata =
      .ok module := by
    rw [hmodule]
    rfl
  obtain ⟨output', hevent⟩ := hrun ((vec (fixedBytes 32)).encode r.topics ++ rest) output
  have htopics := run_readWith ((vec (fixedBytes 32)).decode_append r.topics rest) output'
  refine ⟨output', ?_⟩
  unfold EventsDecoder.decodeRecord encode
  simp only [List.append_assoc, List.cons_append]
  rw [Method.run_bind_of_ok hphase, Method.run_bind_of_ok hindex, hlookup]
  exact (Method.run_bind_of_ok hevent).trans (Method.run_bind_of_ok htopics)

end EventRecord

/-! ### Lists of records -/

/-- The records one after the other behind their number. -/
def encodeRecords (records : List (EventRecord E I)) : Bytes :=
  encodeCompact records.length ++ records.flatMap (EventRecord.encode dispatch)

theorem run_times_decodeRecord {d : EventsDecoder} (records : List (EventRecord E I))
    (hwell : ∀ r ∈ records, r.WellFormed d) (hdec : ∀ r ∈ records, r.Decodable dispatch d) :
    ∃ entries, List.Forall₂ (fun r entry => r.Describes d entry ∧ r.ConsumedAs dispatch d entry)
        records entries ∧
      ∀ rest output, ∃ output', ((d.decodeRecord dispatch).times records.length).run
        ⟨records.flatMap (EventRecord.encode dispatch) ++ rest, output⟩ =
          (⟨rest, output'⟩, .ok entries) := by
  induction records with
  | nil => exact ⟨[], .nil, fun rest output => ⟨output, rfl⟩⟩
  | cons r records ih =>
    obtain ⟨entries, hentries, hrest⟩ := ih (fun r hr => hwell r (List.mem_cons_of_mem _ hr))
      (fun r hr => hdec r (List.mem_cons_of_mem _ hr))
    obtain ⟨entry, hdescribes, hconsumed⟩ := EventRecord.run_decodeRecord dispatch
      (hwell r List.mem_cons_self) (hdec r List.mem_cons_self)
    refine ⟨entry :: entries, .cons ⟨hdescribes, hconsumed⟩ hentries, fun rest output => ?_⟩
    obtain ⟨output', hrun⟩ := hconsumed
      (records.flatMap (EventRecord.encode dispatch) ++ rest) output
    obtain ⟨output'', hruns⟩ := hrest rest output'
    refine ⟨output'', ?_⟩
    rw [List.flatMap_cons, List.append_assoc]
    exact Method.run_times_succ hrun hruns

theorem run_decodeEvents {d : EventsDecoder} (records : List (EventRecord E I))
    (hlength : records.length < 2 ^ 32) (hwell : ∀ r ∈ records, r.WellFormed d)
    (hdec : ∀ r ∈ records, r.Decodable dispatch d) :
    ∃ entries, List.Forall₂ (fun r entry => r.Describes d entry ∧ r.ConsumedAs dispatch d entry)
        records entries ∧
      ∀ rest output, ∃ output', (d.decodeEvents dispatch).run
        ⟨encodeRecords dispatch records ++ rest, output⟩ = (⟨rest, output'⟩, .ok entries) := by
  obtain ⟨entries, hentries, hrun⟩ := run_times_decodeRecord dispatch records hwell hdec
  refine ⟨entries, hentries, fun rest output => ?_⟩
  have hlen : records.length < 256 ^ 4 := hlength
  have hcount := run_readWith (@decodeCompact_encodeCompact 4 _ (by decide) hlen
    (records.flatMap (EventRecord.encode dispatch) ++ rest)) output
  obtain ⟨output', hrecords⟩ := hrun rest output
  refine ⟨output', ?_⟩
  unfold EventsDecoder.decodeEvents encodeRecords
  rw [List.append_assoc, Method.run_bind_of_ok hcount]
  exact hrecords

end Cashbox.Eee
