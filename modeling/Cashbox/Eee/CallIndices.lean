import Cashbox.Eee.RuntimeMetadata

/-!
# Indices of calls and events

A call is composed with two bytes that are looked up by name, and an extrinsic is decoded by
looking up a name by these bytes. Both find the same call if the maps were made of the metadata
of a runtime, whatever the order of their iteration. The conversion itself ends in an overflow
at the 256th module with calls, or with events, of a runtime of version 11.
-/

namespace Cashbox.Eee

open Cashbox.Lib RuntimeMetadata

/-! ## Numbered modules -/

def DecodeDifferent.value? {α : Type} : DecodeDifferent α → Option α
  | decoded value => some value
  | encode => none

/-- A module with the index of its calls and that of its events. -/
abbrev Numbered := RuntimeMetadata.ModuleMetadata × UInt8 × UInt8

/-- All modules, with their indices. -/
def insertAll : List Numbered → Metadata → Except ConversionError Metadata
  | [], m => .ok m
  | (module, callIndex, eventIndex) :: modules, m => do
    let (moduleName, m) ← insertModule module m
    let m ← insertCalls module moduleName callIndex m
    let m ← insertEvents module moduleName eventIndex m
    insertAll modules m

def numberV12 (module : ModuleMetadataV12) : Numbered :=
  (module.toModuleMetadata, module.index, module.index)

/-- The modules with calls are counted from `calls` on, and those with events from `events` on. -/
def numberV11 : Nat → Nat → List RuntimeMetadata.ModuleMetadata → List Numbered
  | _, _, [] => []
  | calls, events, module :: modules =>
    (module, UInt8.ofNat calls, UInt8.ofNat events) ::
      numberV11 (calls + module.calls.isSome.toNat) (events + module.event.isSome.toNat) modules

theorem convertV12_eq (modules : List ModuleMetadataV12) (m : Metadata) :
    convertV12 modules m = insertAll (modules.map numberV12) m := by
  induction modules generalizing m with
  | nil => rfl
  | cons module modules ih =>
    simp only [convertV12, List.map_cons, numberV12, insertAll, ih]

/-! ### The counters -/

/-- The parts of a module that come before its events are converted. -/
def FrontConverts (module : RuntimeMetadata.ModuleMetadata) : Prop :=
  (convert module.name).isOk ∧ (convertStorage module.storage).isOk ∧
    ∀ calls, module.calls = some calls → (convertCalls calls).isOk

def EventsConvert (module : RuntimeMetadata.ModuleMetadata) : Prop :=
  ∀ events, module.event = some events → (convertEvents events).isOk

/-- A counter is at its limit where a module is counted: with `calls` and `events` counted before,
one module is the 256th with calls or events, and the conversion gets there. -/
def RunsOut (calls events : Nat) (modules : List RuntimeMetadata.ModuleMetadata) : Prop :=
  ∃ pre module post, modules = pre ++ module :: post ∧
    (∀ x ∈ pre, FrontConverts x ∧ EventsConvert x) ∧ FrontConverts module ∧
    (module.calls.isSome ∧ calls + pre.countP (fun x => x.calls.isSome) = 255 ∨
      EventsConvert module ∧ module.event.isSome ∧
        events + pre.countP (fun x => x.event.isSome) = 255)

theorem add_countP_cons {α : Type} (p : α → Bool) (n : Nat) (x : α) (xs : List α) :
    n + (x :: xs).countP p = n + (p x).toNat + xs.countP p := by
  rw [List.countP_cons, Bool.toNat, Bool.cond_eq_ite]
  omega

theorem runsOut_nil {calls events : Nat} : ¬ RunsOut calls events [] := by
  rintro ⟨pre, module, post, hsplit, _⟩
  simp at hsplit

theorem runsOut_cons {calls events : Nat} {module : RuntimeMetadata.ModuleMetadata}
    {modules : List RuntimeMetadata.ModuleMetadata} :
    RunsOut calls events (module :: modules) ↔ FrontConverts module ∧
      (module.calls.isSome ∧ calls = 255 ∨ EventsConvert module ∧
        (module.event.isSome ∧ events = 255 ∨
          RunsOut (calls + module.calls.isSome.toNat) (events + module.event.isSome.toNat)
            modules)) := by
  constructor
  · rintro ⟨pre, x, post, hsplit, hpre, hfront, hout⟩
    cases pre with
    | nil =>
      obtain ⟨rfl, rfl⟩ := List.cons.inj hsplit
      refine ⟨hfront, ?_⟩
      rcases hout with ⟨hcalls, hcount⟩ | ⟨hevents, hevent, hcount⟩
      · exact .inl ⟨hcalls, hcount⟩
      · exact .inr ⟨hevents, .inl ⟨hevent, hcount⟩⟩
    | cons y pre =>
      obtain ⟨rfl, rfl⟩ := List.cons.inj hsplit
      obtain ⟨hfirst, hrest⟩ := List.forall_mem_cons.mp hpre
      refine ⟨hfirst.1, .inr ⟨hfirst.2, .inr ⟨pre, x, post, rfl, hrest, hfront, ?_⟩⟩⟩
      rwa [add_countP_cons, add_countP_cons] at hout
  · rintro ⟨hfront,
      ⟨hcalls, hcount⟩ | ⟨hevents, ⟨hevent, hcount⟩ | ⟨pre, x, post, rfl, hpre, hx, hout⟩⟩⟩
    · exact ⟨[], module, modules, rfl, (fun _ hx => nomatch hx), hfront, .inl ⟨hcalls, hcount⟩⟩
    · exact ⟨[], module, modules, rfl, (fun _ hx => nomatch hx), hfront,
        .inr ⟨hevents, hevent, hcount⟩⟩
    · refine ⟨module :: pre, x, post, rfl, List.forall_mem_cons.mpr ⟨⟨hfront, hevents⟩, hpre⟩, hx,
        ?_⟩
      rwa [add_countP_cons, add_countP_cons]

theorem insertModule_cases (module : RuntimeMetadata.ModuleMetadata) (m : Metadata) :
    (∃ name storage, module.name = .decoded name ∧ (convert module.name).isOk ∧
        (convertStorage module.storage).isOk ∧ insertModule module m =
          .ok (name, { m with modules := hashMapInsert m.modules (name, ⟨storage⟩) })) ∨
      ¬ FrontConverts module ∧ ∃ e, insertModule module m = .error e := by
  unfold insertModule FrontConverts
  rcases hname : module.name with _ | name
  · exact .inr ⟨fun h => Bool.noConfusion h.1, _, rfl⟩
  · rcases hstorage : convertStorage module.storage with e | storage
    · exact .inr ⟨fun h => Bool.noConfusion h.2.1, e, rfl⟩
    · exact .inl ⟨name, storage, rfl, rfl, rfl, rfl⟩

theorem insertCalls_cases (module : RuntimeMetadata.ModuleMetadata) (name : String) (index : UInt8)
    (m : Metadata) :
    (∀ calls, module.calls = some calls → (convertCalls calls).isOk) ∧
        (∃ m', insertCalls module name index m = .ok m') ∨
      (∃ calls, module.calls = some calls ∧ ¬ (convertCalls calls).isOk) ∧
        ∃ e, insertCalls module name index m = .error e := by
  unfold insertCalls
  rcases module.calls with _ | calls
  · exact .inl ⟨(fun _ h => nomatch h), m, rfl⟩
  · rcases hcalls : convertCalls calls with e | callMap
    · exact .inr ⟨⟨calls, rfl, by rw [hcalls]; exact Bool.false_ne_true⟩, e,
        by dsimp only; rw [hcalls]; rfl⟩
    · refine .inl ⟨fun calls' h => ?_, _, by dsimp only; rw [hcalls]; rfl⟩
      cases h
      rw [hcalls]
      rfl

theorem insertEvents_cases (module : RuntimeMetadata.ModuleMetadata) (name : String) (index : UInt8)
    (m : Metadata) :
    EventsConvert module ∧ (∃ m', insertEvents module name index m = .ok m') ∨
      ¬ EventsConvert module ∧ ∃ e, insertEvents module name index m = .error e := by
  unfold insertEvents EventsConvert
  rcases module.event with _ | events
  · exact .inl ⟨(fun _ h => nomatch h), m, rfl⟩
  · rcases hevents : convertEvents events with e | eventMap
    · refine .inr ⟨fun h => ?_, e, by dsimp only; rw [hevents]; rfl⟩
      have hok := h events rfl
      rw [hevents] at hok
      cases hok
    · refine .inl ⟨fun events' h => ?_, _, by dsimp only; rw [hevents]; rfl⟩
      cases h
      rw [hevents]
      rfl

theorem nextIndex_cases (counted : Bool) {n : Nat} (hn : n ≤ 255) :
    counted = true ∧ n = 255 ∧ nextIndex counted (UInt8.ofNat n) = .panic .addOverflow ∨
      n + counted.toNat ≤ 255 ∧
        nextIndex counted (UInt8.ofNat n) = .ok (UInt8.ofNat (n + counted.toNat)) := by
  cases counted with
  | false => exact .inr ⟨by simpa using hn, rfl⟩
  | true =>
    by_cases hlast : n = 255
    · rw [hlast]
      exact .inl ⟨rfl, rfl, rfl⟩
    · have hne : UInt8.ofNat n ≠ 255 := by
        intro h
        have hnat := congrArg UInt8.toNat h
        rw [UInt8.toNat_ofNat', Nat.mod_eq_of_lt (by omega)] at hnat
        exact hlast hnat
      refine .inr ⟨by simp only [Bool.toNat_true]; omega, ?_⟩
      unfold nextIndex
      rw [if_pos rfl, if_neg hne, Bool.toNat_true, UInt8.ofNat_add]
      rfl

/-- **The conversion of version 11** ends in an overflow exactly if a counter runs out, and is
else that of the modules as they are counted. -/
theorem convertV11_eq (modules : List RuntimeMetadata.ModuleMetadata) {calls events : Nat}
    (hcalls : calls ≤ 255) (hevents : events ≤ 255) (m : Metadata) :
    (RunsOut calls events modules ∧ convertV11 modules (UInt8.ofNat calls) (UInt8.ofNat events) m =
        .panic .addOverflow) ∨
      (¬ RunsOut calls events modules ∧
        convertV11 modules (UInt8.ofNat calls) (UInt8.ofNat events) m =
          Outcome.ofExcept (insertAll (numberV11 calls events modules) m)) := by
  induction modules generalizing calls events m with
  | nil => exact .inr ⟨runsOut_nil, rfl⟩
  | cons module modules ih =>
    rw [runsOut_cons, convertV11, numberV11, insertAll]
    -- name and storage of the module, its calls, then its events, as the source goes on
    rcases insertModule_cases module m with ⟨name, storage, hname, hdecoded, hstorage, hinsert⟩ |
      ⟨hno, e, hinsert⟩
    · rw [hinsert]
      generalize (⟨_, _, _⟩ : Metadata) = m₁
      simp only [Outcome.ofExcept_bind, Outcome.ofExcept_ok, Outcome.ok_bind]
      rcases insertCalls_cases module name (UInt8.ofNat calls) m₁ with
        ⟨hconverts, m₂, hok⟩ | ⟨⟨cs, hcs, hno⟩, e, herr⟩
      · have hfront : FrontConverts module := ⟨hdecoded, hstorage, hconverts⟩
        rw [hok]
        rcases nextIndex_cases module.calls.isSome hcalls with ⟨hsome, hlast, hnext⟩ | ⟨hle, hnext⟩
        · -- the counter of the calls runs out
          exact .inl ⟨⟨hfront, .inl ⟨hsome, hlast⟩⟩, by
            simp only [Outcome.ofExcept_ok, Outcome.ok_bind, hnext, Outcome.panic_bind]⟩
        · have hnotLast : ¬ (module.calls.isSome = true ∧ calls = 255) := by
            rintro ⟨hsome, rfl⟩
            rw [hsome, Bool.toNat_true] at hle
            omega
          rcases insertEvents_cases module name (UInt8.ofNat events) m₂ with
            ⟨hevent, m₃, hok'⟩ | ⟨hno, e, herr⟩
          · rcases nextIndex_cases module.event.isSome hevents with
              ⟨hsome, hlast, hnext'⟩ | ⟨hle', hnext'⟩
            · -- that of the events does
              exact .inl ⟨⟨hfront, .inr ⟨hevent, .inl ⟨hsome, hlast⟩⟩⟩, by
                simp only [Outcome.ofExcept_ok, Outcome.ok_bind, hnext, hok', hnext',
                  Outcome.panic_bind]⟩
            · have hnotLast' : ¬ (module.event.isSome = true ∧ events = 255) := by
                rintro ⟨hsome, rfl⟩
                rw [hsome, Bool.toNat_true] at hle'
                omega
              simp only [Outcome.ofExcept_ok, Outcome.ok_bind, hnext, hok', hnext', hfront, hevent,
                hnotLast, hnotLast', false_or, true_and]
              exact ih hle hle' m₃
          · refine .inr ⟨?_, ?_⟩
            · rintro ⟨_, hlast | ⟨hevent, _⟩⟩
              · exact hnotLast hlast
              · exact hno hevent
            · simp only [Outcome.ofExcept_ok, Outcome.ofExcept_error, Outcome.ok_bind, hnext, herr,
                Outcome.err_bind]
      · rw [herr]
        exact .inr ⟨fun h => hno (h.1.2.2 cs hcs), rfl⟩
    · rw [hinsert]
      exact .inr ⟨fun h => hno h.1, rfl⟩

/-! ## The maps -/

/-- The names of calls with their indices. -/
def indexed (names : List String) : List (String × UInt8) :=
  names.zipIdx.map fun x => (x.1, UInt8.ofNat x.2)

/-- The entry that a module with calls makes, in any order of the map of its calls. -/
def IsCalls (x : Numbered) (e : String × ModuleWithCalls) : Prop :=
  x.1.name = .decoded e.1 ∧ e.2.name = e.1 ∧ e.2.index = x.2.1 ∧
    ∃ calls names, x.1.calls = some (.decoded calls) ∧
      calls.map FunctionMetadata.name = names.map .decoded ∧
      e.2.calls.Perm (hashMapOf (indexed names))

/-- The entry that a module with events makes. -/
def IsEvents (x : Numbered) (e : String × ModuleWithEvents) : Prop :=
  x.1.name = .decoded e.1 ∧ e.2.name = e.1 ∧ e.2.index = x.2.2

def hasCalls (x : Numbered) : Bool := x.1.calls.isSome

def hasEvents (x : Numbered) : Bool := x.1.event.isSome

theorem convert_eq_ok {α : Type} {x : DecodeDifferent α} {a : α} (h : convert x = .ok a) :
    x = .decoded a := by
  cases x with
  | encode => cases h
  | decoded value =>
    cases h
    rfl

theorem except_bind_eq_ok {ε α β : Type} {x : Except ε α} {f : α → Except ε β} {b : β}
    (h : (x >>= f) = .ok b) : ∃ a, x = .ok a ∧ f a = .ok b := by
  cases x with
  | error e => cases h
  | ok a => exact ⟨a, rfl, h⟩

theorem callsLoop_eq_ok {index : Nat} {calls : List FunctionMetadata}
    {callMap result : List (String × UInt8)} (h : callsLoop index calls callMap = .ok result) :
    ∃ names : List String, calls.map FunctionMetadata.name = names.map .decoded ∧ result =
      ((names.zipIdx index).map fun x => (x.1, UInt8.ofNat x.2)).foldl hashMapInsert callMap := by
  induction calls generalizing index callMap with
  | nil =>
    cases h
    exact ⟨[], rfl, rfl⟩
  | cons call calls ih =>
    obtain ⟨name, hname, hrest⟩ := except_bind_eq_ok h
    obtain ⟨names, hnames, hresult⟩ := ih hrest
    refine ⟨name :: names, ?_, hresult⟩
    rw [List.map_cons, List.map_cons, hnames, convert_eq_ok hname]

theorem insertCalls_eq_ok {module : RuntimeMetadata.ModuleMetadata} {name : String}
    {index eventIndex : UInt8} {m m' : Metadata} (hname : module.name = .decoded name)
    (h : insertCalls module name index m = .ok m') :
    m'.modulesWithEvents = m.modulesWithEvents ∧
      (module.calls.isSome = false ∧ m'.modulesWithCalls = m.modulesWithCalls ∨
        module.calls.isSome = true ∧ ∃ e, IsCalls (module, index, eventIndex) e ∧
          m'.modulesWithCalls = hashMapInsert m.modulesWithCalls e) := by
  unfold insertCalls at h
  rcases hcalls : module.calls with _ | calls <;> rw [hcalls] at h
  · cases h
    exact ⟨rfl, .inl ⟨rfl, rfl⟩⟩
  · obtain ⟨callMap, hmap, hm'⟩ := except_bind_eq_ok h
    cases hm'
    obtain ⟨cs, hcs, hloop⟩ := except_bind_eq_ok hmap
    obtain ⟨names, hnames, hresult⟩ := callsLoop_eq_ok hloop
    refine ⟨rfl, .inr ⟨rfl, _, ⟨hname, rfl, rfl, cs, names, ?_, hnames, ?_⟩, rfl⟩⟩
    · rw [hcalls, convert_eq_ok hcs]
    · rw [hresult]
      exact List.Perm.refl _

theorem insertEvents_eq_ok {module : RuntimeMetadata.ModuleMetadata} {name : String}
    {index callIndex : UInt8} {m m' : Metadata} (hname : module.name = .decoded name)
    (h : insertEvents module name index m = .ok m') :
    m'.modulesWithCalls = m.modulesWithCalls ∧
      (module.event.isSome = false ∧ m'.modulesWithEvents = m.modulesWithEvents ∨
        module.event.isSome = true ∧ ∃ e, IsEvents (module, callIndex, index) e ∧
          m'.modulesWithEvents = hashMapInsert m.modulesWithEvents e) := by
  unfold insertEvents at h
  rcases hevents : module.event with _ | events <;> rw [hevents] at h
  · cases h
    exact ⟨rfl, .inl ⟨rfl, rfl⟩⟩
  · obtain ⟨eventMap, hmap, hm'⟩ := except_bind_eq_ok h
    cases hm'
    exact ⟨rfl, .inr ⟨rfl, _, ⟨hname, rfl, rfl⟩, rfl⟩⟩

/-- What is inserted, module by module. -/
theorem insertAll_eq_ok {xs : List Numbered} {m r : Metadata} (h : insertAll xs m = .ok r) :
    (∃ cs, List.Forall₂ IsCalls (xs.filter hasCalls) cs ∧
        r.modulesWithCalls = cs.foldl hashMapInsert m.modulesWithCalls) ∧
      ∃ es, List.Forall₂ IsEvents (xs.filter hasEvents) es ∧
        r.modulesWithEvents = es.foldl hashMapInsert m.modulesWithEvents := by
  induction xs generalizing m with
  | nil =>
    cases h
    exact ⟨⟨[], .nil, rfl⟩, [], .nil, rfl⟩
  | cons x xs ih =>
    obtain ⟨module, callIndex, eventIndex⟩ := x
    obtain ⟨⟨name, m₁⟩, hinsert, hafter⟩ := except_bind_eq_ok h
    obtain ⟨m₂, hcalls, hafter'⟩ := except_bind_eq_ok hafter
    obtain ⟨m₃, hevents, hrest⟩ := except_bind_eq_ok hafter'
    rcases insertModule_cases module m with ⟨name', storage, hname, _, _, hinsert'⟩ | ⟨_, e, herr⟩
    · rw [hinsert'] at hinsert
      cases hinsert
      obtain ⟨hsame, hcalls⟩ := @insertCalls_eq_ok module name callIndex eventIndex _ _ hname hcalls
      obtain ⟨hsame', hevents⟩ :=
        @insertEvents_eq_ok module name eventIndex callIndex _ _ hname hevents
      obtain ⟨⟨cs, hcs, hr⟩, es, hes, hr'⟩ := ih hrest
      -- a module without calls adds nothing to their map
      constructor
      · rcases hcalls with ⟨hnone, hkept⟩ | ⟨hsome, e, he, hinserted⟩
        · refine ⟨cs, ?_, ?_⟩
          · rwa [List.filter_cons_of_neg (by simp [hasCalls, hnone])]
          · rw [hr, hsame', hkept]
        · refine ⟨e :: cs, ?_, ?_⟩
          · rw [List.filter_cons_of_pos (by simpa [hasCalls] using hsome)]
            exact .cons he hcs
          · rw [hr, hsame', hinserted]
            rfl
      · -- likewise for its events
        rcases hevents with ⟨hnone, hkept⟩ | ⟨hsome, e, he, hinserted⟩
        · refine ⟨es, ?_, ?_⟩
          · rwa [List.filter_cons_of_neg (by simp [hasEvents, hnone])]
          · rw [hr', hkept, hsame]
        · refine ⟨e :: es, ?_, ?_⟩
          · rw [List.filter_cons_of_pos (by simpa [hasEvents] using hsome)]
            exact .cons he hes
          · rw [hr', hinserted, hsame]
            rfl
    · rw [herr] at hinsert
      cases hinsert

/-! ### The order of iteration -/

/-- The same maps, each in another order of iteration. -/
structure Metadata.SameMaps (m m' : Metadata) : Prop where
  calls : ∃ l, List.Forall₂ (fun e e' : String × ModuleWithCalls => e'.1 = e.1 ∧
    e'.2.index = e.2.index ∧ e'.2.name = e.2.name ∧ e.2.calls.Perm e'.2.calls)
      m.modulesWithCalls l ∧ l.Perm m'.modulesWithCalls
  events : ∃ l, List.Forall₂ (fun e e' : String × ModuleWithEvents => e'.1 = e.1 ∧
    e'.2.index = e.2.index ∧ e'.2.name = e.2.name ∧ e.2.events.Perm e'.2.events)
      m.modulesWithEvents l ∧ l.Perm m'.modulesWithEvents

/-- Modules that can be told apart by their names, and by their indices where they are counted. -/
structure ToldApart (xs : List Numbered) : Prop where
  names : (xs.filterMap fun x => x.1.name.value?).Nodup
  callIndices : ((xs.filter hasCalls).map fun x => x.2.1).Nodup
  eventIndices : ((xs.filter hasEvents).map fun x => x.2.2).Nodup
  calls : ∀ x ∈ xs, ∀ calls, x.1.calls = some (.decoded calls) → calls.length ≤ 256

/-- The entries of the two maps are those of the modules. -/
structure MapsOf (xs : List Numbered) (m : Metadata) : Prop where
  calls : ∃ l, List.Forall₂ IsCalls (xs.filter hasCalls) l ∧ l.Perm m.modulesWithCalls
  events : ∃ l, List.Forall₂ IsEvents (xs.filter hasEvents) l ∧ l.Perm m.modulesWithEvents

section Forall₂

variable {α β γ δ : Type} {R : α → β → Prop} {as : List α} {bs : List β}

theorem exists_of_mem_left (h : List.Forall₂ R as bs) {a : α} (ha : a ∈ as) : ∃ b ∈ bs, R a b := by
  induction h with
  | nil => cases ha
  | cons hab _ ih =>
    rcases List.mem_cons.mp ha with rfl | ha
    · exact ⟨_, List.mem_cons_self, hab⟩
    · obtain ⟨b, hb, hR⟩ := ih ha
      exact ⟨b, List.mem_cons_of_mem _ hb, hR⟩

theorem exists_of_mem_right (h : List.Forall₂ R as bs) {b : β} (hb : b ∈ bs) : ∃ a ∈ as, R a b :=
  exists_of_mem_left h.flip hb

theorem forall₂_trans {S : β → γ → Prop} {T : α → γ → Prop} {cs : List γ}
    (hT : ∀ a b c, R a b → S b c → T a c) (h : List.Forall₂ R as bs) (h' : List.Forall₂ S bs cs) :
    List.Forall₂ T as cs := by
  induction h generalizing cs with
  | nil =>
    cases h'
    exact .nil
  | cons hab _ ih =>
    cases h' with
    | cons hbc h' => exact .cons (hT _ _ _ hab hbc) (ih h')

theorem map_eq_of_forall₂ {f : α → δ} {g : β → δ} (hfg : ∀ a b, R a b → f a = g b)
    (h : List.Forall₂ R as bs) : as.map f = bs.map g := by
  induction h with
  | nil => rfl
  | cons hab _ ih => rw [List.map_cons, List.map_cons, ih, hfg _ _ hab]

theorem filterMap_eq_of_forall₂ {f : α → Option δ} {g : β → δ}
    (hfg : ∀ a b, R a b → f a = some (g b)) (h : List.Forall₂ R as bs) :
    as.filterMap f = bs.map g := by
  induction h with
  | nil => rfl
  | cons hab _ ih => rw [List.filterMap_cons_some (hfg _ _ hab), List.map_cons, ih]

end Forall₂

/-- Entries with different names fill a map as they are, and keep their names. -/
theorem nodup_keys {ν : Type} {R : Numbered → String × ν → Prop} {xs : List Numbered}
    {l : List (String × ν)} (hnames : (xs.filterMap fun x => x.1.name.value?).Nodup)
    (p : Numbered → Bool) (hR : ∀ x e, R x e → x.1.name = .decoded e.1)
    (h : List.Forall₂ R (xs.filter p) l) : (l.map Prod.fst).Nodup := by
  have hkeys : (xs.filter p).filterMap (fun x => x.1.name.value?) = l.map Prod.fst :=
    filterMap_eq_of_forall₂ (fun x e hxe => by rw [hR x e hxe]; rfl) h
  rw [← hkeys]
  exact hnames.sublist (List.filter_sublist.filterMap _)

theorem mapsOf_insertAll {xs : List Numbered} (hxs : ToldApart xs) {m m' : Metadata}
    (h : insertAll xs ⟨[], [], []⟩ = .ok m) (hsame : m.SameMaps m') : MapsOf xs m' := by
  obtain ⟨⟨cs, hcs, hcalls⟩, es, hes, hevents⟩ := insertAll_eq_ok h
  have hcs' : cs.foldl hashMapInsert [] = cs :=
    hashMapOf_of_nodup (nodup_keys hxs.names _ (fun _ _ hxe => hxe.1) hcs)
  have hes' : es.foldl hashMapInsert [] = es :=
    hashMapOf_of_nodup (nodup_keys hxs.names _ (fun _ _ hxe => hxe.1) hes)
  obtain ⟨l, hl, hperm⟩ := hsame.calls
  obtain ⟨l', hl', hperm'⟩ := hsame.events
  rw [hcalls, hcs'] at hl
  rw [hevents, hes'] at hl'
  refine ⟨⟨l, forall₂_trans ?_ hcs hl, hperm⟩, l', forall₂_trans ?_ hes hl', hperm'⟩
  · rintro x e e' ⟨hname, hn, hi, calls, names, hc, hnames, hmap⟩ ⟨h1, h2, h3, h4⟩
    exact ⟨h1 ▸ hname, h3.trans (hn.trans h1.symm), h2.trans hi, calls, names, hc, hnames,
      h4.symm.trans hmap⟩
  · rintro x e e' ⟨hname, hn, hi⟩ ⟨h1, h2, h3, h4⟩
    exact ⟨h1 ▸ hname, h3.trans (hn.trans h1.symm), h2.trans hi⟩

/-! ## Round trips -/

section RoundTrips

variable {xs : List Numbered} {m : Metadata}

theorem nodup_ofNat {start n : Nat} (h : start + n ≤ 256) :
    ((List.range' start n).map UInt8.ofNat).Nodup := by
  refine List.Nodup.map_on ?_ List.nodup_range'
  intro i hi j hj heq
  rw [List.mem_range'_1] at hi hj
  have hnat := congrArg UInt8.toNat heq
  rwa [UInt8.toNat_ofNat', UInt8.toNat_ofNat', Nat.mod_eq_of_lt (by omega),
    Nat.mod_eq_of_lt (by omega)] at hnat

theorem indexed_snd (names : List String) :
    (indexed names).map Prod.snd = (List.range' 0 names.length).map UInt8.ofNat := by
  rw [indexed, List.map_map, ← List.zipIdx_map_snd 0 names, List.map_map]
  rfl

/-- What is known of the entry of a module with calls. -/
structure CallMap (calls : List (String × UInt8)) (names : List String) : Prop where
  keys : (calls.map Prod.fst).Nodup
  indices : (calls.map Prod.snd).Nodup
  all : ∀ c ∈ names, ∃ j, (c, j) ∈ calls

theorem callMap_of_perm {calls : List (String × UInt8)} {names : List String}
    (hlength : names.length ≤ 256) (h : calls.Perm (hashMapOf (indexed names))) :
    CallMap calls names where
  keys := (h.map Prod.fst).nodup_iff.mpr (hashMapOf_nodup _)
  indices := by
    rw [(h.map Prod.snd).nodup_iff]
    refine List.Nodup.sublist ((hashMapOf_sublist _).map Prod.snd) ?_
    rw [indexed_snd]
    exact nodup_ofNat (by omega)
  all c hc := by
    obtain ⟨i, hi⟩ := List.mem_iff_getElem?.mp hc
    have hentry : (c, UInt8.ofNat i) ∈ indexed names :=
      List.mem_map.mpr ⟨(c, i), List.mk_mem_zipIdx_iff_getElem?.mpr hi, rfl⟩
    obtain ⟨j, hj⟩ := exists_mem_hashMapOf hentry
    exact ⟨j, h.mem_iff.mpr hj⟩

theorem MapsOf.keys (hxs : ToldApart xs) (h : MapsOf xs m) :
    (m.modulesWithCalls.map Prod.fst).Nodup := by
  obtain ⟨l, hl, hperm⟩ := h.calls
  rw [← (hperm.map Prod.fst).nodup_iff]
  exact nodup_keys hxs.names _ (fun _ _ hxe => hxe.1) hl

theorem MapsOf.indices (hxs : ToldApart xs) (h : MapsOf xs m) :
    ((m.modulesWithCalls.map Prod.snd).map ModuleWithCalls.index).Nodup := by
  obtain ⟨l, hl, hperm⟩ := h.calls
  rw [← ((hperm.map Prod.snd).map ModuleWithCalls.index).nodup_iff, List.map_map]
  have hindices : (xs.filter hasCalls).map (fun x => x.2.1) =
      l.map (ModuleWithCalls.index ∘ Prod.snd) :=
        map_eq_of_forall₂ (fun x e hxe => hxe.2.2.1.symm) hl
  rw [← hindices]
  exact hxs.callIndices

theorem MapsOf.eventIndices (hxs : ToldApart xs) (h : MapsOf xs m) :
    ((m.modulesWithEvents.map Prod.snd).map ModuleWithEvents.index).Nodup := by
  obtain ⟨l, hl, hperm⟩ := h.events
  rw [← ((hperm.map Prod.snd).map ModuleWithEvents.index).nodup_iff, List.map_map]
  have hindices : (xs.filter hasEvents).map (fun x => x.2.2) =
      l.map (ModuleWithEvents.index ∘ Prod.snd) :=
        map_eq_of_forall₂ (fun x e hxe => hxe.2.2.symm) hl
  rw [← hindices]
  exact hxs.eventIndices

/-- The map of the calls of an entry. -/
theorem MapsOf.callMap (hxs : ToldApart xs) (h : MapsOf xs m) {e : String × ModuleWithCalls}
    (he : e ∈ m.modulesWithCalls) : e.2.name = e.1 ∧ ∃ names, CallMap e.2.calls names := by
  obtain ⟨l, hl, hperm⟩ := h.calls
  obtain ⟨x, hx, _, hname, _, calls, names, hcalls, hnames, hmap⟩ :=
    exists_of_mem_right hl (hperm.mem_iff.mpr he)
  have hlength : names.length ≤ 256 := by
    have hle := hxs.calls x (List.mem_filter.mp hx).1 calls hcalls
    rwa [← List.length_map FunctionMetadata.name, hnames, List.length_map] at hle
  exact ⟨hname, names, callMap_of_perm hlength hmap⟩

/-- **What `compose_call` makes of two names**: the indices of an entry and of one of its calls. -/
theorem MapsOf.composeCall_eq_ok (hxs : ToldApart xs) (h : MapsOf xs m) {n c : String}
    {args bytes : Bytes} : (composeCall m n c args : Outcome Error Bytes) = .ok bytes ↔
      ∃ e ∈ m.modulesWithCalls, e.1 = n ∧
        ∃ j, (c, j) ∈ e.2.calls ∧ bytes = [e.2.index, j] ++ args := by
  unfold composeCall Metadata.moduleWithCalls
  constructor
  · intro hok
    obtain ⟨v, hv, hok⟩ := Outcome.bind_eq_ok.mp hok
    obtain ⟨j, hj, hok⟩ := Outcome.bind_eq_ok.mp hok
    rcases hlookup : m.modulesWithCalls.lookup n with _ | v' <;> rw [hlookup] at hv <;> cases hv
    rcases hcall : v.calls.lookup c with _ | j' <;> rw [hcall] at hj <;> cases hj
    have he := (lookup_eq_some_iff (h.keys hxs)).mp hlookup
    obtain ⟨_, names, hmap⟩ := h.callMap hxs he
    exact ⟨_, he, rfl, j, (lookup_eq_some_iff hmap.keys).mp hcall, (Outcome.ok.inj hok).symm⟩
  · rintro ⟨⟨n', v⟩, he, rfl, j, hj, rfl⟩
    obtain ⟨_, names, hmap⟩ := h.callMap hxs he
    rw [(lookup_eq_some_iff (h.keys hxs)).mpr he]
    show (Outcome.ofSome (v.calls.lookup c) >>= _) = _
    rw [(lookup_eq_some_iff hmap.keys).mpr hj]
    rfl

/-- The two indices are looked up as the names they were made of. -/
theorem MapsOf.callName_eq (hxs : ToldApart xs) (h : MapsOf xs m) {helper : ChainHelper}
    (hhelper : helper.metadata = m) {e : String × ModuleWithCalls} (he : e ∈ m.modulesWithCalls)
    {c : String} {j : UInt8} (hj : (c, j) ∈ e.2.calls) (args : Bytes) :
    helper.callName ⟨e.2.index, j, args⟩ = some (e.1, c) := by
  obtain ⟨hname, names, hmap⟩ := h.callMap hxs he
  have hmodule : ((m.modulesWithCalls.map Prod.snd).find? fun module =>
      module.index = e.2.index) = some e.2 :=
    (find?_eq_some_iff_of_nodup (h.indices hxs)).mpr ⟨List.mem_map_of_mem he, rfl⟩
  have hcall : (e.2.calls.find? fun call => call.2 = j) = some (c, j) :=
    (find?_eq_some_iff_of_nodup hmap.indices).mpr ⟨hj, rfl⟩
  unfold ChainHelper.callName
  rw [hhelper]
  simp only [hmodule, hcall, hname, Option.bind_eq_bind, Option.bind_some]

theorem okOr_eq_ok {ε α : Type} {e : ε} {x : Option α} {a : α} :
    Outcome.okOr e x = .ok a ↔ x = some a := by
  cases x <;> simp [Outcome.okOr]

/-- Which module's events have an index. -/
theorem MapsOf.moduleWithEvents_iff (hxs : ToldApart xs) (h : MapsOf xs m) {i : UInt8}
    {n : String} :
    (∃ module, m.moduleWithEvents i = .ok module ∧ module.name = n) ↔
      ∃ x ∈ xs, x.1.event.isSome ∧ x.1.name = .decoded n ∧ x.2.2 = i := by
  obtain ⟨l, hl, hperm⟩ := h.events
  have hfind : ∀ module, m.moduleWithEvents i = .ok module ↔
      module ∈ m.modulesWithEvents.map Prod.snd ∧ module.index = i := by
    intro module
    rw [← find?_eq_some_iff_of_nodup (h.eventIndices hxs)]
    exact okOr_eq_ok
  constructor
  · rintro ⟨module, hmodule, rfl⟩
    obtain ⟨hmem, hindex⟩ := (hfind module).mp hmodule
    obtain ⟨e, he, rfl⟩ := List.mem_map.mp hmem
    obtain ⟨x, hx, hname, hn, hi⟩ := exists_of_mem_right hl (hperm.mem_iff.mpr he)
    obtain ⟨hx, hevents⟩ := List.mem_filter.mp hx
    exact ⟨x, hx, hevents, hn ▸ hname, hi.symm.trans hindex⟩
  · rintro ⟨x, hx, hevents, hname, hi⟩
    obtain ⟨e, he, hname', hn, hi'⟩ := exists_of_mem_left hl (List.mem_filter.mpr ⟨hx, hevents⟩)
    refine ⟨e.2, (hfind e.2).mpr ⟨List.mem_map_of_mem (hperm.mem_iff.mp he), hi'.trans hi⟩, ?_⟩
    rw [hname] at hname'
    cases hname'
    exact hn

end RoundTrips

/-! ## What is made of a runtime -/

/-- The modules of a runtime, where they can be decoded. -/
def RuntimeMetadata.modules : RuntimeMetadata → List RuntimeMetadata.ModuleMetadata
  | .v11 (.decoded modules) => modules
  | .v12 (.decoded modules) => modules.map ModuleMetadataV12.toModuleMetadata
  | _ => []

/-- A runtime of version 11 or 12 whose modules have distinct names (and for version 12 distinct
indices), at most 256 of them with at most 256 calls each. -/
structure RuntimeMetadata.Regular (metadata : RuntimeMetadata) : Prop where
  version : metadata ≠ .older
  names : (metadata.modules.filterMap fun module => module.name.value?).Nodup
  indices : ∀ modules, metadata = .v12 (.decoded modules) →
    (modules.map ModuleMetadataV12.index).Nodup
  length : metadata.modules.length ≤ 256
  calls : ∀ module ∈ metadata.modules, ∀ calls, module.calls = some (.decoded calls) →
    calls.length ≤ 256

/-- The runtime numbers the events of the module `n` with `i`: with its index, or with the number
of modules with events before it. -/
def RuntimeMetadata.NumbersEvents (i : UInt8) (n : String) : RuntimeMetadata → Prop
  | .v12 (.decoded modules) => ∃ module ∈ modules,
      module.event.isSome ∧ module.name = .decoded n ∧ module.index = i
  | .v11 (.decoded modules) => ∃ pre module post, modules = pre ++ module :: post ∧
      module.event.isSome ∧ module.name = .decoded n ∧
        pre.countP (fun x => x.event.isSome) = i.toNat
  | _ => False

/-- What `compose_call` makes of a module and a call is decoded as that module and call, in any
order of iteration, and the events are found under their number. -/
structure RoundTrips (metadata : RuntimeMetadata) (m : Metadata) : Prop where
  calls : ∀ module ∈ metadata.modules, ∀ n, module.name = .decoded n →
    ∀ calls, module.calls = some (.decoded calls) → ∀ call ∈ calls, ∀ c, call.name = .decoded c →
      ∀ args, ∃ i j, (composeCall m n c args : Outcome Error Bytes) = .ok ([i, j] ++ args) ∧
        ∀ helper : ChainHelper, helper.metadata = m → helper.callName ⟨i, j, args⟩ = some (n, c)
  distinct : ∀ n c n' c' bytes, (composeCall m n c [] : Outcome Error Bytes) = .ok bytes →
    (composeCall m n' c' [] : Outcome Error Bytes) = .ok bytes → n = n' ∧ c = c'
  events : ∀ i n, (∃ module, m.moduleWithEvents i = .ok module ∧ module.name = n) ↔
    metadata.NumbersEvents i n

/-- The conversion does not overflow, and what it makes round trips. -/
structure Converted (metadata : RuntimeMetadataPrefixed) : Prop where
  total : ∀ p, Metadata.tryFrom metadata ≠ .panic p
  roundTrips : ∀ m, Metadata.tryFrom metadata = .ok m → ∀ m', m.SameMaps m' →
    RoundTrips metadata.metadata m'

/-- The condition: no counter of version 11 runs out. -/
def CountersSuffice (metadata : RuntimeMetadataPrefixed) : Prop :=
  metadata.magic = metaReserved → ∀ modules, metadata.metadata = .v11 (.decoded modules) →
    ¬ RunsOut 0 0 modules

theorem MapsOf.roundTrips {metadata : RuntimeMetadata} {xs : List Numbered} {m : Metadata}
    (hxs : ToldApart xs) (h : MapsOf xs m) (hmodules : xs.map Prod.fst = metadata.modules)
    (hevents : ∀ i n, (∃ x ∈ xs, x.1.event.isSome ∧ x.1.name = .decoded n ∧ x.2.2 = i) ↔
      metadata.NumbersEvents i n) : RoundTrips metadata m where
  calls := by
    intro module hmodule n hn calls hcalls call hcall c hc args
    rw [← hmodules] at hmodule
    obtain ⟨x, hx, rfl⟩ := List.mem_map.mp hmodule
    obtain ⟨l, hl, hperm⟩ := h.calls
    have hx' : x ∈ xs.filter hasCalls := List.mem_filter.mpr ⟨hx, by simp [hasCalls, hcalls]⟩
    obtain ⟨e, he, hname, _, _, calls', names, hcalls', hnames, hmap⟩ := exists_of_mem_left hl hx'
    have he' : e ∈ m.modulesWithCalls := hperm.mem_iff.mp he
    rw [hn] at hname
    rw [hcalls] at hcalls'
    cases hname
    cases hcalls'
    have hlength : names.length ≤ 256 := by
      have hle := hxs.calls x hx calls hcalls
      rwa [← List.length_map FunctionMetadata.name, hnames, List.length_map] at hle
    have hmem : DecodeDifferent.decoded c ∈ names.map DecodeDifferent.decoded := by
      rw [← hnames, ← hc]
      exact List.mem_map_of_mem hcall
    obtain ⟨c', hc', hcc⟩ := List.mem_map.mp hmem
    cases hcc
    obtain ⟨j, hj⟩ := (callMap_of_perm hlength hmap).all c hc'
    refine ⟨e.2.index, j, (h.composeCall_eq_ok hxs).mpr ⟨e, he', rfl, j, hj, rfl⟩, ?_⟩
    intro helper hhelper
    exact h.callName_eq hxs hhelper he' hj args
  distinct := by
    intro n c n' c' bytes hok hok'
    obtain ⟨e, he, rfl, j, hj, rfl⟩ := (h.composeCall_eq_ok hxs).mp hok
    obtain ⟨e', he', rfl, j', hj', hbytes⟩ := (h.composeCall_eq_ok hxs).mp hok'
    -- both are decoded as what they were made of
    let helper : ChainHelper := ⟨m, 0, 0, ⟨List.replicate 32 0, List.length_replicate⟩⟩
    have hname := @MapsOf.callName_eq xs m hxs h helper rfl e he c j hj []
    have hname' := @MapsOf.callName_eq xs m hxs h helper rfl e' he' c' j' hj' []
    simp only [List.append_nil, List.cons.injEq, and_true] at hbytes
    rw [hbytes.1, hbytes.2, hname'] at hname
    obtain ⟨hn, hc⟩ := Prod.mk.inj (Option.some.inj hname)
    exact ⟨hn.symm, hc.symm⟩
  events i n := (h.moduleWithEvents_iff hxs).trans (hevents i n)

/-! ### Numbers -/

theorem map_fst_numberV11 (calls events : Nat) (modules : List RuntimeMetadata.ModuleMetadata) :
    (numberV11 calls events modules).map Prod.fst = modules := by
  induction modules generalizing calls events with
  | nil => rfl
  | cons module modules ih => rw [numberV11, List.map_cons, ih]

/-- The modules with calls are numbered one after the other. -/
theorem callIndices_numberV11 (calls events : Nat) (modules : List RuntimeMetadata.ModuleMetadata) :
    ((numberV11 calls events modules).filter hasCalls).map (fun x => x.2.1) =
      (List.range' calls (modules.countP fun x => x.calls.isSome)).map UInt8.ofNat := by
  induction modules generalizing calls events with
  | nil => rfl
  | cons module modules ih =>
    rw [numberV11]
    cases hc : module.calls.isSome with
    | true =>
      rw [List.filter_cons_of_pos (by simpa [hasCalls] using hc), List.countP_cons, if_pos hc,
        List.range'_succ, List.map_cons, List.map_cons, ih]
      rfl
    | false =>
      rw [List.filter_cons_of_neg (by simp [hasCalls, hc]), List.countP_cons,
        if_neg (by simp [hc]), ih]
      rfl

theorem eventIndices_numberV11 (calls events : Nat)
    (modules : List RuntimeMetadata.ModuleMetadata) :
    ((numberV11 calls events modules).filter hasEvents).map (fun x => x.2.2) =
      (List.range' events (modules.countP fun x => x.event.isSome)).map UInt8.ofNat := by
  induction modules generalizing calls events with
  | nil => rfl
  | cons module modules ih =>
    rw [numberV11]
    cases he : module.event.isSome with
    | true =>
      rw [List.filter_cons_of_pos (by simpa [hasEvents] using he), List.countP_cons, if_pos he,
        List.range'_succ, List.map_cons, List.map_cons, ih]
      rfl
    | false =>
      rw [List.filter_cons_of_neg (by simp [hasEvents, he]), List.countP_cons,
        if_neg (by simp [he]), ih]
      rfl

theorem mem_numberV11 {calls events : Nat} {modules : List RuntimeMetadata.ModuleMetadata}
    {x : Numbered} : x ∈ numberV11 calls events modules ↔ ∃ pre post, modules = pre ++ x.1 :: post ∧
      x.2 = (UInt8.ofNat (calls + pre.countP fun y => y.calls.isSome),
        UInt8.ofNat (events + pre.countP fun y => y.event.isSome)) := by
  induction modules generalizing calls events with
  | nil => simp [numberV11]
  | cons module modules ih =>
    rw [numberV11, List.mem_cons, ih]
    constructor
    · rintro (rfl | ⟨pre, post, rfl, hx⟩)
      · exact ⟨[], modules, rfl, rfl⟩
      · refine ⟨module :: pre, post, rfl, ?_⟩
        rw [hx, add_countP_cons, add_countP_cons]
    · rintro ⟨pre, post, hsplit, hx⟩
      cases pre with
      | nil =>
        obtain ⟨rfl, rfl⟩ := List.cons.inj hsplit
        exact .inl (Prod.ext rfl hx)
      | cons y pre =>
        obtain ⟨rfl, rfl⟩ := List.cons.inj hsplit
        rw [add_countP_cons, add_countP_cons] at hx
        exact .inr ⟨pre, post, rfl, hx⟩

theorem toldApart_numberV11 {modules : List RuntimeMetadata.ModuleMetadata}
    (h : (RuntimeMetadata.v11 (.decoded modules)).Regular) : ToldApart (numberV11 0 0 modules) where
  names := by
    have hnames := h.names
    rw [RuntimeMetadata.modules, ← map_fst_numberV11 0 0 modules, List.filterMap_map] at hnames
    exact hnames
  callIndices := by
    rw [callIndices_numberV11]
    have hcount : modules.countP (fun x => x.calls.isSome) ≤ 256 :=
      List.countP_le_length.trans h.length
    exact nodup_ofNat (by omega)
  eventIndices := by
    rw [eventIndices_numberV11]
    have hcount : modules.countP (fun x => x.event.isSome) ≤ 256 :=
      List.countP_le_length.trans h.length
    exact nodup_ofNat (by omega)
  calls := by
    intro x hx
    have hmem : x.1 ∈ (numberV11 0 0 modules).map Prod.fst := List.mem_map_of_mem hx
    rw [map_fst_numberV11] at hmem
    exact h.calls x.1 hmem

theorem toldApart_numberV12 {modules : List ModuleMetadataV12}
    (h : (RuntimeMetadata.v12 (.decoded modules)).Regular) : ToldApart (modules.map numberV12) where
  names := by
    have hnames := h.names
    rw [RuntimeMetadata.modules, List.filterMap_map] at hnames
    rw [List.filterMap_map]
    exact hnames
  callIndices := by
    have hindices : ((modules.map numberV12).map fun x => x.2.1).Nodup := by
      rw [List.map_map]
      exact h.indices modules rfl
    exact hindices.sublist (List.filter_sublist.map _)
  eventIndices := by
    have hindices : ((modules.map numberV12).map fun x => x.2.2).Nodup := by
      rw [List.map_map]
      exact h.indices modules rfl
    exact hindices.sublist (List.filter_sublist.map _)
  calls := by
    intro x hx
    obtain ⟨module, hmodule, rfl⟩ := List.mem_map.mp hx
    exact h.calls module.toModuleMetadata (List.mem_map_of_mem hmodule)

theorem numbersEvents_v11 {modules : List RuntimeMetadata.ModuleMetadata}
    (hlength : modules.length ≤ 256) (i : UInt8) (n : String) :
    (∃ x ∈ numberV11 0 0 modules, x.1.event.isSome ∧ x.1.name = .decoded n ∧ x.2.2 = i) ↔
      (RuntimeMetadata.v11 (.decoded modules)).NumbersEvents i n := by
  -- the number of modules before one fits a byte
  have hfits : ∀ pre module post, modules = pre ++ module :: post →
      (UInt8.ofNat (0 + pre.countP fun x => x.event.isSome)).toNat =
        pre.countP fun x => x.event.isSome := by
    intro pre module post hsplit
    rw [Nat.zero_add]
    have hcount : pre.countP (fun x => x.event.isSome) ≤ pre.length := List.countP_le_length
    rw [hsplit, List.length_append, List.length_cons] at hlength
    rw [UInt8.toNat_ofNat', Nat.mod_eq_of_lt (by omega)]
  constructor
  · rintro ⟨x, hx, hevents, hname, rfl⟩
    obtain ⟨pre, post, hsplit, hnumbers⟩ := mem_numberV11.mp hx
    refine ⟨pre, x.1, post, hsplit, hevents, hname, ?_⟩
    rw [hnumbers]
    exact (hfits pre x.1 post hsplit).symm
  · rintro ⟨pre, module, post, hsplit, hevents, hname, hcount⟩
    refine ⟨(module, UInt8.ofNat (0 + pre.countP fun y => y.calls.isSome),
      UInt8.ofNat (0 + pre.countP fun y => y.event.isSome)),
      mem_numberV11.mpr ⟨pre, post, hsplit, rfl⟩, hevents, hname, ?_⟩
    exact UInt8.toNat_inj.mp ((hfits pre module post hsplit).trans hcount)

/-- A module under a name of its own, with a list of calls that is empty. -/
def emptyModule (i : Nat) : RuntimeMetadata.ModuleMetadata where
  name := .decoded (String.ofList (List.replicate i 'm'))
  storage := none
  calls := some (.decoded [])
  event := none

def manyModules (n : Nat) : RuntimeMetadata := .v11 (.decoded ((List.range n).map emptyModule))

theorem emptyModule_converts (i : Nat) :
    FrontConverts (emptyModule i) ∧ EventsConvert (emptyModule i) := by
  refine ⟨⟨rfl, rfl, ?_⟩, fun _ h => nomatch h⟩
  intro calls hcalls
  cases hcalls
  rfl

theorem regular_manyModules {n : Nat} (hn : n ≤ 256) : (manyModules n).Regular where
  version := RuntimeMetadata.noConfusion
  names := by
    rw [manyModules, RuntimeMetadata.modules, List.filterMap_map]
    refine (List.nodup_range.filterMap ?_)
    intro i j name hi hj
    have hlength := (Option.some.inj hi).trans (Option.some.inj hj).symm
    simpa using congrArg List.length (String.ofList_injective hlength)
  indices _ h := nomatch h
  length := by simpa [manyModules, RuntimeMetadata.modules] using hn
  calls := by
    intro module hmodule calls hcalls
    obtain ⟨i, _, rfl⟩ := List.mem_map.mp hmodule
    cases hcalls
    exact Nat.zero_le _

end Cashbox.Eee
