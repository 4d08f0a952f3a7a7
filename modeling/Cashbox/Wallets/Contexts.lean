import Cashbox.Lib.Run
import Cashbox.Lib.Text
import Cashbox.Lib.UniqueTable

/-!
# The registry of contexts

Each instance of the wallets has a context, and the registry keeps the instances by the
identifiers of their contexts, with copies of the first and of the last context. The first and
the last context that it returns should be the earliest and the latest that is still
registered; but only `clean` looks after the copies, and an instance is registered before it
is known that it can be initialised.
-/

namespace Cashbox.Wallets.Registry

open Cashbox.Lib

/-! ## The registry -/

structure Context where
  id : Text
  contextNote : Text
  deriving DecidableEq

structure Contexts where
  /-- a `HashMap`; of the instances the contexts only -/
  wMap : List (Text × Context)
  lastContext : Option Context
  firstContext : Option Context
  deriving DecidableEq

namespace Contexts

/-- `Contexts::default` -/
def empty : Contexts := ⟨[], none, none⟩

def remove (c : Contexts) (key : Text) : Contexts × Option Context :=
  ({ c with wMap := c.wMap.filter fun e => e.1 ≠ key }, c.wMap.lookup key)

/-- The instances have nothing to do when they are uninitialised, and none of them fails. -/
def clean (c : Contexts) : Contexts :=
  { c with wMap := [], lastContext := none, firstContext := none }

def new (c : Contexts) (ctx : Context) : Contexts where
  wMap := hashMapInsert c.wMap (ctx.id, ctx)
  lastContext := some ctx
  firstContext := if c.firstContext.isNone then some ctx else c.firstContext

end Contexts

inductive Error where
  | success
  | parameter
  /-- what `init` of the instance returned -/
  | wallet
  | none
  deriving DecidableEq

/-- `Wallets_init`, with a new context and whether the instance can be initialised. -/
def walletsInit (c : Contexts) (null : Bool) (ctx : Context) (initialises : Bool) :
    Contexts × Error :=
  if null then (c, .parameter)
  else (c.new ctx, if initialises then .success else .wallet)

/-- `Wallets_uninit` -/
def walletsUninit (c : Contexts) : Option Text → Contexts × Error
  | Option.none => (c, .parameter)
  | some id =>
    let (c, wallets) := c.remove id
    (c, if wallets.isSome then .success else .none)

/-! ## Calls, one after the other -/

inductive Call where
  | init (null : Bool) (ctx : Context) (initialises : Bool)
  | uninit (id : Option Text)
  | clean
  deriving DecidableEq

structure State where
  contexts : Contexts
  /-- the contexts that were initialised and are not removed, the earliest first -/
  present : List Context
  /-- each `Wallets_init` that returned an error left the registry as it was -/
  restored : Bool

def State.new : State := ⟨.empty, [], true⟩

def step (s : State) : Call → State
  | .init null ctx initialises =>
    match walletsInit s.contexts null ctx initialises with
    | (contexts, .success) =>
      ⟨contexts, s.present.filter (fun c => c.id ≠ ctx.id) ++ [ctx], s.restored⟩
    | (contexts, _) => ⟨contexts, s.present, s.restored && contexts = s.contexts⟩
  | .uninit id =>
    ⟨(walletsUninit s.contexts id).1, s.present.filter fun c => some c.id ≠ id, s.restored⟩
  | .clean => ⟨s.contexts.clean, [], s.restored⟩

/-- What the registry says of the first and of the last context is so. -/
structure Consistent (s : State) : Prop where
  firstIn : ∀ ctx, s.contexts.firstContext = some ctx → (ctx.id, ctx) ∈ s.contexts.wMap
  lastIn : ∀ ctx, s.contexts.lastContext = some ctx → (ctx.id, ctx) ∈ s.contexts.wMap
  first : s.contexts.firstContext = s.present.head?
  last : s.contexts.lastContext = s.present.getLast?
  restored : s.restored = true

/-- The condition on a call: an instance is initialised, under an identifier other than that of
the earliest context, and one is removed that is neither the earliest nor the latest. -/
def Call.Ok (s : State) : Call → Prop
  | .init null ctx initialises => null = false →
      if initialises then
        ∀ first, s.present.head? = some first → first.id = ctx.id → s.present = [ctx]
      else s.present.getLast? = some ctx
  | .uninit id => ∀ ctx, s.present.head? = some ctx ∨ s.present.getLast? = some ctx →
      some ctx.id ≠ id
  | .clean => True

/-! ## Runs -/

/-- The map has the contexts that are present. -/
structure Inv (s : State) : Prop extends Consistent s where
  wMap : s.contexts.wMap = s.present.map fun ctx => (ctx.id, ctx)
  nodup : (s.present.map Context.id).Nodup

section Steps

variable {s : State}

theorem hashMapInsert_present (ctx : Context) (present : List Context) :
    hashMapInsert (present.map fun c => (c.id, c)) (ctx.id, ctx) =
      (present.filter (fun c => c.id ≠ ctx.id) ++ [ctx]).map fun c => (c.id, c) := by
  unfold hashMapInsert
  rw [List.filter_map, List.map_append]
  rfl

theorem filter_present (present : List Context) (id : Text) :
    (present.map fun c => (c.id, c)).filter (fun e => e.1 ≠ id) =
      (present.filter fun c => c.id ≠ id).map fun c => (c.id, c) := by
  rw [List.filter_map]
  rfl

/-- A list whose first element is kept has the same first element. -/
theorem head?_filter {p : Context → Bool} {present : List Context}
    (h : ∀ ctx, present.head? = some ctx → p ctx = true) :
    (present.filter p).head? = present.head? := by
  cases present with
  | nil => rfl
  | cons ctx present =>
    rw [List.filter_cons_of_pos (h ctx rfl)]
    rfl

theorem getLast?_filter {p : Context → Bool} {present : List Context}
    (h : ∀ ctx, present.getLast? = some ctx → p ctx = true) :
    (present.filter p).getLast? = present.getLast? := by
  rw [List.getLast?_eq_head?_reverse, List.getLast?_eq_head?_reverse, ← List.filter_reverse]
  refine head?_filter fun ctx hctx => h ctx ?_
  rwa [List.getLast?_eq_head?_reverse]

/-- The first and the last context are those of the map. -/
theorem Inv.of_present (hfirst : s.contexts.firstContext = s.present.head?)
    (hlast : s.contexts.lastContext = s.present.getLast?) (hrestored : s.restored = true)
    (hwMap : s.contexts.wMap = s.present.map fun ctx => (ctx.id, ctx))
    (hnodup : (s.present.map Context.id).Nodup) : Inv s where
  firstIn ctx h := by
    rw [hwMap]
    exact List.mem_map_of_mem (List.mem_of_head? (hfirst.symm.trans h))
  lastIn ctx h := by
    rw [hwMap]
    exact List.mem_map_of_mem (List.mem_of_getLast? (hlast.symm.trans h))
  first := hfirst
  last := hlast
  restored := hrestored
  wMap := hwMap
  nodup := hnodup

theorem inv_new : Inv State.new := Inv.of_present rfl rfl rfl rfl List.nodup_nil

theorem nodup_filter_concat {present : List Context} (h : (present.map Context.id).Nodup)
    (ctx : Context) :
    ((present.filter (fun c => c.id ≠ ctx.id) ++ [ctx]).map Context.id).Nodup := by
  rw [List.map_append, List.map_singleton]
  refine List.nodup_append.mpr ⟨h.sublist (List.filter_sublist.map _), List.nodup_singleton _, ?_⟩
  intro id hid id' hid'
  obtain ⟨c, hc, rfl⟩ := List.mem_map.mp hid
  rw [List.mem_singleton.mp hid']
  simpa using (List.mem_filter.mp hc).2

/-- An instance is registered before it is initialised. -/
theorem new_eq_self_iff (h : Inv s) (ctx : Context) :
    s.contexts.new ctx = s.contexts ↔ s.present.getLast? = some ctx := by
  constructor
  · intro hsame
    rw [← h.last, ← hsame]
    rfl
  · intro hlast
    obtain ⟨front, hpresent⟩ := List.getLast?_eq_some_iff.mp hlast
    have hnodup := h.nodup
    rw [hpresent, List.map_append, List.map_singleton] at hnodup
    have hfront : front.filter (fun c => c.id ≠ ctx.id) = front := by
      refine List.filter_eq_self.mpr fun c hc => ?_
      have hne := (List.nodup_append.mp hnodup).2.2 c.id (List.mem_map_of_mem hc) ctx.id
        (List.mem_singleton.mpr rfl)
      simpa using hne
    have hwMap : hashMapInsert s.contexts.wMap (ctx.id, ctx) = s.contexts.wMap := by
      rw [h.wMap, hashMapInsert_present, hpresent, List.filter_append, hfront]
      simp
    have hsome : s.contexts.firstContext.isNone = false := by
      rw [h.first, hpresent]
      cases front <;> rfl
    unfold Contexts.new
    rw [hwMap, hsome, ← hlast, ← h.last]
    rfl

/-- The earliest context after one is registered. -/
theorem first_new_iff (h : Inv s) (ctx : Context) :
    (s.contexts.new ctx).firstContext =
        (s.present.filter (fun c => c.id ≠ ctx.id) ++ [ctx]).head? ↔
      ∀ first, s.present.head? = some first → first.id = ctx.id → s.present = [ctx] := by
  unfold Contexts.new
  rw [h.first]
  have hnodup := h.nodup
  cases hpresent : s.present with
  | nil => simp
  | cons first present =>
    rw [hpresent, List.map_cons, List.nodup_cons] at hnodup
    by_cases hid : first.id = ctx.id
    · have hrest : present.filter (fun c => c.id ≠ ctx.id) = present := by
        refine List.filter_eq_self.mpr fun c hc => ?_
        have hne : c.id ≠ first.id := fun heq => hnodup.1 (heq ▸ List.mem_map_of_mem hc)
        simpa [← hid] using hne
      rw [List.filter_cons_of_neg (by simpa using hid), hrest]
      cases present with
      | nil => simp [hid]
      | cons second present =>
        have hne : first ≠ second := by
          rintro rfl
          exact hnodup.1 (by simp)
        simp [hid, hne]
    · simp [hid]

/-- **One call**: the condition keeps the invariant, and without it the registry is not
consistent any more. -/
theorem step_ok {a : Call} (h : Inv s) :
    (a.Ok s → Inv (step s a)) ∧ (Consistent (step s a) → a.Ok s) := by
  cases a with
  | clean => exact ⟨fun _ => .of_present rfl rfl h.restored rfl List.nodup_nil, fun _ => trivial⟩
  | init null ctx initialises =>
    cases null with
    -- a null context is answered before the registry is touched
    | true =>
      refine ⟨fun _ => .of_present h.first h.last ?_ h.wMap h.nodup, fun _ hnull => nomatch hnull⟩
      simp [step, walletsInit, h.restored]
    | false =>
      cases initialises with
      | true =>
        -- the context goes to the end, so that it must not have been the first of several
        rw [show Call.Ok s (.init false ctx true) ↔ _ from forall_prop_of_true rfl, if_pos rfl,
          ← first_new_iff h]
        constructor
        · intro hfirst
          refine .of_present hfirst ?_ h.restored ?_ (nodup_filter_concat h.nodup ctx)
          · exact List.getLast?_concat.symm
          · exact (congrArg (hashMapInsert · (ctx.id, ctx)) h.wMap).trans (hashMapInsert_present ..)
        · exact fun hcons => hcons.first
      -- the context is registered although it could not be initialised
      | false =>
        rw [show Call.Ok s (.init false ctx false) ↔ _ from forall_prop_of_true rfl,
          if_neg (by simp),
          ← new_eq_self_iff h]
        constructor
        · intro hsame
          have hstep : step s (.init false ctx false) = s := by
            show (⟨s.contexts.new ctx, s.present, s.restored && _⟩ : State) = s
            simp [hsame]
          rw [hstep]
          exact h
        · intro hcons
          have hrestored := hcons.restored
          simpa [step, walletsInit, h.restored] using hrestored
  | uninit id =>
    cases id with
    | none =>
      refine ⟨fun _ => ?_, fun _ ctx _ => by simp⟩
      simpa [step, walletsUninit] using h
    | some id =>
      have hwMap : (step s (.uninit (some id))).contexts.wMap =
          (step s (.uninit (some id))).present.map fun ctx => (ctx.id, ctx) := by
        have hfilter := filter_present s.present id
        rw [← h.wMap] at hfilter
        simpa [step, walletsUninit, Contexts.remove] using hfilter
      -- the removed context is in the map no more
      have hmem : ∀ ctx, (ctx.id, ctx) ∈ (step s (.uninit (some id))).contexts.wMap →
          some ctx.id ≠ some id := by
        intro ctx hctx
        rw [hwMap] at hctx
        obtain ⟨c, hc, heq⟩ := List.mem_map.mp hctx
        obtain rfl := (Prod.mk.inj heq).2
        simpa using (List.mem_filter.mp hc).2
      constructor
      · intro hok
        refine .of_present ?_ ?_ h.restored hwMap ?_
        · refine h.first.trans (head?_filter fun ctx hctx => ?_).symm
          simpa using hok ctx (.inl hctx)
        · refine h.last.trans (getLast?_filter fun ctx hctx => ?_).symm
          simpa using hok ctx (.inr hctx)
        · exact h.nodup.sublist (List.filter_sublist.map _)
      · intro hcons ctx hctx
        rcases hctx with hhead | hlast
        · exact hmem ctx (hcons.firstIn ctx (h.first.trans hhead))
        · exact hmem ctx (hcons.lastIn ctx (h.last.trans hlast))

end Steps

/-- **The registry of contexts** is consistent in every state of a run exactly if no instance
fails to be initialised and none is removed whose context is the earliest or the latest. -/
theorem consistent_run_iff (as : List Call) :
    (∀ pre, pre <+: as → Consistent (run step State.new pre)) ↔
      Guarded step (fun s a => a.Ok s) State.new as := by
  have hgood : ∀ s, Inv s → Consistent s := fun _ h => h.toConsistent
  have hstep : ∀ s (a : Call), Inv s → a.Ok s → Inv (step s a) := fun _ _ h => (step_ok h).1
  have hbad : ∀ s (a : Call), Inv s → ¬ a.Ok s → ¬ Consistent (step s a) :=
    fun _ _ h hno hcons => hno ((step_ok h).2 hcons)
  exact forall_prefix_iff_guarded hgood hstep hbad inv_new as

/-- The only context is removed, and is still the first one. -/
theorem not_consistent_of_uninit :
    ¬ ∀ as, ∀ pre, pre <+: as → Consistent (run step State.new pre) := by
  intro h
  have hcons := h [.init false ⟨['a'], []⟩ true, .uninit (some ['a'])] _ List.prefix_rfl
  have hmem := hcons.firstIn ⟨['a'], []⟩ rfl
  revert hmem
  decide

end Cashbox.Wallets.Registry
