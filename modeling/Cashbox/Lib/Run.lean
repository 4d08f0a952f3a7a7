import Mathlib.Data.List.Basic

/-!
# Runs of a state machine

A state machine is a step function `step : σ → α → σ`; a run feeds it a list of
inputs. `Guarded step ok s as` says that every step of the run from `s` meets
the condition `ok` in the state it starts from. The rules below turn a lemma
about one step into a statement about every state of a run.
-/

namespace Cashbox.Lib

variable {σ α : Type}

/-! ## Runs -/

/-- The state after feeding `as` to the machine. -/
def run (step : σ → α → σ) (s : σ) (as : List α) : σ := as.foldl step s

@[simp] theorem run_nil (step : σ → α → σ) (s : σ) : run step s [] = s := rfl

@[simp] theorem run_cons (step : σ → α → σ) (s : σ) (a : α) (as : List α) :
    run step s (a :: as) = run step (step s a) as := rfl

theorem run_append (step : σ → α → σ) (s : σ) (as bs : List α) :
    run step s (as ++ bs) = run step (run step s as) bs := List.foldl_append ..

/-! ## Runs whose steps meet a condition -/

/-- Every step of the run from `s` meets `ok` in the state it starts from. -/
def Guarded (step : σ → α → σ) (ok : σ → α → Prop) (s : σ) : List α → Prop
  | [] => True
  | a :: as => ok s a ∧ Guarded step ok (step s a) as

@[simp] theorem guarded_nil (step : σ → α → σ) (ok : σ → α → Prop) (s : σ) :
    Guarded step ok s [] := trivial

@[simp] theorem guarded_cons {step : σ → α → σ} {ok : σ → α → Prop} {s : σ} {a : α}
    {as : List α} : Guarded step ok s (a :: as) ↔ ok s a ∧ Guarded step ok (step s a) as :=
  Iff.rfl

theorem guarded_append {step : σ → α → σ} {ok : σ → α → Prop} {s : σ}
    {as bs : List α} : Guarded step ok s (as ++ bs) ↔
      Guarded step ok s as ∧ Guarded step ok (run step s as) bs := by
  induction as generalizing s with
  | nil => simp
  | cons a as ih => simp [ih, and_assoc]

/-- Two conditions that are the same for every step are the same for every run. -/
theorem guarded_congr {step : σ → α → σ} {ok ok' : σ → α → Prop}
    (h : ∀ s a, ok s a ↔ ok' s a) {s : σ} {as : List α} :
    Guarded step ok s as ↔ Guarded step ok' s as := by
  induction as generalizing s with
  | nil => exact Iff.rfl
  | cons a as ih => exact and_congr (h s a) ih

instance decidableGuarded {step : σ → α → σ} {ok : σ → α → Prop}
    [∀ s a, Decidable (ok s a)] :
    ∀ (s : σ) (as : List α), Decidable (Guarded step ok s as)
  | _, [] => isTrue trivial
  | s, a :: as =>
    have : Decidable (Guarded step ok (step s a) as) := decidableGuarded (step s a) as
    inferInstanceAs (Decidable (ok s a ∧ Guarded step ok (step s a) as))

/-- **Invariant rule for guarded runs**: a property preserved by the steps that
meet the condition holds after every run whose steps all meet it. -/
theorem Guarded.invariant {step : σ → α → σ} {ok : σ → α → Prop} {Inv : σ → Prop}
    (hstep : ∀ s a, Inv s → ok s a → Inv (step s a)) {s : σ} {as : List α}
    (hs : Inv s) (h : Guarded step ok s as) : Inv (run step s as) := by
  induction as generalizing s with
  | nil => exact hs
  | cons a as ih =>
    obtain ⟨hok, hrest⟩ := h
    have hnext : Inv (step s a) := hstep s a hs hok
    exact ih hnext hrest

/-- The step taken after a part of a guarded run meets the condition, and the
invariant holds in the state it starts from. -/
theorem Guarded.at_step {step : σ → α → σ} {ok : σ → α → Prop} {Inv : σ → Prop}
    (hstep : ∀ s a, Inv s → ok s a → Inv (step s a)) {s : σ} {pre post : List α} {a : α}
    (hs : Inv s) (h : Guarded step ok s (pre ++ a :: post)) :
    Inv (run step s pre) ∧ ok (run step s pre) a := by
  obtain ⟨hpre, hrest⟩ := guarded_append.mp h
  exact ⟨hpre.invariant hstep hs, hrest.1⟩

/-- Two conditions that are the same in good states are the same for every run that
stays in good states while it meets the second. -/
theorem guarded_iff_of_invariant {step : σ → α → σ} {ok ok' : σ → α → Prop} {Inv : σ → Prop}
    (h : ∀ s a, Inv s → (ok s a ↔ ok' s a)) (hstep : ∀ s a, Inv s → ok' s a → Inv (step s a))
    {s : σ} (hs : Inv s) {as : List α} : Guarded step ok s as ↔ Guarded step ok' s as := by
  induction as generalizing s with
  | nil => exact Iff.rfl
  | cons a as ih =>
    rw [guarded_cons, guarded_cons, h s a hs]
    exact and_congr_right fun hok => ih (hstep s a hs hok)

/-- What holds in every state of a run holds in the first one and in those after the first step. -/
theorem forall_prefix_cons {step : σ → α → σ} {P : σ → Prop} {s : σ} {a : α} {as : List α} :
    (∀ pre, pre <+: a :: as → P (run step s pre)) ↔
      P s ∧ ∀ pre, pre <+: as → P (run step (step s a) pre) := by
  constructor
  · intro h
    refine ⟨h [] List.nil_prefix, fun pre hpre => ?_⟩
    exact h (a :: pre) (List.cons_prefix_cons.mpr ⟨rfl, hpre⟩)
  · rintro ⟨hs, hrest⟩ pre hpre
    cases pre with
    | nil => exact hs
    | cons b pre =>
      obtain ⟨rfl, htail⟩ := List.cons_prefix_cons.mp hpre
      exact hrest pre htail

/-- **Rule for exact conditions**, over the runs whose inputs are valid: when every step from a
good state that meets the condition leads to a good state, and every other step out of what is
wanted, then what is wanted holds in every state of a run exactly if all its steps meet the
condition. -/
theorem forall_prefix_iff_guarded_of_valid {step : σ → α → σ} {ok valid : σ → α → Prop}
    {Inv P : σ → Prop} (hgood : ∀ s, Inv s → P s)
    (hstep : ∀ s a, Inv s → valid s a → ok s a → Inv (step s a))
    (hbad : ∀ s a, Inv s → valid s a → ¬ ok s a → ¬ P (step s a)) {s : σ} (hs : Inv s)
    {as : List α} (has : Guarded step valid s as) :
    (∀ pre, pre <+: as → P (run step s pre)) ↔ Guarded step ok s as := by
  induction as generalizing s with
  | nil =>
    refine iff_of_true ?_ trivial
    intro pre hpre
    rw [List.prefix_nil.mp hpre]
    exact hgood s hs
  | cons a as ih =>
    obtain ⟨ha, has⟩ := has
    rw [forall_prefix_cons, guarded_cons]
    constructor
    · rintro ⟨_, hrest⟩
      have hok : ok s a := by
        by_contra hno
        exact hbad s a hs ha hno (hrest [] List.nil_prefix)
      exact ⟨hok, (ih (hstep s a hs ha hok) has).mp hrest⟩
    · rintro ⟨hok, hrest⟩
      exact ⟨hgood s hs, (ih (hstep s a hs ha hok) has).mpr hrest⟩

theorem guarded_true (step : σ → α → σ) (s : σ) (as : List α) :
    Guarded step (fun _ _ => True) s as := by
  induction as generalizing s with
  | nil => trivial
  | cons a as ih => exact ⟨trivial, ih _⟩

/-- The rule where every input is valid. -/
theorem forall_prefix_iff_guarded {step : σ → α → σ} {ok : σ → α → Prop} {Inv P : σ → Prop}
    (hgood : ∀ s, Inv s → P s) (hstep : ∀ s a, Inv s → ok s a → Inv (step s a))
    (hbad : ∀ s a, Inv s → ¬ ok s a → ¬ P (step s a)) {s : σ} (hs : Inv s) (as : List α) :
    (∀ pre, pre <+: as → P (run step s pre)) ↔ Guarded step ok s as :=
  forall_prefix_iff_guarded_of_valid hgood (fun s a hs _ => hstep s a hs)
    (fun s a hs _ => hbad s a hs) hs (guarded_true step s as)

/-! ## Places in a list -/

/-- What holds at every place of a list holds at those before the last element and at
the last. -/
theorem forall_place_concat {P : List α → α → Prop} {as : List α} {a : α} :
    (∀ pre x post, as ++ [a] = pre ++ x :: post → P pre x) ↔
      (∀ pre x post, as = pre ++ x :: post → P pre x) ∧ P as a := by
  constructor
  · intro h
    refine ⟨?_, h as a [] rfl⟩
    intro pre x post hsplit
    exact h pre x (post ++ [a]) (by simp [hsplit])
  · rintro ⟨has, ha⟩ pre x post hsplit
    rcases List.eq_nil_or_concat post with rfl | ⟨front, last, rfl⟩
    · obtain ⟨rfl, hlast⟩ := List.append_inj' hsplit rfl
      cases hlast
      exact ha
    · have hcut : as ++ [a] = (pre ++ x :: front) ++ [last] := by simpa using hsplit
      exact has pre x front (List.append_inj' hcut rfl).1

/-! ## Views of a machine -/

section Views

variable {τ : Type} {step : σ → α → σ} {step' : τ → α → τ} {f : σ → τ}

/-- A view that every step commutes with commutes with every run. -/
theorem run_map (hstep : ∀ s a, f (step s a) = step' (f s) a) (s : σ) (as : List α) :
    f (run step s as) = run step' (f s) as := by
  induction as generalizing s with
  | nil => rfl
  | cons a as ih => rw [run_cons, run_cons, ih, hstep]

/-- A condition on the view holds along a run when it holds along its image. -/
theorem guarded_map (hstep : ∀ s a, f (step s a) = step' (f s) a) {ok : τ → α → Prop}
    {s : σ} {as : List α} :
    Guarded step (fun s a => ok (f s) a) s as ↔ Guarded step' ok (f s) as := by
  induction as generalizing s with
  | nil => simp
  | cons a as ih => rw [guarded_cons, guarded_cons, ih, hstep]

end Views

end Cashbox.Lib
