import Cashbox.Lib.Method

/-!
# Weakest preconditions of methods

`m.wp ok fail s` says that `ok` holds of the value and the receiver where the method returns `Ok`
from `s`, and `fail` of the receiver where it returns `Err` or panics. The rules follow the way
methods are put together.
-/

namespace Cashbox.Lib.Method

variable {σ τ ε α β : Type}

/-- From `s` the method ends in `ok`, or fails in `fail`. -/
def wp (m : Method σ ε α) (ok : α → σ → Prop) (fail : σ → Prop) (s : σ) : Prop :=
  match m.run s with
  | (s', .ok a) => ok a s'
  | (s', .err _) => fail s'
  | (s', .panic _) => fail s'

section Rules

variable {m : Method σ ε α} {f : α → Method σ ε β} {ok ok' : α → σ → Prop}
  {fail fail' : σ → Prop} {s s' : σ}

theorem wp_of_ok {a : α} (h : m.run s = (s', .ok a)) : m.wp ok fail s ↔ ok a s' := by
  unfold wp
  rw [h]

/-- What the method ends in holds of its run. -/
theorem wp.of_run {a : α} (h : m.wp ok fail s) (hrun : m.run s = (s', .ok a)) : ok a s' :=
  (wp_of_ok hrun).mp h

/-- What is known of every call that returns `Ok`, whatever becomes of the others. -/
theorem wp.ok_of_run {a : α} (h : ∀ fail : σ → Prop, (∀ s, fail s) → m.wp ok fail s)
    (hrun : m.run s = (s', .ok a)) : ok a s' :=
  (h (fun _ => True) fun _ => trivial).of_run hrun

/-- A method that can not fail returns `Ok`. -/
theorem wp.exists_run (h : m.wp ok (fun _ => False) s) :
    ∃ s' a, m.run s = (s', .ok a) ∧ ok a s' := by
  unfold wp at h
  rcases hrun : m.run s with ⟨s', a | e | p⟩
  · rw [hrun] at h
    exact ⟨s', a, rfl, h⟩
  · rw [hrun] at h
    exact h.elim
  · rw [hrun] at h
    exact h.elim

/-- What the method ends in is the result of its run. -/
theorem wp_run (h : m.wp ok fail s) :
    m.wp (fun a s' => ok a s' ∧ m.run s = (s', .ok a)) fail s := by
  unfold wp at h ⊢
  rcases hrun : m.run s with ⟨s', a | e | p⟩
  · rw [hrun] at h
    exact ⟨h, rfl⟩
  · rwa [hrun] at h
  · rwa [hrun] at h

@[simp] theorem wp_pure (a : α) : (pure a : Method σ ε α).wp ok fail s ↔ ok a s := Iff.rfl

@[simp] theorem wp_get {ok : σ → σ → Prop} : (get : Method σ ε σ).wp ok fail s ↔ ok s s := Iff.rfl

@[simp] theorem wp_modify {ok : Unit → σ → Prop} (g : σ → σ) :
    (modify g : Method σ ε Unit).wp ok fail s ↔ ok () (g s) := Iff.rfl

@[simp] theorem wp_lift_ok (a : α) : (lift (.ok a) : Method σ ε α).wp ok fail s ↔ ok a s := Iff.rfl

@[simp] theorem wp_lift_err (e : ε) : (lift (.err e) : Method σ ε α).wp ok fail s ↔ fail s :=
  Iff.rfl

/-- A function of its own leaves the receiver as it is. -/
theorem wp_lift {x : Outcome ε α} (hok : ∀ a, x = .ok a → ok a s) (hfail : fail s) :
    (lift x : Method σ ε α).wp ok fail s := by
  cases x with
  | ok a => exact hok a rfl
  | err e => exact hfail
  | panic p => exact hfail

/-- **Sequencing**: what the first method ends in is where the second one starts. -/
@[simp] theorem wp_bind {ok : β → σ → Prop} :
    (m >>= f).wp ok fail s ↔ m.wp (fun a => (f a).wp ok fail) fail s := by
  unfold wp
  rw [run_bind]
  rcases m.run s with ⟨s', a | e | p⟩ <;> exact Iff.rfl

/-- A function of its own, and what follows it. -/
theorem wp_lift_bind {x : Outcome ε α} {ok : β → σ → Prop}
    (hok : ∀ a, x = .ok a → (f a).wp ok fail s) (hfail : fail s) :
    (lift x >>= f).wp ok fail s :=
  wp_bind.mpr (wp_lift hok hfail)

/-- Matching on the result: what holds where the method fails is used for its `Err`, too. -/
theorem wp_attempt {ok : Except ε α → σ → Prop}
    (h : m.wp (fun a => ok (.ok a)) (fun s' => (∀ e, ok (.error e) s') ∧ fail s') s) :
    m.attempt.wp ok fail s := by
  unfold wp at h ⊢
  rcases hrun : m.run s with ⟨s', a | e | p⟩
  · rw [run_attempt_of_ok hrun]
    rwa [hrun] at h
  · rw [run_attempt_of_err hrun]
    rw [hrun] at h
    exact h.1 e
  · rw [run_attempt_of_panic hrun]
    rw [hrun] at h
    exact h.2

/-- **Consequence**. -/
theorem wp_mono (h : m.wp ok fail s) (hok : ∀ a s', ok a s' → ok' a s')
    (hfail : ∀ s', fail s' → fail' s') : m.wp ok' fail' s := by
  revert h
  unfold wp
  rcases m.run s with ⟨s', a | e | p⟩
  · exact hok a s'
  · exact hfail s'
  · exact hfail s'

/-- What the first method ends in is enough for the second one. -/
theorem wp_seq {mid : α → σ → Prop} {ok : β → σ → Prop} (h : m.wp mid fail s)
    (hf : ∀ a s', mid a s' → (f a).wp ok fail s') : (m >>= f).wp ok fail s :=
  wp_bind.mpr (wp_mono h hf fun _ hs => hs)

theorem wp_ite {p : Prop} [Decidable p] {m m' : Method σ ε α} (h : p → m.wp ok fail s)
    (h' : ¬ p → m'.wp ok fail s) : (if p then m else m').wp ok fail s := by
  split_ifs with hp
  · exact h hp
  · exact h' hp

/-- A method of a field of the receiver. -/
@[simp] theorem wp_on {read : τ → σ} {write : τ → σ → τ} {ok : α → τ → Prop} {fail : τ → Prop}
    {t : τ} : (m.on read write).wp ok fail t ↔
      m.wp (fun a s' => ok a (write t s')) (fun s' => fail (write t s')) (read t) := by
  unfold wp
  rw [run_on]
  rcases m.run (read t) with ⟨s', a | e | p⟩ <;> exact Iff.rfl

end Rules

end Cashbox.Lib.Method
