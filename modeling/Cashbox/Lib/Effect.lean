import Cashbox.Lib.Database

/-!
# What a method leaves behind

A method that may be cut short leaves a receiver behind wherever it ends. `Leaves` keeps two
statements about it apart: what holds of the receiver in any case, and what holds of it and of
the value where the method returns `Ok`. The rules follow the structure of a method.
-/

namespace Cashbox.Lib

variable {σ τ ε α β : Type}

/-- Wherever the method ends it leaves a receiver with `I`, and where it returns `Ok` the value
and the receiver have `Q`. -/
structure Leaves (m : Method σ ε α) (s : σ) (I : σ → Prop) (Q : α → σ → Prop) : Prop where
  ends : I (m.run s).1
  ok : ∀ a, (m.run s).2 = .ok a → Q a (m.run s).1

namespace Leaves

section Rules

variable {m : Method σ ε α} {s : σ} {I J : σ → Prop} {Q R : α → σ → Prop}

theorem mono (h : Leaves m s I Q) (hIJ : ∀ s', I s' → J s') (hQR : ∀ a s', Q a s' → R a s') :
    Leaves m s J R where
  ends := hIJ _ h.ends
  ok a ha := hQR _ _ (h.ok a ha)

theorem lift {x : Outcome ε α} (hI : I s) (hQ : ∀ a, x = .ok a → Q a s) :
    Leaves (Method.lift x) s I Q where
  ends := hI
  ok := hQ

theorem pure {a : α} (hI : I s) (hQ : Q a s) : Leaves (Pure.pure a : Method σ ε α) s I Q :=
  lift (x := .ok a) hI fun _ h => Outcome.ok.inj h ▸ hQ

/-- A sequence: the second part starts from what the first one leaves. -/
theorem bind {f : α → Method σ ε β} {R : β → σ → Prop} (h : Leaves m s I Q)
    (hnext : ∀ a s', Q a s' → Leaves (f a) s' I R) : Leaves (m >>= f) s I R := by
  obtain ⟨hends, hok⟩ := h
  rcases hrun : m.run s with ⟨s', a | e | p⟩
  · rw [hrun] at hok
    have hf := hnext a s' (hok a rfl)
    constructor
    · rw [Method.run_bind_of_ok hrun]
      exact hf.ends
    · intro b hb
      rw [Method.run_bind_of_ok hrun] at hb ⊢
      exact hf.ok b hb
  · rw [hrun] at hends
    constructor
    · rw [Method.run_bind_of_err hrun]
      exact hends
    · intro b hb
      rw [Method.run_bind_of_err hrun] at hb
      cases hb
  · rw [hrun] at hends
    constructor
    · rw [Method.run_bind_of_panic hrun]
      exact hends
    · intro b hb
      rw [Method.run_bind_of_panic hrun] at hb
      cases hb

theorem get_bind {f : σ → Method σ ε β} {R : β → σ → Prop} (h : Leaves (f s) s I R) :
    Leaves (Method.get >>= f) s I R := ⟨h.ends, h.ok⟩

end Rules

/-! ## Operations on a store -/

section Operations

variable {fails : Nat → Bool} {failure : ε} {s : Session σ} {I : Session σ → Prop}

/-- An operation that fails leaves the store as it is. -/
theorem operation {f : Nat → σ → σ × Outcome ε α} {Q : α → Session σ → Prop}
    (hfails : I ⟨s.store, s.calls + 1⟩) (hI : I ⟨(f s.calls s.store).1, s.calls + 1⟩)
    (hQ : ∀ a, (f s.calls s.store).2 = .ok a → Q a ⟨(f s.calls s.store).1, s.calls + 1⟩) :
    Leaves (operation fails failure f) s I Q := by
  by_cases h : fails s.calls = true
  · constructor
    · rw [run_operation_of_fails h]
      exact hfails
    · intro a ha
      rw [run_operation_of_fails h] at ha
      cases ha
  · have hnot : fails s.calls = false := Bool.eq_false_iff.mpr h
    constructor
    · rw [run_operation_of_not_fails hnot]
      exact hI
    · intro a ha
      rw [run_operation_of_not_fails hnot] at ha ⊢
      exact hQ a ha

theorem query {read : σ → Outcome ε α} {Q : α → Session σ → Prop}
    (hI : I ⟨s.store, s.calls + 1⟩)
    (hQ : ∀ a, read s.store = .ok a → Q a ⟨s.store, s.calls + 1⟩) :
    Leaves (query fails failure read) s I Q := operation hI hI hQ

theorem execute {write : Nat → σ → σ} {Q : Unit → Session σ → Prop}
    (hfails : I ⟨s.store, s.calls + 1⟩) (hI : I ⟨write s.calls s.store, s.calls + 1⟩)
    (hQ : Q () ⟨write s.calls s.store, s.calls + 1⟩) :
    Leaves (execute fails failure write) s I Q := operation hfails hI fun _ _ => hQ

theorem beginTx {read : σ → τ} {Q : τ → Session σ → Prop} (hI : I ⟨s.store, s.calls + 1⟩)
    (hQ : Q (read s.store) ⟨s.store, s.calls + 1⟩) :
    Leaves (beginTx fails failure read) s I Q :=
  query hI fun _ h => Outcome.ok.inj h ▸ hQ

theorem inTx {write : Nat → τ → τ} {tx : τ} {Q : τ → Session σ → Prop}
    (hI : I ⟨s.store, s.calls + 1⟩) (hQ : Q (write s.calls tx) ⟨s.store, s.calls + 1⟩) :
    Leaves (inTx fails failure write tx) s I Q :=
  operation hI hI fun _ h => Outcome.ok.inj h ▸ hQ

theorem commitTx {write : σ → τ → σ} {tx : τ} {Q : Unit → Session σ → Prop}
    (hfails : I ⟨s.store, s.calls + 1⟩) (hI : I ⟨write s.store tx, s.calls + 1⟩)
    (hQ : Q () ⟨write s.store tx, s.calls + 1⟩) :
    Leaves (commitTx fails failure write tx) s I Q := execute hfails hI hQ

end Operations

end Leaves

/-! ## All or nothing -/

/-- The method returns `Ok` with a value and a store that have `Q`, or the store is as it was. -/
def AllOrNothing (m : Method (Session σ) ε α) (s : Session σ) (Q : α → σ → Prop) : Prop :=
  ((m.run s).2.isOk = false ∧ (m.run s).1.store = s.store) ∨
    ∃ a, (m.run s).2 = .ok a ∧ Q a (m.run s).1.store

namespace AllOrNothing

variable {fails : Nat → Bool} {failure : ε} {s : Session σ} {Q : α → σ → Prop}

/-- What is done before a transaction is committed leaves the store as it is. -/
theorem bind {m : Method (Session σ) ε β} {f : β → Method (Session σ) ε α}
    {P : β → Session σ → Prop}
    (hm : Leaves m s (fun s' => s'.store = s.store) fun a s' => s'.store = s.store ∧ P a s')
    (hf : ∀ a s', s'.store = s.store → P a s' → AllOrNothing (f a) s' Q) :
    AllOrNothing (m >>= f) s Q := by
  obtain ⟨hends, hok⟩ := hm
  unfold AllOrNothing
  rcases hrun : m.run s with ⟨s', a | e | p⟩
  · rw [hrun] at hok
    obtain ⟨hstore, hp⟩ := hok a rfl
    rw [Method.run_bind_of_ok hrun, ← hstore]
    exact hf a s' hstore hp
  · rw [hrun] at hends
    rw [Method.run_bind_of_err hrun]
    exact .inl ⟨rfl, hends⟩
  · rw [hrun] at hends
    rw [Method.run_bind_of_panic hrun]
    exact .inl ⟨rfl, hends⟩

/-- One operation that returns `Ok`, unless it fails. -/
theorem operation {f : Nat → σ → σ × Outcome ε α} {a : α} (ha : (f s.calls s.store).2 = .ok a)
    (hQ : Q a (f s.calls s.store).1) : AllOrNothing (operation fails failure f) s Q := by
  unfold AllOrNothing
  by_cases h : fails s.calls = true
  · rw [run_operation_of_fails h]
    exact .inl ⟨rfl, rfl⟩
  · rw [run_operation_of_not_fails (Bool.eq_false_iff.mpr h)]
    exact .inr ⟨a, ha, hQ⟩

theorem commitTx {write : σ → τ → σ} {tx : τ} {Q : Unit → σ → Prop}
    (hQ : Q () (write s.store tx)) : AllOrNothing (commitTx fails failure write tx) s Q :=
  operation (f := fun _ store => (write store tx, .ok ())) rfl hQ

end AllOrNothing

end Cashbox.Lib
