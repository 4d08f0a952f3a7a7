import Cashbox.Lib.Effect

/-!
# Plans

A plan is what a method on a store would do, with the stores left out: which of its
operations add to the store, and how it ends when none of them fails. Where a method follows
a plan, the plan alone decides whether the method, if it ends in an error, leaves the store
as it was.
-/

namespace Cashbox.Lib

variable {σ ε α β γ δ : Type}

/-! ## Plans -/

/-- Which operations add to the store, and the end when none fails. -/
structure Plan (α : Type) where
  marks : List Bool
  ends : Outcome Unit α

namespace Plan

protected def bind (p : Plan α) (f : α → Plan β) : Plan β :=
  match p.ends with
  | .ok a => ⟨p.marks ++ (f a).marks, (f a).ends⟩
  | .err _ => ⟨p.marks, .err ()⟩
  | .panic why => ⟨p.marks, .panic why⟩

instance : Monad Plan where
  pure a := ⟨[], .ok a⟩
  bind := Plan.bind

/-- No operation. -/
def lift (x : Outcome ε α) : Plan α := ⟨[], x.mapErr fun _ => ()⟩

/-- One operation that reads. -/
def query (x : Outcome ε α) : Plan α := ⟨[false], x.mapErr fun _ => ()⟩

/-- One operation that leaves the store as it is. -/
def quiet : Plan Unit := ⟨[false], .ok ()⟩

/-- One operation that adds to the store, if `b`. -/
def adds (b : Bool) : Plan Unit := ⟨[b], .ok ()⟩

/-- An error leaves the store as it was: nothing is ever added to it, or an operation fails
before something is, or none fails and there is no error. -/
def Harmless (p : Plan α) (fails : Nat → Bool) (n : Nat) : Prop :=
  true ∉ p.marks ∨ (∃ i ≤ p.marks.idxOf true, fails (n + i) = true) ∨
    (∀ i < p.marks.length, fails (n + i) = false) ∧ ¬ p.ends.IsErr

theorem bind_of_ok {p : Plan α} {f : α → Plan β} {a : α} (h : p.ends = .ok a) :
    p >>= f = ⟨p.marks ++ (f a).marks, (f a).ends⟩ := by
  show Plan.bind p f = _
  rw [Plan.bind, h]

theorem bind_of_err {p : Plan α} {f : α → Plan β} (h : p.ends = .err ()) :
    p >>= f = ⟨p.marks, .err ()⟩ := by
  show Plan.bind p f = _
  rw [Plan.bind, h]

theorem bind_of_panic {p : Plan α} {f : α → Plan β} {why : Panic} (h : p.ends = .panic why) :
    p >>= f = ⟨p.marks, .panic why⟩ := by
  show Plan.bind p f = _
  rw [Plan.bind, h]

/-- What the second part of a plan marks, the plan marks. -/
theorem mem_marks_bind {p : Plan α} {f : α → Plan β} {b : β} {mark : Bool}
    (h : (p >>= f).ends = .ok b) (hf : ∀ a, (f a).ends = .ok b → mark ∈ (f a).marks) :
    mark ∈ (p >>= f).marks := by
  cases hp : p.ends with
  | ok a =>
    rw [bind_of_ok hp] at h ⊢
    exact List.mem_append_right _ (hf a h)
  | err e =>
    rw [bind_of_err hp] at h
    cases h
  | panic why =>
    rw [bind_of_panic hp] at h
    cases h

end Plan

theorem idxOf_false_cons (marks : List Bool) :
    (false :: marks).idxOf true = marks.idxOf true + 1 :=
  List.idxOf_cons

/-! ## Paths that fit the marks -/

/-- Each mark of a path is right: up to the first operation that adds to the store it is as it
was before, and then it is larger (`touched`) and never smaller again. -/
inductive Marked (size : σ → Nat) : Bool → σ → List σ → List Bool → Prop
  | nil (touched : Bool) (d : σ) : Marked size touched d [] []
  | same {d : σ} {path : List σ} {marks : List Bool} (h : Marked size false d path marks) :
      Marked size false d (d :: path) (false :: marks)
  | adds {d d' : σ} {path : List σ} {marks : List Bool} (hlt : size d < size d')
      (h : Marked size true d' path marks) : Marked size false d (d' :: path) (true :: marks)
  | later {d d' : σ} {path : List σ} {mark : Bool} {marks : List Bool} (hle : size d ≤ size d')
      (h : Marked size true d' path marks) : Marked size true d (d' :: path) (mark :: marks)

namespace Marked

variable {size : σ → Nat} {d : σ} {path path' : List σ} {marks marks' : List Bool}

theorem length_eq {touched : Bool} (h : Marked size touched d path marks) :
    path.length = marks.length := by
  induction h with
  | nil => rfl
  | same _ ih => exact congrArg Nat.succ ih
  | adds _ _ ih => exact congrArg Nat.succ ih
  | later _ _ ih => exact congrArg Nat.succ ih

/-- Whatever is right of a store as it was is right of one that was added to. -/
theorem touch {touched : Bool} (h : Marked size touched d path marks) :
    Marked size true d path marks := by
  induction h with
  | nil => exact .nil true _
  | same _ ih => exact .later (Nat.le_refl _) ih
  | adds hlt _ ih => exact .later (Nat.le_of_lt hlt) ih
  | later hle _ ih => exact .later hle ih

theorem append {touched : Bool} (h : Marked size touched d path marks)
    (h' : Marked size (touched || marks.contains true) (endOf d path) path' marks') :
    Marked size touched d (path ++ path') (marks ++ marks') := by
  induction h with
  | nil touched d => simpa [endOf] using h'
  | same _ ih => exact .same (ih (by simpa [endOf_cons] using h'))
  | adds hlt _ ih => exact .adds hlt (ih (by simpa [endOf_cons] using h'))
  | later hle _ ih => exact .later hle (ih (by simpa [endOf_cons] using h'))

/-- After something was added the store is not smaller. -/
theorem size_le (h : Marked size true d path marks) (i : Nat) :
    size d ≤ size (storeAfter d path i) := by
  generalize htouched : true = touched at h
  induction h generalizing i with
  | nil => simp [storeAfter]
  | same => cases htouched
  | adds => cases htouched
  | @later d d' path _ _ hle _ ih =>
    cases i with
    | zero => exact Nat.le_refl _
    | succ i =>
      rw [storeAfter_cons_succ]
      exact Nat.le_trans hle (ih i rfl)

/-- Where nothing is added the store is as it was. -/
theorem storeAfter_eq (h : Marked size false d path marks) {i : Nat}
    (hi : i ≤ marks.idxOf true) : storeAfter d path i = d := by
  generalize htouched : false = touched at h
  induction h generalizing i with
  | nil => simp [storeAfter]
  | same _ ih =>
    cases i with
    | zero => rfl
    | succ i =>
      rw [storeAfter_cons_succ]
      refine ih ?_ rfl
      rw [idxOf_false_cons] at hi
      exact Nat.le_of_succ_le_succ hi
  | adds =>
    rw [List.idxOf_cons_self, Nat.le_zero] at hi
    rw [hi, storeAfter_zero]
  | later => cases htouched

/-- From the first operation on that adds to it, the store is larger. -/
theorem size_lt (h : Marked size false d path marks) (hmem : true ∈ marks) {i : Nat}
    (hi : marks.idxOf true < i) : size d < size (storeAfter d path i) := by
  generalize htouched : false = touched at h
  induction h generalizing i with
  | nil => cases hmem
  | same _ ih =>
    rw [idxOf_false_cons] at hi
    obtain ⟨i, rfl⟩ := Nat.exists_eq_succ_of_ne_zero (Nat.ne_of_gt (Nat.zero_lt_of_lt hi))
    rw [storeAfter_cons_succ]
    exact ih (List.mem_of_ne_of_mem (Bool.false_ne_true ∘ Eq.symm) hmem)
      (Nat.lt_of_succ_lt_succ hi) rfl
  | adds hlt h =>
    obtain ⟨i, rfl⟩ := Nat.exists_eq_succ_of_ne_zero (Nat.ne_of_gt (Nat.zero_lt_of_lt hi))
    rw [storeAfter_cons_succ]
    exact Nat.lt_of_lt_of_le hlt (h.size_le i)
  | later => cases htouched

end Marked

/-! ## Methods that follow a plan -/

/-- The outcome of a method is the end of its plan. -/
inductive Ends (Q : α → β → Prop) : Outcome ε α → Outcome Unit β → Prop
  | ok {a : α} {b : β} (h : Q a b) : Ends Q (.ok a) (.ok b)
  | err (e : ε) : Ends Q (.err e) (.err ())
  | panic (why : Panic) : Ends Q (.panic why) (.panic why)

theorem Ends.isErr_iff {Q : α → β → Prop} {x : Outcome ε α} {y : Outcome Unit β}
    (h : Ends Q x y) : x.IsErr ↔ y.IsErr := by
  cases h <;> exact Iff.rfl

theorem Ends.mono {Q R : α → β → Prop} {x : Outcome ε α} {y : Outcome Unit β}
    (h : Ends Q x y) (hQR : ∀ a b, Q a b → R a b) : Ends R x y := by
  cases h with
  | ok h => exact .ok (hQR _ _ h)
  | err e => exact .err e
  | panic why => exact .panic why

theorem Ends.mapErr {Q : α → α → Prop} {x : Outcome ε α} (h : ∀ a, x = .ok a → Q a a) :
    Ends Q x (x.mapErr fun _ => ()) := by
  cases x with
  | ok a => exact .ok (h a rfl)
  | err e => exact .err e
  | panic why => exact .panic why

theorem Ends.mapErr_bind {Q : α → β → Prop} {x : Outcome ε α} {f : α → β}
    (h : ∀ a, x = .ok a → Q a (f a)) :
    Ends Q x ((x >>= fun a => .ok (f a)).mapErr fun _ => ()) := by
  cases x with
  | ok a => exact .ok (h a rfl)
  | err e => exact .err e
  | panic why => exact .panic why

/-- The method performs the operations of a plan, and where it ends in `Ok` what it returns is
related to what the plan does. -/
def Follows (fails : Nat → Bool) (size : σ → Nat) (touched : Bool) (m : Method (Session σ) ε α)
    (s : Session σ) (p : Plan β) (Q : α → β → Session σ → Prop) : Prop :=
  ∃ path r, Performs fails m s path r ∧ Marked size touched s.store path p.marks ∧
    Ends (fun a b => Q a b ⟨endOf s.store path, s.calls + path.length⟩) r p.ends

namespace Follows

variable {fails : Nat → Bool} {size : σ → Nat} {touched : Bool} {m : Method (Session σ) ε α}
  {s : Session σ} {p : Plan β}

theorem mono {Q R : α → β → Session σ → Prop} (h : Follows fails size touched m s p Q)
    (hQR : ∀ a b s', Q a b s' → R a b s') : Follows fails size touched m s p R := by
  obtain ⟨path, r, hperforms, hmarked, hends⟩ := h
  exact ⟨path, r, hperforms, hmarked, hends.mono fun a b => hQR a b _⟩

theorem touch {Q : α → β → Session σ → Prop} (h : Follows fails size touched m s p Q) :
    Follows fails size true m s p Q := by
  obtain ⟨path, r, hperforms, hmarked, hends⟩ := h
  exact ⟨path, r, hperforms, hmarked.touch, hends⟩

theorem lift {x : Outcome ε α} {Q : α → α → Session σ → Prop} (h : ∀ a, x = .ok a → Q a a s) :
    Follows fails size touched (Method.lift x) s (Plan.lift x) Q :=
  ⟨[], x, Performs.lift x s, .nil _ _, Ends.mapErr h⟩

/-- An error without an operation. -/
theorem stop {e : ε} {Q : α → β → Session σ → Prop} :
    Follows fails size touched (Method.lift (.err e)) s
      (Plan.lift (.err () : Outcome Unit β)) Q :=
  ⟨[], .err e, Performs.lift _ s, .nil _ _, .err e⟩

theorem pure {a : α} {b : β} {Q : α → β → Session σ → Prop} (h : Q a b s) :
    Follows fails size touched (Pure.pure a : Method (Session σ) ε α) s (Pure.pure b) Q :=
  ⟨[], .ok a, Performs.pure a s, .nil _ _, .ok h⟩

/-- To look at the session is no operation. -/
theorem get_bind {f : Session σ → Method (Session σ) ε α} {Q : α → β → Session σ → Prop}
    (h : Follows fails size touched (f s) s p Q) :
    Follows fails size touched (Method.get >>= f) s p Q := by
  obtain ⟨path, r, hperforms, hmarked, hends⟩ := h
  exact ⟨path, r, (Performs.get s).bind hperforms, hmarked, hends⟩

/-- An operation that leaves the store as it is. -/
theorem same {r : Outcome ε α} {x : Outcome Unit β} {Q : α → β → Session σ → Prop}
    (hperforms : Performs fails m s [s.store] r)
    (hends : Ends (fun a b => Q a b ⟨s.store, s.calls + 1⟩) r x) :
    Follows fails size touched m s ⟨[false], x⟩ Q := by
  refine ⟨[s.store], r, hperforms, ?_, hends⟩
  cases touched with
  | false => exact .same (.nil _ _)
  | true => exact .later (Nat.le_refl _) (.nil _ _)

theorem query {failure : ε} {read : σ → Outcome ε α} {Q : α → α → Session σ → Prop}
    (h : ∀ a, read s.store = .ok a → Q a a ⟨s.store, s.calls + 1⟩) :
    Follows fails size touched (query fails failure read) s (Plan.query (read s.store)) Q :=
  same (Performs.query failure read s) (Ends.mapErr h)

/-- A query that finds what it reads. -/
theorem read {failure : ε} {f : σ → α} {Q : α → Unit → Session σ → Prop}
    (h : Q (f s.store) () ⟨s.store, s.calls + 1⟩) :
    Follows fails size touched (Lib.query fails failure fun d => .ok (f d)) s Plan.quiet Q :=
  same (Performs.query failure (fun d => .ok (f d)) s) (.ok h)

theorem beginTx {τ : Type} {failure : ε} {read : σ → τ} {Q : τ → Unit → Session σ → Prop}
    (h : Q (read s.store) () ⟨s.store, s.calls + 1⟩) :
    Follows fails size touched (beginTx fails failure read) s Plan.quiet Q :=
  same (Performs.beginTx failure read s) (.ok h)

theorem inTx {τ : Type} {failure : ε} {write : Nat → τ → τ} {tx : τ}
    {Q : τ → Unit → Session σ → Prop} (h : Q (write s.calls tx) () ⟨s.store, s.calls + 1⟩) :
    Follows fails size touched (inTx fails failure write tx) s Plan.quiet Q :=
  same (Performs.inTx failure write tx s) (.ok h)

/-- An operation that writes, and adds to the store if `b`. -/
theorem writes {d : σ} {a : α} {b : Bool} {Q : α → Unit → Session σ → Prop}
    (hperforms : Performs fails m s [d] (.ok a)) (hsame : b = false → d = s.store)
    (hlt : b = true → size s.store < size d) (h : Q a () ⟨d, s.calls + 1⟩) :
    Follows fails size false m s (Plan.adds b) Q := by
  refine ⟨[d], .ok a, hperforms, ?_, .ok h⟩
  cases b with
  | false =>
    obtain rfl := hsame rfl
    exact .same (.nil _ _)
  | true => exact .adds (hlt rfl) (.nil _ _)

/-- An operation that writes after something was added. -/
theorem writesLater {d : σ} {a : α} {Q : α → Unit → Session σ → Prop}
    (hperforms : Performs fails m s [d] (.ok a)) (hle : size s.store ≤ size d)
    (h : Q a () ⟨d, s.calls + 1⟩) : Follows fails size true m s Plan.quiet Q :=
  ⟨[d], .ok a, hperforms, .later hle (.nil _ _), .ok h⟩

/-- A sequence follows the one plan and then the other. -/
theorem bind {f : α → Method (Session σ) ε γ} {g : β → Plan δ} {Q : α → β → Session σ → Prop}
    {R : γ → δ → Session σ → Prop} (h : Follows fails size touched m s p Q)
    (hnext : ∀ a b s', p.ends = .ok b → Q a b s' →
      Follows fails size (touched || p.marks.contains true) (f a) s' (g b) R) :
    Follows fails size touched (m >>= f) s (p >>= g) R := by
  obtain ⟨path, r, hperforms, hmarked, hends⟩ := h
  cases hp : p.ends with
  | ok b =>
    rw [hp] at hends
    cases hends with
    | ok hQ =>
      obtain ⟨path', r', hperforms', hmarked', hends'⟩ := hnext _ b _ hp hQ
      rw [Plan.bind_of_ok hp]
      refine ⟨path ++ path', r', hperforms.bind hperforms', hmarked.append hmarked', ?_⟩
      rw [endOf_append, List.length_append, ← Nat.add_assoc]
      exact hends'
  | err e =>
    rw [hp] at hends
    cases hends with
    | err e' =>
      rw [Plan.bind_of_err hp]
      exact ⟨path, _, hperforms.bind_err, hmarked, .err e'⟩
  | panic why =>
    rw [hp] at hends
    cases hends with
    | panic =>
      rw [Plan.bind_of_panic hp]
      exact ⟨path, _, hperforms.bind_panic, hmarked, .panic why⟩

/-- A sequence whose second part may be followed from any store. -/
theorem seq {f : α → Method (Session σ) ε γ} {g : β → Plan δ} {Q : α → β → Session σ → Prop}
    {R : γ → δ → Session σ → Prop} (h : Follows fails size false m s p Q)
    (hnext : ∀ a b s', Q a b s' → Follows fails size false (f a) s' (g b) R) :
    Follows fails size false (m >>= f) s (p >>= g) R := by
  refine h.bind fun a b s' _ hQ => ?_
  cases p.marks.contains true with
  | false => exact hnext a b s' hQ
  | true => exact (hnext a b s' hQ).touch

/-- After something was added both parts are followed in the same way. -/
theorem seqLater {f : α → Method (Session σ) ε γ} {g : β → Plan δ}
    {Q : α → β → Session σ → Prop} {R : γ → δ → Session σ → Prop}
    (h : Follows fails size true m s p Q)
    (hnext : ∀ a b s', Q a b s' → Follows fails size true (f a) s' (g b) R) :
    Follows fails size true (m >>= f) s (p >>= g) R :=
  h.bind fun a b s' _ hQ => hnext a b s' hQ

/-- What is returned is made of what the first part returns. -/
theorem map {f : α → γ} {Q : α → β → Session σ → Prop} {R : γ → β → Session σ → Prop}
    (h : Follows fails size touched m s p Q) (hQR : ∀ a b s', Q a b s' → R (f a) b s') :
    Follows fails size touched (m >>= fun a => Pure.pure (f a)) s p R := by
  obtain ⟨path, r, hperforms, hmarked, hends⟩ := h
  generalize hp : p.ends = y at hends
  cases hends with
  | @ok a b hQ =>
    exact ⟨path, _, hperforms.map f, hmarked, hp ▸ .ok (hQR _ _ _ hQ)⟩
  | err e => exact ⟨path, _, hperforms.bind_err, hmarked, hp ▸ .err e⟩
  | panic why => exact ⟨path, _, hperforms.bind_panic, hmarked, hp ▸ .panic why⟩

/-- **All or nothing**: a method leaves the store as it was where it ends in an error, exactly
if its plan is harmless. -/
theorem unchanged_iff {Q : α → β → Session σ → Prop} (h : Follows fails size false m s p Q) :
    ((m.run s).2.IsErr → (m.run s).1.store = s.store) ↔ p.Harmless fails s.calls := by
  obtain ⟨path, r, hperforms, hmarked, hends⟩ := h
  by_cases hmem : true ∈ p.marks
  · have hiff := hperforms.unchanged_iff id
      (by rw [hmarked.length_eq]; exact List.idxOf_lt_length_of_mem hmem)
      (fun i hi => hmarked.storeAfter_eq hi)
      (fun i hi heq => Nat.ne_of_gt (hmarked.size_lt hmem hi) (congrArg size heq))
    rw [hmarked.length_eq, hends.isErr_iff] at hiff
    exact hiff.trans ⟨.inr, fun hharmless => hharmless.resolve_left (not_not_intro hmem)⟩
  · refine iff_of_true (fun _ => ?_) (.inl hmem)
    -- nothing is added by any operation
    have hsame : ∀ i ≤ path.length, storeAfter s.store path i = s.store := by
      intro i hi
      rw [hmarked.length_eq] at hi
      exact hmarked.storeAfter_eq (by rwa [List.idxOf_eq_length hmem])
    rcases hperforms.cases with ⟨i, e, hi, _, _, hrun⟩ | ⟨_, hrun⟩
    · rw [hrun]
      exact hsame i (Nat.le_of_lt hi)
    · rw [hrun, ← storeAfter_of_le (Nat.le_refl _)]
      exact hsame _ (Nat.le_refl _)

end Follows

/-! ## Methods that go through as planned -/

/-- The plan ends in `Ok`, and none of its operations fails. -/
def Plan.Goes (p : Plan β) (fails : Nat → Bool) (n : Nat) : Prop :=
  p.ends.isOk = true ∧ ∀ i < p.marks.length, fails (n + i) = false

instance (p : Plan β) (fails : Nat → Bool) (n : Nat) : Decidable (p.Goes fails n) :=
  inferInstanceAs (Decidable (_ ∧ _))

/-- The method returns `Ok` exactly if its plan goes through, with `Q` then and with `E` where
it is stopped. -/
structure GoesAs (fails : Nat → Bool) (m : Method (Session σ) ε α) (s : Session σ) (p : Plan β)
    (E : Session σ → Prop) (Q : α → β → Session σ → Prop) : Prop where
  goes : ∀ b, p.ends = .ok b → (∀ i < p.marks.length, fails (s.calls + i) = false) →
    ∃ a s', m.run s = (s', .ok a) ∧ s'.calls = s.calls + p.marks.length ∧ Q a b s'
  stops : ¬ p.Goes fails s.calls → (m.run s).2.isOk = false ∧ E (m.run s).1

namespace GoesAs

variable {fails : Nat → Bool} {m : Method (Session σ) ε α} {s : Session σ} {p : Plan β}
  {E : Session σ → Prop} {Q : α → β → Session σ → Prop}

theorem mono {R : α → β → Session σ → Prop} (h : GoesAs fails m s p E Q)
    (hQR : ∀ a b s', Q a b s' → R a b s') : GoesAs fails m s p E R where
  goes b hb hnone := by
    obtain ⟨a, s', hrun, hcalls, hQ⟩ := h.goes b hb hnone
    exact ⟨a, s', hrun, hcalls, hQR a b s' hQ⟩
  stops := h.stops

theorem lift {x : Outcome ε α} {Q : α → α → Session σ → Prop} (hE : E s)
    (h : ∀ a, x = .ok a → Q a a s) : GoesAs fails (Method.lift x) s (Plan.lift x) E Q where
  goes b hb _ := by
    cases x with
    | ok a =>
      cases hb
      exact ⟨_, s, rfl, rfl, h _ rfl⟩
    | err e => cases hb
    | panic why => cases hb
  stops hno := by
    rcases x with a | e | why
    · exact absurd ⟨rfl, fun i hi => nomatch hi⟩ hno
    · exact ⟨rfl, hE⟩
    · exact ⟨rfl, hE⟩

theorem pure {a : α} {b : β} (h : Q a b s) :
    GoesAs fails (Pure.pure a : Method (Session σ) ε α) s (Pure.pure b) E Q where
  goes b' hb _ := by
    cases hb
    exact ⟨a, s, rfl, rfl, h⟩
  stops hno := absurd ⟨rfl, fun i hi => nomatch hi⟩ hno

/-- To look at the session is no operation. -/
theorem get_bind {f : Session σ → Method (Session σ) ε α} (h : GoesAs fails (f s) s p E Q) :
    GoesAs fails (Method.get >>= f) s p E Q := ⟨h.goes, h.stops⟩

/-- One operation. -/
theorem operation {failure : ε} {f : Nat → σ → σ × Outcome ε α} {mark : Bool} {x : Outcome Unit β}
    (hE : E ⟨s.store, s.calls + 1⟩)
    (hends : Ends (fun a b => Q a b ⟨(f s.calls s.store).1, s.calls + 1⟩) (f s.calls s.store).2 x)
    (hstop : x.isOk = false → E ⟨(f s.calls s.store).1, s.calls + 1⟩) :
    GoesAs fails (operation fails failure f) s ⟨[mark], x⟩ E Q where
  goes b hb hnone := by
    obtain rfl : x = .ok b := hb
    have hrun : (Lib.operation fails failure f).run s = _ :=
      run_operation_of_not_fails (hnone 0 Nat.zero_lt_one)
    generalize (f s.calls s.store).2 = r at hends hrun
    cases hends with
    | ok hQ => exact ⟨_, _, hrun, rfl, hQ⟩
  stops hno := by
    cases hfails : fails s.calls with
    | true =>
      rw [run_operation_of_fails hfails]
      exact ⟨rfl, hE⟩
    | false =>
      have hx : x.isOk = false := by
        by_contra hok
        refine hno ⟨by simpa using hok, fun i hi => ?_⟩
        obtain rfl : i = 0 := Nat.lt_one_iff.mp hi
        exact hfails
      rw [run_operation_of_not_fails hfails]
      generalize (f s.calls s.store).2 = r at hends
      cases hends with
      | ok _ => cases hx
      | err _ | panic _ => exact ⟨rfl, hstop hx⟩

theorem query {failure : ε} {read : σ → Outcome ε α} {Q : α → α → Session σ → Prop}
    (hE : E ⟨s.store, s.calls + 1⟩)
    (h : ∀ a, read s.store = .ok a → Q a a ⟨s.store, s.calls + 1⟩) :
    GoesAs fails (query fails failure read) s (Plan.query (read s.store)) E Q :=
  operation hE (Ends.mapErr h) fun _ => hE

/-- A query that finds what it reads. -/
theorem read {failure : ε} {f : σ → α} {Q : α → Unit → Session σ → Prop}
    (hE : E ⟨s.store, s.calls + 1⟩) (h : Q (f s.store) () ⟨s.store, s.calls + 1⟩) :
    GoesAs fails (Lib.query fails failure fun d => .ok (f d)) s Plan.quiet E Q :=
  operation hE (.ok h) fun _ => hE

theorem beginTx {τ : Type} {failure : ε} {read : σ → τ} {Q : τ → Unit → Session σ → Prop}
    (hE : E ⟨s.store, s.calls + 1⟩) (h : Q (read s.store) () ⟨s.store, s.calls + 1⟩) :
    GoesAs fails (beginTx fails failure read) s Plan.quiet E Q := GoesAs.read hE h

theorem inTx {τ : Type} {failure : ε} {write : Nat → τ → τ} {tx : τ}
    {Q : τ → Unit → Session σ → Prop} (hE : E ⟨s.store, s.calls + 1⟩)
    (h : Q (write s.calls tx) () ⟨s.store, s.calls + 1⟩) :
    GoesAs fails (inTx fails failure write tx) s Plan.quiet E Q :=
  operation hE (.ok h) fun _ => hE

/-- An operation that writes. -/
theorem execute {failure : ε} {write : Nat → σ → σ} {mark : Bool}
    {Q : Unit → Unit → Session σ → Prop}
    (hE : E ⟨s.store, s.calls + 1⟩) (h : Q () () ⟨write s.calls s.store, s.calls + 1⟩) :
    GoesAs fails (execute fails failure write) s (Plan.adds mark) E Q :=
  operation hE (.ok h) fun hno => nomatch hno

/-- A sequence goes through as the one plan and then the other. -/
theorem bind {f : α → Method (Session σ) ε γ} {g : β → Plan δ} {R : γ → δ → Session σ → Prop}
    (h : GoesAs fails m s p E Q)
    (hnext : ∀ a b s', Q a b s' → GoesAs fails (f a) s' (g b) E R) :
    GoesAs fails (m >>= f) s (p >>= g) E R where
  goes d hd hnone := by
    -- both parts go through, the second with the operations behind those of the first
    rcases hp : p.ends with b | e | why
    · rw [Plan.bind_of_ok hp] at hd hnone ⊢
      rw [List.length_append] at hnone ⊢
      obtain ⟨a, s₁, hrun, hcalls, hQ⟩ := h.goes b hp fun i hi => hnone i (Nat.lt_add_right _ hi)
      obtain ⟨c, s₂, hrun', hcalls', hR⟩ := (hnext a b s₁ hQ).goes d hd fun i hi => by
        rw [hcalls, Nat.add_assoc]
        exact hnone _ (Nat.add_lt_add_left hi _)
      refine ⟨c, s₂, (Method.run_bind_of_ok hrun).trans hrun', ?_, hR⟩
      rw [hcalls', hcalls, Nat.add_assoc]
    · rw [Plan.bind_of_err hp] at hd
      cases hd
    · rw [Plan.bind_of_panic hp] at hd
      cases hd
  stops hno := by
    -- whether the first part is where it stops
    by_cases hgoes : p.Goes fails s.calls
    · rcases hp : p.ends with b | e | why
      · obtain ⟨a, s₁, hrun, hcalls, hQ⟩ := h.goes b hp hgoes.2
        rw [Method.run_bind_of_ok hrun]
        refine (hnext a b s₁ hQ).stops fun hg => hno ?_
        rw [Plan.bind_of_ok hp]
        refine ⟨hg.1, fun i hi => ?_⟩
        by_cases hfirst : i < p.marks.length
        · exact hgoes.2 i hfirst
        · have hi' : i - p.marks.length < (g b).marks.length := by
            rw [List.length_append] at hi
            omega
          have hlater := hg.2 _ hi'
          rw [hcalls] at hlater
          rwa [show s.calls + i = s.calls + p.marks.length + (i - p.marks.length) by omega]
      · rw [Plan.Goes, hp] at hgoes
        cases hgoes.1
      · rw [Plan.Goes, hp] at hgoes
        cases hgoes.1
    · -- the first part stops, and the second does not begin
      obtain ⟨hstop, hE⟩ := h.stops hgoes
      rcases hrun : m.run s with ⟨s', a | e | why⟩ <;> rw [hrun] at hstop hE
      · cases hstop
      · rw [Method.run_bind_of_err hrun]
        exact ⟨rfl, hE⟩
      · rw [Method.run_bind_of_panic hrun]
        exact ⟨rfl, hE⟩

/-- What is returned is made of what the first part returns. -/
theorem map {f : α → γ} {R : γ → β → Session σ → Prop} (h : GoesAs fails m s p E Q)
    (hQR : ∀ a b s', Q a b s' → R (f a) b s') :
    GoesAs fails (m >>= fun a => Pure.pure (f a)) s p E R where
  goes b hb hnone := by
    obtain ⟨a, s', hrun, hcalls, hQ⟩ := h.goes b hb hnone
    exact ⟨f a, s', Method.run_bind_of_ok hrun, hcalls, hQR a b s' hQ⟩
  stops hno := by
    obtain ⟨hstop, hE⟩ := h.stops hno
    rcases hrun : m.run s with ⟨s', a | e | why⟩ <;> rw [hrun] at hstop hE
    · cases hstop
    · rw [Method.run_bind_of_err hrun]
      exact ⟨rfl, hE⟩
    · rw [Method.run_bind_of_panic hrun]
      exact ⟨rfl, hE⟩

end GoesAs

/-- Where the plan goes through the method leaves a store with `I`, and else one with `E`. -/
def Splits (fails : Nat → Bool) (m : Method (Session σ) ε α) (s : Session σ) (p : Plan β)
    (E I : Session σ → Prop) : Prop :=
  (p.Goes fails s.calls → I (m.run s).1) ∧ (¬ p.Goes fails s.calls → E (m.run s).1)

/-- What comes after the plan leaves a store with `I`. -/
theorem GoesAs.splits {fails : Nat → Bool} {m : Method (Session σ) ε α} {s : Session σ}
    {p : Plan β} {E I : Session σ → Prop} {Q : α → β → Session σ → Prop}
    {f : α → Method (Session σ) ε γ} {R : γ → Session σ → Prop} (h : GoesAs fails m s p E Q)
    (hnext : ∀ a b s', Q a b s' → Leaves (f a) s' I R) : Splits fails (m >>= f) s p E I := by
  constructor
  · rintro ⟨hends, hnone⟩
    rcases hp : p.ends with b | e | why
    · obtain ⟨a, s', hrun, _, hQ⟩ := h.goes b hp hnone
      rw [Method.run_bind_of_ok hrun]
      exact (hnext a b s' hQ).ends
    · rw [hp] at hends
      cases hends
    · rw [hp] at hends
      cases hends
  · intro hno
    obtain ⟨hstop, hE⟩ := h.stops hno
    rcases hrun : m.run s with ⟨s', a | e | why⟩ <;> rw [hrun] at hstop hE
    · cases hstop
    · rwa [Method.run_bind_of_err hrun]
    · rwa [Method.run_bind_of_panic hrun]

/-- A read before the others. -/
theorem Splits.read {fails : Nat → Bool} {failure : ε} {s : Session σ} {g : σ → α} {p : Plan β}
    {E I : Session σ → Prop} {f : α → Method (Session σ) ε γ} (hE : E ⟨s.store, s.calls + 1⟩)
    (h : Splits fails (f (g s.store)) ⟨s.store, s.calls + 1⟩ p E I) :
    Splits fails (query fails failure (fun d => .ok (g d)) >>= f) s
      (Plan.quiet >>= fun _ => p) E I := by
  have hplan : (Plan.quiet >>= fun _ => p) = ⟨false :: p.marks, p.ends⟩ := Plan.bind_of_ok rfl
  have hgoes : Plan.Goes ⟨false :: p.marks, p.ends⟩ fails s.calls ↔
      fails s.calls = false ∧ p.Goes fails (s.calls + 1) := by
    constructor
    · rintro ⟨hends, hnone⟩
      refine ⟨hnone 0 (Nat.succ_pos _), hends, fun i hi => ?_⟩
      have hlater := hnone (i + 1) (Nat.succ_lt_succ hi)
      rwa [Nat.add_comm i 1, ← Nat.add_assoc] at hlater
    · rintro ⟨hfirst, hends, hnone⟩
      refine ⟨hends, fun i hi => ?_⟩
      cases i with
      | zero => exact hfirst
      | succ i =>
        have hlater := hnone i (Nat.lt_of_succ_lt_succ hi)
        rwa [Nat.add_assoc, Nat.add_comm 1 i] at hlater
  unfold Splits
  rw [hplan, hgoes]
  cases hfails : fails s.calls with
  | true =>
    rw [Method.run_bind_of_err (run_query_of_fails hfails)]
    exact ⟨fun hg => Bool.noConfusion hg.1, fun _ => hE⟩
  | false =>
    have hrun : (query fails failure fun d => (.ok (g d) : Outcome ε α)).run s =
        (⟨s.store, s.calls + 1⟩, .ok (g s.store)) := run_query_of_not_fails hfails
    rw [Method.run_bind_of_ok hrun]
    exact ⟨fun hg => h.1 hg.2, fun hno => h.2 fun hg => hno ⟨rfl, hg⟩⟩

end Cashbox.Lib
