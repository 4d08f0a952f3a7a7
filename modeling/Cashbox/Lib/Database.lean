import Mathlib.Data.Nat.Find
import Cashbox.Lib.Method

/-!
# Databases whose operations may fail

A program works on a store by operations that are numbered as they are begun.
Which of them fail is up to the surroundings: a failed operation returns an
error and does nothing. A statement about every choice of failures is a
statement about every point at which the program can be cut short.
-/

namespace Cashbox.Lib

variable {σ τ ε α β : Type}

/-! ## Sessions -/

/-- A store, and how many operations on it were begun. -/
structure Session (σ : Type) where
  store : σ
  calls : Nat
  deriving DecidableEq

/-- An operation, given its number. -/
def operation (fails : Nat → Bool) (failure : ε) (f : Nat → σ → σ × Outcome ε α) :
    Method (Session σ) ε α where
  run s :=
    if fails s.calls then ({ s with calls := s.calls + 1 }, .err failure)
    else
      ({ store := (f s.calls s.store).1, calls := s.calls + 1 }, (f s.calls s.store).2)

/-- An operation that reads. -/
def query (fails : Nat → Bool) (failure : ε) (read : σ → Outcome ε α) :
    Method (Session σ) ε α :=
  operation fails failure fun _ store => (store, read store)

/-- An operation that writes. -/
def execute (fails : Nat → Bool) (failure : ε) (write : Nat → σ → σ) :
    Method (Session σ) ε Unit :=
  operation fails failure fun n store => (write n store, .ok ())

section Runs

variable {fails : Nat → Bool} {failure : ε} {s : Session σ}

theorem run_operation_of_fails {f : Nat → σ → σ × Outcome ε α} (h : fails s.calls = true) :
    (operation fails failure f).run s = ({ s with calls := s.calls + 1 }, .err failure) := by
  show (if fails s.calls then _ else _) = _
  rw [if_pos h]

theorem run_operation_of_not_fails {f : Nat → σ → σ × Outcome ε α} (h : fails s.calls = false) :
    (operation fails failure f).run s =
      ({ store := (f s.calls s.store).1, calls := s.calls + 1 }, (f s.calls s.store).2) := by
  show (if fails s.calls then _ else _) = _
  rw [if_neg (by rw [h]; exact Bool.false_ne_true)]

theorem run_query_of_fails {read : σ → Outcome ε α} (h : fails s.calls = true) :
    (query fails failure read).run s = ({ s with calls := s.calls + 1 }, .err failure) :=
  run_operation_of_fails h

theorem run_query_of_not_fails {read : σ → Outcome ε α} (h : fails s.calls = false) :
    (query fails failure read).run s = ({ s with calls := s.calls + 1 }, read s.store) :=
  run_operation_of_not_fails h

theorem run_execute_of_fails {write : Nat → σ → σ} (h : fails s.calls = true) :
    (execute fails failure write).run s = ({ s with calls := s.calls + 1 }, .err failure) :=
  run_operation_of_fails h

theorem run_execute_of_not_fails {write : Nat → σ → σ} (h : fails s.calls = false) :
    (execute fails failure write).run s =
      ({ store := write s.calls s.store, calls := s.calls + 1 }, .ok ()) :=
  run_operation_of_not_fails h

end Runs

/-! ## Transactions

A transaction is a copy of some tables that is written back when it is committed. One that
is not committed is forgotten. -/

/-- Begin a transaction on the tables that are read. -/
def beginTx (fails : Nat → Bool) (failure : ε) (read : σ → τ) : Method (Session σ) ε τ :=
  query fails failure fun store => .ok (read store)

/-- A statement in a transaction. -/
def inTx (fails : Nat → Bool) (failure : ε) (write : Nat → τ → τ) (tx : τ) :
    Method (Session σ) ε τ :=
  operation fails failure fun n store => (store, .ok (write n tx))

/-- Write the tables of a transaction back. -/
def commitTx (fails : Nat → Bool) (failure : ε) (write : σ → τ → σ) (tx : τ) :
    Method (Session σ) ε Unit :=
  execute fails failure fun _ store => write store tx

/-! ## Queries for one row -/

/-- What a query for at most one row makes of the rows found: several are an error. -/
def fetchOne (failure : ε) : List α → Outcome ε (Option α)
  | [] => .ok none
  | [row] => .ok (some row)
  | _ => .err failure

theorem fetchOne_ne_panic (failure : ε) (rows : List α) (p : Panic) :
    fetchOne failure rows ≠ .panic p := by
  rcases rows with _ | ⟨row, _ | ⟨row', rows⟩⟩ <;> intro h <;> cases h

theorem fetchOne_of_le {rows : List α} (failure : ε) (h : rows.length ≤ 1) :
    fetchOne failure rows = .ok rows.head? := by
  rcases rows with _ | ⟨row, _ | ⟨row', rows⟩⟩
  · rfl
  · rfl
  · simp at h

theorem fetchOne_of_lt {rows : List α} (failure : ε) (h : 1 < rows.length) :
    fetchOne failure rows = .err failure := by
  rcases rows with _ | ⟨row, _ | ⟨row', rows⟩⟩
  · simp at h
  · simp at h
  · rfl

theorem eq_of_length_le_one {rows : List α} (h : rows.length ≤ 1) {row row' : α}
    (hrow : row ∈ rows) (hrow' : row' ∈ rows) : row = row' := by
  rcases rows with _ | ⟨r, _ | ⟨r', rows⟩⟩
  · cases hrow
  · rw [List.mem_singleton.mp hrow, List.mem_singleton.mp hrow']
  · simp at h

theorem length_le_one_of_nodup {rows : List α} (h : rows.Nodup)
    (hall : ∀ row ∈ rows, ∀ row' ∈ rows, row = row') : rows.length ≤ 1 := by
  rcases rows with _ | ⟨row, _ | ⟨row', rows⟩⟩
  · exact Nat.zero_le 1
  · exact Nat.le_refl 1
  · have hsame : row = row' := hall row (by simp) row' (by simp)
    simp [hsame] at h

/-- A row that is looked for is the one that is returned. -/
theorem eq_some_of_fetchOne {failure : ε} {rows : List α} {found : Option α} {row : α}
    (h : fetchOne failure rows = .ok found) (hrow : row ∈ rows) : found = some row := by
  rcases rows with _ | ⟨row', _ | ⟨row'', rows⟩⟩
  · cases hrow
  · cases h
    rw [List.mem_singleton.mp hrow]
  · cases h

/-! ## Paths

What a method does when nothing fails, operation by operation, tells what it leaves
behind when one of them does. -/

section Paths

variable {fails : Nat → Bool}

/-- The store after the first `i` operations of a path. -/
def storeAfter (d : σ) (path : List σ) (i : Nat) : σ := ((path.take i).getLast?).getD d

/-- The store at the end of a path. -/
def endOf (d : σ) (path : List σ) : σ := (path.getLast?).getD d

@[simp] theorem storeAfter_zero (d : σ) (path : List σ) : storeAfter d path 0 = d := rfl

theorem storeAfter_of_le {d : σ} {path : List σ} {i : Nat} (h : path.length ≤ i) :
    storeAfter d path i = endOf d path := by
  rw [storeAfter, endOf, List.take_of_length_le h]

theorem endOf_append (d : σ) (path path' : List σ) :
    endOf d (path ++ path') = endOf (endOf d path) path' := by
  rw [endOf, endOf, endOf, List.getLast?_append]
  cases path'.getLast? <;> rfl

theorem endOf_cons (d d' : σ) (path : List σ) : endOf d (d' :: path) = endOf d' path :=
  endOf_append d [d'] path

theorem storeAfter_append_of_le {d : σ} {path path' : List σ} {i : Nat} (h : i ≤ path.length) :
    storeAfter d (path ++ path') i = storeAfter d path i := by
  rw [storeAfter, storeAfter, List.take_append_of_le_length h]

theorem storeAfter_append_add (d : σ) (path path' : List σ) (i : Nat) :
    storeAfter d (path ++ path') (path.length + i) = storeAfter (endOf d path) path' i := by
  rw [storeAfter, List.take_length_add_append]
  exact endOf_append d path (path'.take i)

theorem storeAfter_cons_succ (d d' : σ) (path : List σ) (i : Nat) :
    storeAfter d (d' :: path) (i + 1) = storeAfter d' path i :=
  endOf_cons d d' (path.take i)

/-- The store is the one before, or one of the path. -/
theorem storeAfter_eq_or_mem (d : σ) (path : List σ) (i : Nat) :
    storeAfter d path i = d ∨ storeAfter d path i ∈ path := by
  rw [storeAfter]
  cases h : (path.take i).getLast? with
  | none => exact .inl rfl
  | some d' => exact .inr (List.mem_of_mem_take (List.mem_of_getLast? h))

/-- Operations that change nothing. -/
theorem storeAfter_replicate (d : σ) (n i : Nat) : storeAfter d (List.replicate n d) i = d := by
  rcases storeAfter_eq_or_mem d (List.replicate n d) i with h | h
  · exact h
  · exact List.eq_of_mem_replicate h

theorem endOf_replicate (d : σ) (n : Nat) : endOf d (List.replicate n d) = d := by
  rw [← storeAfter_of_le (Nat.le_refl _), storeAfter_replicate]

theorem storeAfter_replicate_append (d : σ) (n : Nat) (path : List σ) (i : Nat) :
    storeAfter d (List.replicate n d ++ path) (n + i) = storeAfter d path i := by
  have h := storeAfter_append_add d (List.replicate n d) path i
  rwa [List.length_replicate, endOf_replicate] at h

/-- The method performs the operations of a path, one after the other, and then ends in `r`. An
operation that fails ends it before. -/
structure Performs (fails : Nat → Bool) (m : Method (Session σ) ε α) (s : Session σ)
    (path : List σ) (r : Outcome ε α) : Prop where
  ends : (∀ i < path.length, fails (s.calls + i) = false) →
    m.run s = (⟨endOf s.store path, s.calls + path.length⟩, r)
  breaks : ∀ i < path.length, fails (s.calls + i) = true →
    (∀ j < i, fails (s.calls + j) = false) →
      ∃ e, m.run s = (⟨storeAfter s.store path i, s.calls + i + 1⟩, .err e)

namespace Performs

variable {m : Method (Session σ) ε α} {s : Session σ} {path path' : List σ} {r : Outcome ε α}

theorem lift (x : Outcome ε α) (s : Session σ) : Performs fails (Method.lift x) s [] x where
  ends _ := rfl
  breaks i hi := absurd hi (Nat.not_lt_zero i)

theorem pure (a : α) (s : Session σ) :
    Performs fails (Pure.pure a : Method (Session σ) ε α) s [] (.ok a) where
  ends _ := rfl
  breaks i hi := absurd hi (Nat.not_lt_zero i)

theorem get (s : Session σ) :
    Performs fails (Method.get : Method (Session σ) ε (Session σ)) s [] (.ok s) where
  ends _ := rfl
  breaks i hi := absurd hi (Nat.not_lt_zero i)

theorem operation (failure : ε) (f : Nat → σ → σ × Outcome ε α) (s : Session σ) :
    Performs fails (operation fails failure f) s [(f s.calls s.store).1]
      (f s.calls s.store).2 where
  ends h := run_operation_of_not_fails (h 0 Nat.zero_lt_one)
  breaks i hi hfails _ := by
    obtain rfl := Nat.lt_one_iff.mp hi
    exact ⟨failure, run_operation_of_fails hfails⟩

theorem query (failure : ε) (read : σ → Outcome ε α) (s : Session σ) :
    Performs fails (query fails failure read) s [s.store] (read s.store) :=
  Performs.operation ..

/-- A query that finds what it reads. -/
theorem read (failure : ε) (f : σ → α) (s : Session σ) :
    Performs fails (Lib.query fails failure fun store => .ok (f store)) s [s.store]
      (.ok (f s.store)) :=
  Performs.query ..

theorem execute (failure : ε) (write : Nat → σ → σ) (s : Session σ) :
    Performs fails (execute fails failure write) s [write s.calls s.store] (.ok ()) :=
  Performs.operation ..

theorem beginTx (failure : ε) (read : σ → τ) (s : Session σ) :
    Performs fails (beginTx fails failure read) s [s.store] (.ok (read s.store)) :=
  Performs.query ..

theorem inTx (failure : ε) (write : Nat → τ → τ) (tx : τ) (s : Session σ) :
    Performs fails (inTx fails failure write tx) s [s.store] (.ok (write s.calls tx)) :=
  Performs.operation ..

/-- A query whose result is known. -/
theorem query_of_eq {failure : ε} {read : σ → Outcome ε α} (h : read s.store = r) :
    Performs fails (Lib.query fails failure read) s [s.store] r := by
  rw [← h]
  exact Performs.query ..

/-- A statement in a transaction whose effect is known. -/
theorem inTx_of_eq {failure : ε} {write : Nat → τ → τ} {tx tx' : τ} (h : write s.calls tx = tx') :
    Performs fails (Lib.inTx fails failure write tx) s [s.store] (.ok tx') := by
  rw [← h]
  exact Performs.inTx ..

theorem commitTx (failure : ε) (write : σ → τ → σ) (tx : τ) (s : Session σ) :
    Performs fails (commitTx fails failure write tx) s [write s.store tx] (.ok ()) :=
  Performs.execute ..

/-- A sequence performs the one path and then the other. -/
theorem bind {a : α} {f : α → Method (Session σ) ε β} {r' : Outcome ε β}
    (h : Performs fails m s path (.ok a))
    (h' : Performs fails (f a) ⟨endOf s.store path, s.calls + path.length⟩ path' r') :
    Performs fails (m >>= f) s (path ++ path') r' where
  ends hfails := by
    rw [List.length_append] at hfails
    have hm := h.ends fun i hi => hfails i (by omega)
    have hf := h'.ends fun i hi => by
      rw [Nat.add_assoc]
      exact hfails (path.length + i) (by omega)
    rw [Method.run_bind_of_ok hm, hf, endOf_append, List.length_append, Nat.add_assoc]
  breaks i hi hfails hbefore := by
    rw [List.length_append] at hi
    by_cases hlt : i < path.length
    · -- it breaks in the first part
      obtain ⟨e, he⟩ := h.breaks i hlt hfails hbefore
      refine ⟨e, ?_⟩
      rw [Method.run_bind_of_err he, storeAfter_append_of_le (Nat.le_of_lt hlt)]
    · obtain ⟨k, rfl⟩ := Nat.exists_eq_add_of_le (Nat.le_of_not_lt hlt)
      have hm := h.ends fun j hj => hbefore j (by omega)
      obtain ⟨e, he⟩ := h'.breaks k (by omega) (by rwa [Nat.add_assoc]) fun j hj => by
        rw [Nat.add_assoc]
        exact hbefore (path.length + j) (by omega)
      refine ⟨e, ?_⟩
      rw [Method.run_bind_of_ok hm, he, storeAfter_append_add, Nat.add_assoc s.calls]

/-- What is returned is made of what the method returns. -/
theorem map {a : α} (f : α → β) (h : Performs fails m s path (.ok a)) :
    Performs fails (m >>= fun a => Pure.pure (f a)) s path (.ok (f a)) := by
  have hpure : Performs fails (m >>= fun a => Pure.pure (f a)) s (path ++ []) (.ok (f a)) :=
    h.bind (Performs.pure (f a) _)
  rwa [List.append_nil] at hpure

/-- Operations that change nothing, and then others. -/
theorem replicate_bind {a : α} {f : α → Method (Session σ) ε β} {r' : Outcome ε β} {d : σ}
    {calls n : Nat} (h : Performs fails m ⟨d, calls⟩ (List.replicate n d) (.ok a))
    (h' : Performs fails (f a) ⟨d, calls + n⟩ path' r') :
    Performs fails (m >>= f) ⟨d, calls⟩ (List.replicate n d ++ path') r' := by
  refine h.bind ?_
  rw [endOf_replicate, List.length_replicate]
  exact h'

/-- Two methods that change nothing, one after the other. -/
theorem bind_replicate {a : α} {f : α → Method (Session σ) ε β} {r' : Outcome ε β} {d : σ}
    {calls n n' : Nat} (h : Performs fails m ⟨d, calls⟩ (List.replicate n d) (.ok a))
    (h' : Performs fails (f a) ⟨d, calls + n⟩ (List.replicate n' d) r') :
    Performs fails (m >>= f) ⟨d, calls⟩ (List.replicate (n + n') d) r' := by
  rw [← List.replicate_append_replicate]
  exact h.replicate_bind h'

/-- A method that ends in an error performs no more. -/
theorem bind_err {e : ε} {f : α → Method (Session σ) ε β} (h : Performs fails m s path (.err e)) :
    Performs fails (m >>= f) s path (.err e) where
  ends hfails := Method.run_bind_of_err (h.ends hfails)
  breaks i hi hfails hbefore := by
    obtain ⟨e', he'⟩ := h.breaks i hi hfails hbefore
    exact ⟨e', Method.run_bind_of_err he'⟩

/-- So does one that panics. -/
theorem bind_panic {why : Panic} {f : α → Method (Session σ) ε β}
    (h : Performs fails m s path (.panic why)) : Performs fails (m >>= f) s path (.panic why) where
  ends hfails := Method.run_bind_of_panic (h.ends hfails)
  breaks i hi hfails hbefore := by
    obtain ⟨e', he'⟩ := h.breaks i hi hfails hbefore
    exact ⟨e', Method.run_bind_of_err he'⟩

/-- A value that is there. -/
theorem lift_bind {x : Outcome ε α} {a : α} {f : α → Method (Session σ) ε β} {r' : Outcome ε β}
    (hx : x = .ok a) (h : Performs fails (f a) s path r') :
    Performs fails (Method.lift x >>= f) s path r' := by
  subst hx
  exact h

/-- A value that is not there. -/
theorem lift_bind_of_not_ok {x : Outcome ε α} (f : α → Method (Session σ) ε β)
    (hx : x.isOk = false) (s : Session σ) :
    ∃ r, r.isOk = false ∧ Performs fails (Method.lift x >>= f) s [] r := by
  cases x with
  | ok a => cases hx
  | err e => exact ⟨_, rfl, bind_err (lift _ s)⟩
  | panic why => exact ⟨_, rfl, bind_panic (lift _ s)⟩

/-- Either some operation of the path is the first to fail, or none fails. -/
theorem cases (h : Performs fails m s path r) :
    (∃ i e, i < path.length ∧ fails (s.calls + i) = true ∧
        (∀ j < i, fails (s.calls + j) = false) ∧
        m.run s = (⟨storeAfter s.store path i, s.calls + i + 1⟩, .err e)) ∨
      (∀ i < path.length, fails (s.calls + i) = false) ∧
        m.run s = (⟨endOf s.store path, s.calls + path.length⟩, r) := by
  by_cases hany : ∃ i, i < path.length ∧ fails (s.calls + i) = true
  · left
    obtain ⟨hlt, hfails⟩ := Nat.find_spec hany
    have hbefore : ∀ j < Nat.find hany, fails (s.calls + j) = false := fun j hj =>
      Bool.eq_false_iff.mpr fun hj' => Nat.find_min hany hj ⟨Nat.lt_trans hj hlt, hj'⟩
    obtain ⟨e, he⟩ := h.breaks _ hlt hfails hbefore
    exact ⟨_, e, hlt, hfails, hbefore, he⟩
  · right
    have hnone : ∀ i < path.length, fails (s.calls + i) = false := fun i hi =>
      Bool.eq_false_iff.mpr fun hfails => hany ⟨i, hi, hfails⟩
    exact ⟨hnone, h.ends hnone⟩

/-- Whatever fails, what is left is the store before or one of the path. -/
theorem store_eq_or_mem (h : Performs fails m s path r) :
    (m.run s).1.store = s.store ∨ (m.run s).1.store ∈ path := by
  rcases h.cases with ⟨i, e, _, _, _, hrun⟩ | ⟨_, hrun⟩
  · rw [hrun]
    exact storeAfter_eq_or_mem s.store path i
  · rw [hrun, ← storeAfter_of_le (Nat.le_refl _)]
    exact storeAfter_eq_or_mem s.store path path.length

/-- What ends in `Ok` has performed the path. -/
theorem store_of_ok {a : α} (h : Performs fails m s path r) (hok : (m.run s).2 = .ok a) :
    (m.run s).1.store = endOf s.store path := by
  rcases h.cases with ⟨i, e, _, _, _, hrun⟩ | ⟨_, hrun⟩
  · rw [hrun] at hok
    cases hok
  · rw [hrun]

/-- What ends in `Ok` has performed the whole path. -/
theorem of_ok {a : α} {s' : Session σ} (h : Performs fails m s path r)
    (hrun : m.run s = (s', .ok a)) :
    r = .ok a ∧ s' = ⟨endOf s.store path, s.calls + path.length⟩ ∧
      ∀ i < path.length, fails (s.calls + i) = false := by
  rcases h.cases with ⟨i, e, _, _, _, hbreaks⟩ | ⟨hnone, hends⟩
  · rw [hbreaks] at hrun
    cases hrun
  · rw [hends] at hrun
    cases hrun
    exact ⟨rfl, rfl, hnone⟩

/-- Operations are counted. -/
theorem calls_le (h : Performs fails m s path r) : s.calls ≤ (m.run s).1.calls := by
  rcases h.cases with ⟨i, e, _, _, _, hrun⟩ | ⟨_, hrun⟩
  · rw [hrun]
    exact Nat.le_add_right s.calls (i + 1)
  · rw [hrun]
    exact Nat.le_add_right s.calls path.length

/-- One operation that changes nothing, and no `Ok`. -/
theorem of_read (h : Performs fails m s [s.store] r) (hr : r.isOk = false) :
    (m.run s).2.isOk = false ∧ (m.run s).1.store = s.store := by
  rcases h.cases with ⟨i, e, _, _, _, hrun⟩ | ⟨_, hrun⟩
  · rw [hrun]
    exact ⟨rfl, storeAfter_replicate s.store 1 i⟩
  · rw [hrun]
    exact ⟨hr, rfl⟩

/-- A read and a write: both are done, or nothing is. -/
theorem of_write {d : σ} {a : α} (h : Performs fails m s [s.store, d] (.ok a)) :
    ((m.run s).2.isOk = false ∧ (m.run s).1.store = s.store ∧
        (fails s.calls = true ∨ fails (s.calls + 1) = true)) ∨
      (m.run s = (⟨d, s.calls + 2⟩, .ok a) ∧ fails s.calls = false ∧
        fails (s.calls + 1) = false) := by
  rcases h.cases with ⟨i, e, hi, hfails, _, hrun⟩ | ⟨hnone, hrun⟩
  · left
    rw [hrun]
    have hcases : i = 0 ∨ i = 1 := by
      rw [List.length_cons, List.length_singleton] at hi
      omega
    rcases hcases with rfl | rfl
    · exact ⟨rfl, rfl, .inl hfails⟩
    · exact ⟨rfl, rfl, .inr hfails⟩
  · exact .inr ⟨hrun, hnone 0 Nat.zero_lt_two, hnone 1 Nat.one_lt_two⟩

/-- Operations that change nothing and end in an error. -/
theorem of_replicate {n : Nat} {e : ε}
    (h : Performs fails m s (List.replicate n s.store) (.err e)) :
    (m.run s).1.store = s.store ∧ (m.run s).2.IsErr := by
  rcases h.cases with ⟨i, e, _, _, _, hrun⟩ | ⟨_, hrun⟩
  · rw [hrun]
    exact ⟨storeAfter_replicate .., trivial⟩
  · rw [hrun]
    exact ⟨endOf_replicate .., trivial⟩

/-- Operations that change nothing before a write: the store is as it was until all are done. -/
theorem of_replicate_write {a : α} {d : σ} {n : Nat}
    (h : Performs fails m s (List.replicate n s.store ++ [d]) (.ok a)) :
    ((∃ i < n + 1, fails (s.calls + i) = true) ∧ (m.run s).2.isOk = false ∧
        (m.run s).1.store = s.store ∧ s.calls ≤ (m.run s).1.calls) ∨
      (¬ ∃ i < n + 1, fails (s.calls + i) = true) ∧ m.run s = (⟨d, s.calls + (n + 1)⟩, .ok a) := by
  have hlength : (List.replicate n s.store ++ [d]).length = n + 1 := by simp
  have hends : endOf s.store (List.replicate n s.store ++ [d]) = d := endOf_append ..
  rcases h.cases with ⟨i, e, hi, hfails, _, hrun⟩ | ⟨hnone, hrun⟩
  · left
    rw [hlength] at hi
    rw [hrun]
    refine ⟨⟨i, hi, hfails⟩, rfl, ?_, ?_⟩
    · have hle : i ≤ (List.replicate n s.store).length := by
        rw [List.length_replicate]
        exact Nat.le_of_lt_succ hi
      show storeAfter s.store _ i = s.store
      rw [storeAfter_append_of_le hle, storeAfter_replicate]
    · exact Nat.le_add_right s.calls (i + 1)
  · right
    rw [hlength] at hnone hrun
    rw [hends] at hrun
    refine ⟨?_, hrun⟩
    rintro ⟨i, hi, hfails⟩
    rw [hnone i hi] at hfails
    cases hfails

/-- **All or nothing**: where a path leaves a view of the store as it is for its first `k`
operations and has changed it from then on, an error leaves the view as it was exactly if one
of the first operations fails, or none at all and there is no error in the end. -/
theorem unchanged_iff (h : Performs fails m s path r) (v : σ → β) {k : Nat}
    (hk : k < path.length) (hsame : ∀ i ≤ k, v (storeAfter s.store path i) = v s.store)
    (hchange : ∀ i, k < i → v (storeAfter s.store path i) ≠ v s.store) :
    ((m.run s).2.IsErr → v (m.run s).1.store = v s.store) ↔
      (∃ i ≤ k, fails (s.calls + i) = true) ∨
        (∀ i < path.length, fails (s.calls + i) = false) ∧ ¬ r.IsErr := by
  rcases h.cases with ⟨i, e, hi, hfails, hbefore, hrun⟩ | ⟨hnone, hrun⟩
  · rw [hrun]
    constructor
    · intro hunchanged
      left
      refine ⟨i, ?_, hfails⟩
      by_contra hlate
      exact hchange i (Nat.lt_of_not_le hlate) (hunchanged trivial)
    · rintro (⟨j, hj, hfails'⟩ | ⟨hnone, _⟩) _
      · have hij : i ≤ j := by
          by_contra hji
          rw [hbefore j (Nat.lt_of_not_le hji)] at hfails'
          cases hfails'
        exact hsame i (Nat.le_trans hij hj)
      · rw [hnone i hi] at hfails
        cases hfails
  · have hend : v (endOf s.store path) ≠ v s.store := by
      rw [← storeAfter_of_le (Nat.le_refl _)]
      exact hchange _ hk
    rw [hrun]
    constructor
    · intro hunchanged
      exact .inr ⟨hnone, fun herr => hend (hunchanged herr)⟩
    · rintro (⟨j, hj, hfails⟩ | ⟨_, hok⟩) herr
      · rw [hnone j (Nat.lt_of_le_of_lt hj hk)] at hfails
        cases hfails
      · exact absurd herr hok

end Performs

/-- The method reads only. Unless an operation fails, it returns `Ok` exactly under the condition
`P`, and the value has `Q`; anywhere else it returns `Err`. -/
def ReadsIf (fails : Nat → Bool) (m : Method (Session σ) ε α) (d : σ) (P : Prop) (Q : α → Prop) :
    Prop :=
  ∀ calls, ∃ n r, Performs fails m ⟨d, calls⟩ (List.replicate n d) r ∧
    ((∃ a, r = .ok a ∧ P ∧ Q a) ∨ ∃ e, r = .err e ∧ ¬ P)

namespace ReadsIf

variable {m : Method (Session σ) ε α} {d : σ} {P : Prop} {Q : α → Prop}

theorem mono {P' : Prop} {Q' : α → Prop} (h : ReadsIf fails m d P Q) (hP : P ↔ P')
    (hQ : ∀ a, Q a → Q' a) : ReadsIf fails m d P' Q' := by
  intro calls
  obtain ⟨n, r, hperforms, ⟨a, hr, hp, hq⟩ | ⟨e, hr, hp⟩⟩ := h calls
  · exact ⟨n, r, hperforms, .inl ⟨a, hr, hP.mp hp, hQ a hq⟩⟩
  · exact ⟨n, r, hperforms, .inr ⟨e, hr, fun hp' => hp (hP.mpr hp')⟩⟩

theorem lift {x : Outcome ε α} (h : (∃ a, x = .ok a ∧ P ∧ Q a) ∨ ∃ e, x = .err e ∧ ¬ P) :
    ReadsIf fails (Method.lift x) d P Q := fun calls => ⟨0, x, Performs.lift x ⟨d, calls⟩, h⟩

theorem pure {a : α} (hp : P) (hq : Q a) :
    ReadsIf fails (Pure.pure a : Method (Session σ) ε α) d P Q :=
  lift (.inl ⟨a, rfl, hp, hq⟩)

theorem query {failure : ε} {read : σ → Outcome ε α}
    (h : (∃ a, read d = .ok a ∧ P ∧ Q a) ∨ ∃ e, read d = .err e ∧ ¬ P) :
    ReadsIf fails (Lib.query fails failure read) d P Q := fun calls =>
  ⟨1, read d, Performs.query failure read ⟨d, calls⟩, h⟩

/-- A query that finds what it reads. -/
theorem read (failure : ε) (f : σ → α) :
    ReadsIf fails (Lib.query fails failure fun store => .ok (f store)) d True (· = f d) :=
  query (.inl ⟨f d, rfl, trivial, rfl⟩)

/-- A sequence returns `Ok` where both of its parts do. -/
theorem bind {f : α → Method (Session σ) ε β} {P' : Prop} {Q' : β → Prop}
    (h : ReadsIf fails m d P Q) (hnext : ∀ a, P → Q a → ReadsIf fails (f a) d P' Q') :
    ReadsIf fails (m >>= f) d (P ∧ P') Q' := by
  intro calls
  obtain ⟨n, r, hm, ⟨a, rfl, hp, hq⟩ | ⟨e, rfl, hp⟩⟩ := h calls
  · obtain ⟨n', r', hf, hcases⟩ := hnext a hp hq (calls + n)
    refine ⟨n + n', r', hm.bind_replicate hf, ?_⟩
    rcases hcases with ⟨b, hr, hp', hq'⟩ | ⟨e, hr, hp'⟩
    · exact .inl ⟨b, hr, ⟨hp, hp'⟩, hq'⟩
    · exact .inr ⟨e, hr, fun hboth => hp' hboth.2⟩
  · exact ⟨n, .err e, hm.bind_err, .inr ⟨e, rfl, fun hboth => hp hboth.1⟩⟩

/-- What is returned is made of what the method returns. -/
theorem map {Q' : β → Prop} (f : α → β) (h : ReadsIf fails m d P Q) (hQ : ∀ a, Q a → Q' (f a)) :
    ReadsIf fails (m >>= fun a => Pure.pure (f a)) d P Q' := by
  have hpure : ReadsIf fails (m >>= fun a => Pure.pure (f a)) d (P ∧ True) Q' :=
    h.bind fun a _ hq => pure trivial (hQ a hq)
  exact hpure.mono (and_iff_left trivial) fun _ hq => hq

/-- Whatever fails, the method returns `Ok` only under the condition, and `Err` elsewhere. -/
theorem run (h : ReadsIf fails m d P Q) (calls : Nat) :
    (∃ s' a, m.run ⟨d, calls⟩ = (s', .ok a) ∧ P ∧ Q a) ∨
      ∃ s' e, m.run ⟨d, calls⟩ = (s', .err e) := by
  obtain ⟨n, r, hperforms, hcases⟩ := h calls
  rcases hperforms.cases with ⟨i, e, _, _, _, hrun⟩ | ⟨_, hrun⟩
  · exact .inr ⟨_, e, hrun⟩
  · rcases hcases with ⟨a, rfl, hp, hq⟩ | ⟨e, rfl, -⟩
    · exact .inl ⟨_, a, hrun, hp, hq⟩
    · exact .inr ⟨_, e, hrun⟩

/-- Where nothing fails, the condition is enough. -/
theorem run_of_calm (h : ReadsIf fails m d P Q) (hcalm : ∀ n, fails n = false) (hp : P)
    (calls : Nat) : ∃ s' a, m.run ⟨d, calls⟩ = (s', .ok a) ∧ Q a := by
  obtain ⟨n, r, hperforms, ⟨a, rfl, -, hq⟩ | ⟨e, -, hnot⟩⟩ := h calls
  · exact ⟨_, a, hperforms.ends fun i _ => hcalm _, hq⟩
  · exact absurd hp hnot

end ReadsIf

end Paths

end Cashbox.Lib
