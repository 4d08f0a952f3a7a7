import Mathlib.Data.List.ReduceOption
import Cashbox.Lib.Outcome
import Cashbox.Lib.UniqueTable

/-!
# Left joins

A left join has, for each row of the one table, the rows of the other table that it refers
to. A row that refers to none is joined with nothing but `NULL`, and a reader that takes
whole rows fails on the first such one.
-/

namespace Cashbox.Lib

variable {α β κ ε : Type} [DecidableEq κ]

/-- `select b.* from rows a left join table b on ref a = id b` -/
def leftJoin (ref : α → κ) (id : β → κ) (table : List β) (rows : List α) : List (Option β) :=
  rows.flatMap fun a =>
    match table.filter fun b => id b = ref a with
    | [] => [none]
    | found => found.map some

/-- The rows of a result; one that is all `NULL` cannot be read. -/
def decodeRows (e : ε) : List (Option α) → Outcome ε (List α)
  | [] => .ok []
  | none :: _ => .err e
  | some row :: rest => do
    let rows ← decodeRows e rest
    pure (row :: rows)

section Decode

variable {e : ε} {joined : List (Option α)} {rows : List α}

/-- Rows that are read were not `NULL`. -/
theorem decodeRows_eq_ok : decodeRows e joined = .ok rows ↔ joined = rows.map some := by
  constructor
  · intro h
    induction joined generalizing rows with
    | nil =>
      cases h
      rfl
    | cons row joined ih =>
      cases row with
      | none => cases h
      | some row =>
        rw [decodeRows] at h
        obtain ⟨rest, hrest, hrows⟩ := Outcome.bind_eq_ok.mp h
        cases hrows
        rw [ih hrest, List.map_cons]
  · rintro rfl
    induction rows with
    | nil => rfl
    | cons row rows ih =>
      rw [List.map_cons, decodeRows, ih]
      rfl

theorem decodeRows_of_none_mem (h : none ∈ joined) : decodeRows e joined = .err e := by
  induction joined with
  | nil => cases h
  | cons row joined ih =>
    cases row with
    | none => rfl
    | some row =>
      cases h with
      | tail _ h =>
        rw [decodeRows, ih h]
        rfl

/-- Without a `NULL` all rows are read. -/
theorem exists_decodeRows_iff : (∃ rows, decodeRows e joined = .ok rows) ↔ none ∉ joined := by
  constructor
  · rintro ⟨rows, hrows⟩ hnone
    rw [decodeRows_of_none_mem hnone] at hrows
    cases hrows
  · intro hnone
    refine ⟨joined.reduceOption, decodeRows_eq_ok.mpr ?_⟩
    induction joined with
    | nil => rfl
    | cons row joined ih =>
      cases row with
      | none => exact absurd List.mem_cons_self hnone
      | some row =>
        have hjoined := ih fun h => hnone (List.mem_cons_of_mem _ h)
        rw [List.reduceOption_cons_of_some, List.map_cons, ← hjoined]

end Decode

section Join

variable {ref : α → κ} {id : β → κ} {table : List β} {rows : List α}

/-- What is joined to a row. -/
theorem mem_leftJoin {o : Option β} :
    o ∈ leftJoin ref id table rows ↔
      ∃ a ∈ rows, (o = none ∧ ∀ b ∈ table, id b ≠ ref a) ∨
        ∃ b ∈ table, id b = ref a ∧ o = some b := by
  unfold leftJoin
  rw [List.mem_flatMap]
  refine exists_congr fun a => and_congr_right fun _ => ?_
  have hfilter : ∀ b, b ∈ table.filter (fun b => id b = ref a) ↔ b ∈ table ∧ id b = ref a :=
    fun b => by simp
  cases hfound : table.filter fun b => id b = ref a with
  | nil =>
    have hno : ∀ b ∈ table, id b ≠ ref a := by
      intro b hb hid
      have hmem := (hfilter b).mpr ⟨hb, hid⟩
      rw [hfound] at hmem
      cases hmem
    simp only [List.mem_singleton]
    exact ⟨fun h => .inl ⟨h, hno⟩, fun h => h.elim And.left
      fun ⟨b, hb, hid, _⟩ => absurd hid (hno b hb)⟩
  | cons b found =>
    rw [hfound] at hfilter
    simp only [List.mem_map]
    constructor
    · rintro ⟨b', hb', rfl⟩
      obtain ⟨hmem, hid⟩ := (hfilter b').mp hb'
      exact .inr ⟨b', hmem, hid, rfl⟩
    · rintro (⟨_, hno⟩ | ⟨b', hmem, hid, rfl⟩)
      · obtain ⟨hmem, hid⟩ := (hfilter b).mp List.mem_cons_self
        exact absurd hid (hno b hmem)
      · exact ⟨b', (hfilter b').mpr ⟨hmem, hid⟩, rfl⟩

/-- Every row refers to one of the table. -/
def Referred (ref : α → κ) (id : β → κ) (table : List β) (rows : List α) : Prop :=
  ∀ a ∈ rows, ∃ b ∈ table, id b = ref a

theorem none_mem_leftJoin : none ∈ leftJoin ref id table rows ↔ ¬ Referred ref id table rows := by
  rw [mem_leftJoin, Referred]
  simp

/-- A left join is read exactly if no row is joined with nothing. -/
theorem exists_decodeRows_leftJoin_iff {e : ε} :
    (∃ found, decodeRows e (leftJoin ref id table rows) = .ok found) ↔
      Referred ref id table rows := by
  rw [exists_decodeRows_iff, none_mem_leftJoin, not_not]

theorem decodeRows_leftJoin_of_not_referred {e : ε} (h : ¬ Referred ref id table rows) :
    decodeRows e (leftJoin ref id table rows) = .err e :=
  decodeRows_of_none_mem (none_mem_leftJoin.mpr h)

/-- What is read of a left join are the rows of the table that are referred to. -/
theorem mem_of_decodeRows_leftJoin {e : ε} {found : List β}
    (h : decodeRows e (leftJoin ref id table rows) = .ok found) {b : β} :
    b ∈ found ↔ b ∈ table ∧ ∃ a ∈ rows, id b = ref a := by
  have hmem : b ∈ found ↔ some b ∈ leftJoin ref id table rows := by
    rw [decodeRows_eq_ok.mp h]
    simp
  rw [hmem, mem_leftJoin]
  constructor
  · rintro ⟨a, ha, ⟨hnone, _⟩ | ⟨b', hb', hid, heq⟩⟩
    · cases hnone
    · cases heq
      exact ⟨hb', a, ha, hid⟩
  · rintro ⟨hb, a, ha, hid⟩
    exact ⟨a, ha, .inr ⟨b, hb, hid, rfl⟩⟩

/-- As identifiers are a key, each row is joined with one row or none. -/
theorem leftJoin_eq_map (hkey : (table.map id).Nodup) (rows : List α) :
    leftJoin ref id table rows = rows.map fun a => table.find? fun b => id b = ref a := by
  induction rows with
  | nil => rfl
  | cons a rows ih =>
    have hfilter := filter_eq_find?_toList hkey (ref a)
    rw [List.map_cons, ← ih]
    unfold leftJoin
    rw [List.flatMap_cons, hfilter]
    cases table.find? fun b => id b = ref a with
    | none => rfl
    | some b => rfl

end Join

end Cashbox.Lib
