import Cashbox.Lib.UniqueTable
import Cashbox.Wallets.Database

/-!
# Rows with a key

A table has an identifier for each row as its primary key, and the rows also have a key of their
own: what they are about. A row is found under its own key and written under its identifier.
Where both are unique, a row that is found and saved again, or saved because none was found, is the
only one under its key afterwards, and all other keys have the rows that they had.
-/

namespace Cashbox.Wallets

open Cashbox.Lib

variable {ρ κ : Type}

/-! ## Saving -/

/-- `save` into a table whose primary key is the identifier. -/
def insertRow (env : Surroundings) (n : Nat) (m : Saved ρ) (rows : List (Saved ρ)) :
    Outcome WalletError (List (Saved ρ)) :=
  let shared := beforeSave env n 0 m.shared
  if shared.id ∈ rows.map (fun r => r.shared.id) then .err .rbatisError
  else .ok (rows ++ [⟨shared, m.row⟩])

/-- `save_update`: a row without an identifier is new. -/
def putRow (env : Surroundings) (n : Nat) (m : Saved ρ) (rows : List (Saved ρ)) :
    Outcome WalletError (List (Saved ρ)) :=
  if m.shared.id = [] then insertRow env n m rows
  else .ok (updateById ⟨beforeUpdate env n m.shared, m.row⟩ rows)

/-- A statement in a transaction that may break a key. -/
def statement {σ τ : Type} (env : Surroundings) (write : Nat → τ → Outcome WalletError τ) (tx : τ) :
    Method (Session σ) WalletError τ :=
  operation env.fails .rbatisError fun n store => (store, write n tx)

/-- `fetch_by_wrapper` in a transaction -/
def fetchIn {σ τ α : Type} (env : Surroundings) (read : τ → List α) (tx : τ) :
    Method (Session σ) WalletError (Option α) :=
  query env.fails .rbatisError fun _ => fetchOne .rbatisError (read tx)

/-- A statement whose effect is known. -/
theorem performs_statement {σ τ : Type} {env : Surroundings} {s : Session σ}
    {write : Nat → τ → Outcome WalletError τ} {tx : τ} {r : Outcome WalletError τ}
    (h : write s.calls tx = r) : Performs env.fails (statement env write tx) s [s.store] r := by
  rw [← h]
  exact Performs.operation ..

/-! ## Tables -/

section Tables

variable [DecidableEq κ] (key : ρ → κ)

/-- The rows with a key. -/
def rowsUnder (k : κ) (rows : List (Saved ρ)) : List (Saved ρ) :=
  rows.filter fun m => key m.row = k

/-- Identifiers and keys are unique, and no identifier is empty. -/
structure Kept (rows : List (Saved ρ)) : Prop where
  ids : (rows.map fun m => m.shared.id).Nodup
  named : ∀ m ∈ rows, m.shared.id ≠ []
  keys : (rows.map fun m => key m.row).Nodup

/-- The row is the only one under its key, and nothing else has changed. -/
structure Puts (rows : List (Saved ρ)) (m : Saved ρ) (rows' : List (Saved ρ)) : Prop where
  kept : Kept key rows'
  self : rowsUnder key (key m.row) rows' = [m]
  others : ∀ k, k ≠ key m.row → rowsUnder key k rows' = rowsUnder key k rows

variable {key} {env : Surroundings} {n : Nat} {m old : Saved ρ} {rows rows' : List (Saved ρ)}

omit [DecidableEq κ] in
theorem Kept.nil : Kept key [] := ⟨List.nodup_nil, List.forall_mem_nil _, List.nodup_nil⟩

theorem mem_rowsUnder {k : κ} : m ∈ rowsUnder key k rows ↔ m ∈ rows ∧ key m.row = k := by
  simp [rowsUnder]

omit [DecidableEq κ] in
/-- The identifiers and the keys decide whether a table is kept. -/
theorem Kept.of_map_eq (h : Kept key rows)
    (hids : (rows'.map fun m => m.shared.id) = rows.map fun m => m.shared.id)
    (hkeys : (rows'.map fun m => key m.row) = rows.map fun m => key m.row) : Kept key rows' where
  ids := hids ▸ h.ids
  named m hm := by
    have hmem : m.shared.id ∈ rows.map fun m => m.shared.id := hids ▸ List.mem_map_of_mem hm
    obtain ⟨r, hr, heq⟩ := List.mem_map.mp hmem
    rw [← heq]
    exact h.named r hr
  keys := hkeys ▸ h.keys

/-- There is at most one row under a key. -/
theorem Kept.rowsUnder_eq (h : Kept key rows) (hm : m ∈ rows) :
    rowsUnder key (key m.row) rows = [m] := filter_key h.keys hm

/-- The rows of the table that a row was put into. -/
theorem Puts.mem (h : Puts key rows m rows') {r : Saved ρ} :
    r ∈ rows' ↔ r = m ∨ r ∈ rows ∧ key r.row ≠ key m.row := by
  have hunder : ∀ t : List (Saved ρ), r ∈ t ↔ r ∈ rowsUnder key (key r.row) t := fun t => by
    simp [rowsUnder]
  by_cases hkey : key r.row = key m.row
  · rw [hunder rows', hkey, h.self, List.mem_singleton]
    simp
  · have hne : r ≠ m := fun heq => hkey (congrArg (fun m => key m.row) heq)
    rw [hunder rows', h.others _ hkey, ← hunder rows]
    simp [hkey, hne]

/-- A row that is saved with a key that is not there. -/
theorem Kept.insert (h : Kept key rows) (hid : m.shared.id ∉ rows.map fun r => r.shared.id)
    (hnamed : m.shared.id ≠ []) (hnew : rowsUnder key (key m.row) rows = []) :
    Puts key rows m (rows ++ [m]) where
  kept := by
    have hkey : key m.row ∉ rows.map fun r => key r.row := by
      intro hmem
      obtain ⟨r, hr, heq⟩ := List.mem_map.mp hmem
      have hunder := mem_rowsUnder.mpr ⟨hr, heq⟩
      rw [hnew] at hunder
      simp at hunder
    constructor
    · rw [List.map_append]
      exact h.ids.append (List.nodup_singleton _) (List.disjoint_singleton.mpr hid)
    · intro r hr
      rcases List.mem_append.mp hr with hr | hr
      · exact h.named r hr
      · rw [List.mem_singleton.mp hr]
        exact hnamed
    · rw [List.map_append]
      exact h.keys.append (List.nodup_singleton _) (List.disjoint_singleton.mpr hkey)
  self := by
    have hsplit : rowsUnder key (key m.row) (rows ++ [m]) =
        rowsUnder key (key m.row) rows ++ rowsUnder key (key m.row) [m] := List.filter_append ..
    rw [hsplit, hnew]
    simp [rowsUnder]
  others k hk := by
    have hne : key m.row ≠ k := fun heq => hk heq.symm
    have hnone : rowsUnder key k [m] = [] := by simp [rowsUnder, hne]
    have hsplit : rowsUnder key k (rows ++ [m]) = rowsUnder key k rows ++ rowsUnder key k [m] :=
      List.filter_append ..
    rw [hsplit, hnone, List.append_nil]

/-- A row that is saved again under its identifier and its key. -/
theorem Kept.update (h : Kept key rows) (hold : old ∈ rows) (hid : m.shared.id = old.shared.id)
    (hkey : key m.row = key old.row) : Puts key rows m (updateById m rows) := by
  -- only the old row has the identifier
  have honly : ∀ r ∈ rows, r.shared.id = m.shared.id → r = old := fun r hr heq =>
    List.inj_on_of_nodup_map h.ids hr hold (heq.trans hid)
  have hkeys : (updateById m rows).map (fun r => key r.row) = rows.map fun r => key r.row := by
    unfold updateById
    rw [List.map_map]
    apply List.map_congr_left
    intro r hr
    show key (if r.shared.id = m.shared.id then m else r).row = key r.row
    split_ifs with heq
    · rw [honly r hr heq, hkey]
    · rfl
  have hnew : m ∈ updateById m rows := List.mem_map.mpr ⟨old, hold, if_pos hid.symm⟩
  have hkept : Kept key (updateById m rows) := by
    constructor
    · rw [map_id_updateById]
      exact h.ids
    · intro r hr
      rcases mem_updateById hr with rfl | ⟨hr, -⟩
      · rw [hid]
        exact h.named old hold
      · exact h.named r hr
    · rw [hkeys]
      exact h.keys
  refine ⟨hkept, hkept.rowsUnder_eq hnew, fun k hk => ?_⟩
  -- under another key nothing is found that has changed
  unfold rowsUnder updateById
  rw [List.filter_map]
  have hsame : rows.filter ((fun r => decide (key r.row = k)) ∘
      fun r => if r.shared.id = m.shared.id then m else r) =
        rows.filter fun r => key r.row = k := by
    apply List.filter_congr
    intro r hr
    show decide (key (if r.shared.id = m.shared.id then m else r).row = k) = _
    split_ifs with heq
    · rw [honly r hr heq, hkey]
    · rfl
  rw [hsame]
  refine (List.map_congr_left (g := id) fun r hr => ?_).trans (List.map_id _)
  have hr := List.mem_filter.mp hr
  simp only [decide_eq_true_eq] at hr
  apply if_neg
  intro heq
  rw [honly r hr.1 heq, ← hkey] at hr
  exact hk hr.2.symm

/-! ## What is saved -/

/-- A row that is not found is saved. -/
theorem puts_insertRow (h : Kept key rows) (huuid : ∀ n k, env.uuid n k ≠ [])
    (hnew : rowsUnder key (key m.row) rows = []) (hsave : insertRow env n m rows = .ok rows') :
    ∃ m', m'.row = m.row ∧ Puts key rows m' rows' := by
  unfold insertRow at hsave
  dsimp only at hsave
  split_ifs at hsave with hid
  obtain rfl := Outcome.ok.inj hsave
  have hnamed : (beforeSave env n 0 m.shared).id ≠ [] := by
    unfold beforeSave
    split_ifs with hempty
    · exact huuid n 0
    · exact hempty
  exact ⟨⟨beforeSave env n 0 m.shared, m.row⟩, rfl, h.insert hid hnamed hnew⟩

/-- A row that is found is saved again. -/
theorem puts_putRow (h : Kept key rows) (hold : old ∈ rows) (hid : m.shared.id = old.shared.id)
    (hkey : key m.row = key old.row) (hsave : putRow env n m rows = .ok rows') :
    ∃ m', m'.row = m.row ∧ Puts key rows m' rows' := by
  unfold putRow at hsave
  rw [if_neg (hid ▸ h.named old hold)] at hsave
  obtain rfl := Outcome.ok.inj hsave
  exact ⟨⟨beforeUpdate env n m.shared, m.row⟩, rfl, h.update hold hid hkey⟩

/-- What is found under a key is all that is there. -/
theorem rowsUnder_of_fetchOne {k : κ} {found : Option (Saved ρ)} {e : WalletError}
    (h : fetchOne e (rowsUnder key k rows) = .ok found) : rowsUnder key k rows = found.toList := by
  generalize rowsUnder key k rows = under at h
  rcases under with _ | ⟨r, _ | ⟨r', under⟩⟩
  · cases h
    rfl
  · cases h
    rfl
  · cases h

end Tables

end Cashbox.Wallets
