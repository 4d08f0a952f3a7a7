import Mathlib.Data.List.Induction
import Mathlib.Data.List.Nodup

/-!
# Tables that take in items

An item is taken in under a key: the rows with the key are updated, and where there is none a
row is added at the end. A table that takes in a list of items in this way has, under each key,
what the last item with the key makes of it.
-/

namespace Cashbox.Lib

/-- How a table with rows `ρ` takes in items `ι` under keys `κ`. -/
structure Upsert (ρ κ ι : Type) where
  key : ρ → κ
  keyOf : ι → κ
  update : ι → ρ → ρ
  new : ι → ρ
  key_update : ∀ i r, key (update i r) = key r
  key_new : ∀ i, key (new i) = keyOf i

namespace Upsert

variable {ρ κ ι : Type} [DecidableEq κ] (u : Upsert ρ κ ι)

/-! ## One item -/

/-- The rows with a key. -/
def under (k : κ) (table : List ρ) : List ρ := table.filter fun r => u.key r = k

/-- What becomes of a row. -/
def put (i : ι) (r : ρ) : ρ := if u.key r = u.keyOf i then u.update i r else r

def step (table : List ρ) (i : ι) : List ρ :=
  if u.keyOf i ∈ table.map u.key then table.map (u.put i) else table ++ [u.new i]

section Step

variable {u} {table : List ρ} {i : ι} {k : κ}

theorem mem_under {r : ρ} : r ∈ u.under k table ↔ r ∈ table ∧ u.key r = k := by
  simp [under]

theorem under_eq_nil_iff : u.under k table = [] ↔ k ∉ table.map u.key := by
  simp [under, List.filter_eq_nil_iff]

theorem key_put (i : ι) (r : ρ) : u.key (u.put i r) = u.key r := by
  unfold put
  split
  · exact u.key_update i r
  · rfl

theorem step_of_mem (h : u.keyOf i ∈ table.map u.key) : u.step table i = table.map (u.put i) :=
  if_pos h

theorem step_of_not_mem (h : u.keyOf i ∉ table.map u.key) : u.step table i = table ++ [u.new i] :=
  if_neg h

theorem length_under_le_one (h : (table.map u.key).Nodup) : (u.under k table).length ≤ 1 := by
  have hsub : ((u.under k table).map u.key).Nodup := h.sublist (List.filter_sublist.map u.key)
  rcases hunder : u.under k table with _ | ⟨r, _ | ⟨r', rows⟩⟩
  · exact Nat.zero_le 1
  · exact Nat.le_refl 1
  · have hr : u.key r = k := (mem_under.mp (hunder ▸ List.mem_cons_self)).2
    have hr' : u.key r' = k :=
      (mem_under.mp (hunder ▸ List.mem_cons_of_mem r List.mem_cons_self)).2
    rw [hunder] at hsub
    simp [hr, hr'] at hsub

/-- Keys are not changed. -/
theorem under_map {f : ρ → ρ} (hf : ∀ r, u.key (f r) = u.key r) (k : κ) (table : List ρ) :
    u.under k (table.map f) = (u.under k table).map f := by
  unfold under
  rw [List.filter_map]
  congr 1
  refine List.filter_congr fun r _ => ?_
  simp [hf]

/-- The rows with the key of the item are updated, or there is one now. -/
theorem under_step_self : u.under (u.keyOf i) (u.step table i) =
    if u.under (u.keyOf i) table = [] then [u.new i]
    else (u.under (u.keyOf i) table).map (u.update i) := by
  by_cases h : u.keyOf i ∈ table.map u.key
  · rw [if_neg fun hnil => under_eq_nil_iff.mp hnil h, step_of_mem h, under_map (key_put i)]
    refine List.map_congr_left fun r hr => ?_
    exact if_pos (mem_under.mp hr).2
  · have hnil := under_eq_nil_iff.mpr h
    rw [if_pos hnil, step_of_not_mem h]
    unfold under at hnil ⊢
    rw [List.filter_append, hnil]
    simp [u.key_new]

/-- Other rows stay. -/
theorem under_step_of_ne (hne : u.keyOf i ≠ k) :
    u.under k (u.step table i) = u.under k table := by
  by_cases h : u.keyOf i ∈ table.map u.key
  · rw [step_of_mem h, under_map (key_put i)]
    refine (List.map_congr_left fun r hr => ?_).trans (List.map_id _)
    refine if_neg fun heq => hne ?_
    rw [← heq, (mem_under.mp hr).2]
  · rw [step_of_not_mem h]
    unfold under
    rw [List.filter_append]
    simp [u.key_new, hne]

/-- A key that is there once at most stays so. -/
theorem length_under_step_le_one_iff :
    (u.under k (u.step table i)).length ≤ 1 ↔ (u.under k table).length ≤ 1 := by
  by_cases h : u.keyOf i = k
  · subst h
    rw [under_step_self]
    split
    · rename_i hnil
      simp [hnil]
    · rw [List.length_map]
  · rw [under_step_of_ne h]

theorem forall_mem_step {p : ρ → Prop} (htable : ∀ r ∈ table, p r)
    (hupdate : ∀ r, u.key r = u.keyOf i → p r → p (u.update i r)) (hnew : p (u.new i)) :
    ∀ r ∈ u.step table i, p r := by
  intro r hr
  by_cases h : u.keyOf i ∈ table.map u.key
  · rw [step_of_mem h] at hr
    obtain ⟨r', hr', rfl⟩ := List.mem_map.mp hr
    unfold put
    split
    · rename_i hkey
      exact hupdate r' hkey (htable r' hr')
    · exact htable r' hr'
  · rw [step_of_not_mem h, List.mem_append, List.mem_singleton] at hr
    rcases hr with hr | rfl
    · exact htable r hr
    · exact hnew

theorem map_key_step : (u.step table i).map u.key =
    if u.keyOf i ∈ table.map u.key then table.map u.key else table.map u.key ++ [u.keyOf i] := by
  by_cases h : u.keyOf i ∈ table.map u.key
  · rw [if_pos h, step_of_mem h, List.map_map]
    exact List.map_congr_left fun r _ => key_put i r
  · rw [if_neg h, step_of_not_mem h, List.map_append, List.map_singleton, u.key_new]

theorem mem_map_key_step :
    k ∈ (u.step table i).map u.key ↔ k ∈ table.map u.key ∨ k = u.keyOf i := by
  rw [map_key_step]
  split
  · rename_i h
    exact ⟨.inl, fun hk => hk.elim id fun hk => hk ▸ h⟩
  · simp

/-- A new key is new. -/
theorem nodup_map_key_step (h : (table.map u.key).Nodup) :
    ((u.step table i).map u.key).Nodup := by
  rw [map_key_step]
  split
  · exact h
  · rename_i hnew
    refine List.nodup_append.mpr ⟨h, List.nodup_singleton _, ?_⟩
    intro k hk k' hk' heq
    rw [List.mem_singleton] at hk'
    subst heq hk'
    exact hnew hk

end Step

/-! ## All items -/

def all (items : List ι) (table : List ρ) : List ρ := items.foldl u.step table

/-- What becomes of a row. -/
def putAll (items : List ι) (r : ρ) : ρ := items.foldl (fun r i => u.put i r) r

section All

variable {u} {items : List ι} {table : List ρ} {i : ι} {k : κ}

@[simp] theorem all_nil : u.all [] table = table := rfl

theorem all_concat : u.all (items ++ [i]) table = u.step (u.all items table) i :=
  List.foldl_append

/-- What holds of the rows and is not lost by an update holds of all rows. -/
theorem forall_mem_all {p : ρ → Prop} (htable : ∀ r ∈ table, p r)
    (hupdate : ∀ i ∈ items, ∀ r, u.key r = u.keyOf i → p r → p (u.update i r))
    (hnew : ∀ i ∈ items, p (u.new i)) : ∀ r ∈ u.all items table, p r := by
  induction items using List.reverseRecOn with
  | nil => exact htable
  | append_singleton items i ih =>
    rw [all_concat]
    have hi : i ∈ items ++ [i] := List.mem_append_right _ (List.mem_singleton_self i)
    exact forall_mem_step
      (ih (fun j hj => hupdate j (List.mem_append_left _ hj))
        fun j hj => hnew j (List.mem_append_left _ hj)) (hupdate i hi) (hnew i hi)

theorem mem_map_key_all :
    k ∈ (u.all items table).map u.key ↔ k ∈ table.map u.key ∨ k ∈ items.map u.keyOf := by
  induction items using List.reverseRecOn with
  | nil => simp
  | append_singleton items i ih => rw [all_concat, mem_map_key_step, ih]; simp [or_assoc]

theorem nodup_map_key_all (h : (table.map u.key).Nodup) :
    ((u.all items table).map u.key).Nodup := by
  induction items using List.reverseRecOn with
  | nil => exact h
  | append_singleton items i ih =>
    rw [all_concat]
    exact nodup_map_key_step ih

theorem length_under_all_le_one_iff :
    (u.under k (u.all items table)).length ≤ 1 ↔ (u.under k table).length ≤ 1 := by
  induction items using List.reverseRecOn with
  | nil => rfl
  | append_singleton items i ih => rw [all_concat, length_under_step_le_one_iff, ih]

/-- Rows with other keys stay. -/
theorem under_all_of_not_mem (h : k ∉ items.map u.keyOf) :
    u.under k (u.all items table) = u.under k table := by
  induction items using List.reverseRecOn with
  | nil => rfl
  | append_singleton items i ih =>
    rw [List.map_append, List.mem_append, not_or] at h
    rw [all_concat, under_step_of_ne fun heq => h.2 (by simp [heq]), ih h.1]

theorem mem_all_of_not_mem {r : ρ} (hr : r ∈ table) (h : u.key r ∉ items.map u.keyOf) :
    r ∈ u.all items table := by
  have hunder : r ∈ u.under (u.key r) table := mem_under.mpr ⟨hr, rfl⟩
  rw [← under_all_of_not_mem h] at hunder
  exact (mem_under.mp hunder).1

/-- Under a key only the items with the key count. -/
theorem under_all_eq :
    u.under k (u.all items table) =
      u.under k (u.all (items.filter fun i => u.keyOf i = k) table) := by
  induction items using List.reverseRecOn with
  | nil => rfl
  | append_singleton items i ih =>
    rw [all_concat, List.filter_append]
    by_cases h : u.keyOf i = k
    · subst h
      rw [List.filter_cons_of_pos (by simp), List.filter_nil, all_concat, under_step_self,
        under_step_self, ih]
    · rw [List.filter_cons_of_neg (by simpa using h), List.filter_nil, List.append_nil,
        under_step_of_ne h, ih]

theorem exists_last (hk : k ∈ items.map u.keyOf) :
    ∃ i pre, (items.filter fun i => u.keyOf i = k) = pre ++ [i] := by
  obtain ⟨i, hi, hik⟩ := List.mem_map.mp hk
  have hne : (items.filter fun i => u.keyOf i = k) ≠ [] :=
    List.ne_nil_of_mem (List.mem_filter.mpr ⟨hi, decide_eq_true hik⟩)
  exact ⟨_, _, (List.dropLast_append_getLast hne).symm⟩

/-- The rows with a key are what its last item makes of them. -/
theorem forall_mem_under_all {p : ρ → Prop} {pre : List ι}
    (hlast : (items.filter fun i => u.keyOf i = k) = pre ++ [i])
    (hupdate : ∀ r, u.key r = k → p (u.update i r)) (hnew : p (u.new i)) :
    ∀ r ∈ u.under k (u.all items table), p r := by
  have hi : i ∈ items.filter fun i => u.keyOf i = k := by
    rw [hlast]
    exact List.mem_append_right _ (List.mem_singleton_self i)
  obtain rfl := of_decide_eq_true (List.mem_filter.mp hi).2
  intro r hr
  rw [under_all_eq, hlast, all_concat, under_step_self] at hr
  split at hr
  · rw [List.mem_singleton.mp hr]
    exact hnew
  · obtain ⟨r', hr', rfl⟩ := List.mem_map.mp hr
    exact hupdate r' (mem_under.mp hr').2

/-- A new key that comes once has a new row. -/
theorem under_all_new (hnew : k ∉ table.map u.key)
    (honce : (items.filter fun i => u.keyOf i = k) = [i]) :
    u.under k (u.all items table) = [u.new i] := by
  have hi : i ∈ items.filter fun i => u.keyOf i = k := by
    rw [honce]
    exact List.mem_singleton_self i
  obtain rfl := of_decide_eq_true (List.mem_filter.mp hi).2
  rw [under_all_eq, honce]
  exact under_step_self.trans (if_pos (under_eq_nil_iff.mpr hnew))

/-- A key that was there, or comes again, has rows that are updated by its last item. -/
theorem under_all_update {pre : List ι}
    (hlast : (items.filter fun i => u.keyOf i = k) = pre ++ [i])
    (hold : k ∈ table.map u.key ∨ pre ≠ []) :
    ∃ rows : List ρ, rows ≠ [] ∧ (∀ r ∈ rows, u.key r = k) ∧
      u.under k (u.all items table) = rows.map (u.update i) := by
  have hkey : ∀ j ∈ pre ++ [i], u.keyOf j = k := by
    rw [← hlast]
    exact fun j hj => of_decide_eq_true (List.mem_filter.mp hj).2
  obtain rfl := hkey i (List.mem_append_right _ (List.mem_singleton_self i))
  have hne : u.under (u.keyOf i) (u.all pre table) ≠ [] := by
    rw [Ne, under_eq_nil_iff, not_not, mem_map_key_all]
    refine hold.imp_right fun hpre => ?_
    obtain ⟨j, hj⟩ := List.exists_mem_of_ne_nil pre hpre
    exact List.mem_map.mpr ⟨j, hj, hkey j (List.mem_append_left _ hj)⟩
  refine ⟨_, hne, fun r hr => (mem_under.mp hr).2, ?_⟩
  rw [under_all_eq, hlast, all_concat, under_step_self, if_neg hne]

/-! ### Items that change rows only -/

theorem putAll_concat {r : ρ} : u.putAll (items ++ [i]) r = u.put i (u.putAll items r) :=
  List.foldl_append

/-- What no update changes stays. -/
theorem putAll_invariant {β : Type} {f : ρ → β} (hf : ∀ i r, f (u.update i r) = f r)
    (items : List ι) (r : ρ) : f (u.putAll items r) = f r := by
  induction items using List.reverseRecOn with
  | nil => rfl
  | append_singleton items i ih =>
    rw [putAll_concat, put]
    split
    · rw [hf, ih]
    · exact ih

theorem key_putAll (items : List ι) (r : ρ) : u.key (u.putAll items r) = u.key r :=
  putAll_invariant u.key_update items r

/-- Where all keys are there already, no row is added. -/
theorem all_eq_map (h : ∀ i ∈ items, u.keyOf i ∈ table.map u.key) :
    u.all items table = table.map (u.putAll items) := by
  induction items using List.reverseRecOn with
  | nil => exact (List.map_id table).symm
  | append_singleton items i ih =>
    have hitems := ih fun j hj => h j (List.mem_append_left _ hj)
    have hi : u.keyOf i ∈ (u.all items table).map u.key :=
      mem_map_key_all.mpr (.inl (h i (List.mem_append_right _ (List.mem_singleton_self i))))
    rw [all_concat, step_of_mem hi, hitems, List.map_map]
    exact List.map_congr_left fun r _ => putAll_concat.symm

theorem putAll_of_not_mem {r : ρ} (h : u.key r ∉ items.map u.keyOf) : u.putAll items r = r := by
  induction items using List.reverseRecOn with
  | nil => rfl
  | append_singleton items i ih =>
    rw [List.map_append, List.mem_append, not_or] at h
    rw [putAll_concat, ih h.1]
    exact if_neg fun heq => h.2 (by simp [heq])

/-- The last item with the key of a row decides. -/
theorem exists_putAll_eq {r : ρ} (hmem : u.key r ∈ items.map u.keyOf) :
    ∃ i pre before, (items.filter fun j => u.keyOf j = u.key r) = pre ++ [i] ∧
      u.putAll items r = u.update i (u.putAll before r) := by
  induction items using List.reverseRecOn with
  | nil => cases hmem
  | append_singleton items i ih =>
    rw [putAll_concat, List.filter_append]
    by_cases h : u.keyOf i = u.key r
    · refine ⟨i, items.filter fun j => u.keyOf j = u.key r, items, ?_, ?_⟩
      · rw [List.filter_cons_of_pos (by simpa using h), List.filter_nil]
      · exact if_pos ((key_putAll items r).trans h.symm)
    · have hmem' : u.key r ∈ items.map u.keyOf := by
        rw [List.map_append, List.mem_append, List.map_singleton, List.mem_singleton] at hmem
        exact hmem.resolve_right fun heq => h heq.symm
      obtain ⟨j, pre, before, hlast, hupdate⟩ := ih hmem'
      refine ⟨j, pre, before, ?_, ?_⟩
      · rw [List.filter_cons_of_neg (by simpa using h), List.filter_nil, List.append_nil, hlast]
      · rw [← hupdate]
        exact if_neg fun heq => h (heq.symm.trans (key_putAll items r))

end All

end Upsert

end Cashbox.Lib
