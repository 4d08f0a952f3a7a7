import Mathlib.Data.List.Induction
import Mathlib.Data.List.Nodup

/-!
# Tables with a unique column

A table is the list of its rows in the order of insertion. An insert that would
repeat a value of the unique column fails and leaves the table as it is, so the
first row with a value is the one that stays.
-/

namespace Cashbox.Lib

variable {ρ κ : Type} [DecidableEq κ]

/-- `INSERT` into a table whose column `key` is `UNIQUE`. -/
def insertUnique (key : ρ → κ) (row : ρ) (table : List ρ) : List ρ :=
  if key row ∈ table.map key then table else table ++ [row]

section Insert

variable {key : ρ → κ} {row x : ρ} {table : List ρ}

theorem insertUnique_of_mem (h : key row ∈ table.map key) :
    insertUnique key row table = table :=
  if_pos h

theorem insertUnique_of_not_mem (h : key row ∉ table.map key) :
    insertUnique key row table = table ++ [row] :=
  if_neg h

/-- The rows after an insert: the old ones, and the new one if its key is new. -/
theorem mem_insertUnique :
    x ∈ insertUnique key row table ↔ x ∈ table ∨ (x = row ∧ key row ∉ table.map key) := by
  by_cases h : key row ∈ table.map key
  · rw [insertUnique_of_mem h]
    simp [h]
  · rw [insertUnique_of_not_mem h, List.mem_append, List.mem_singleton]
    simp [h]

/-- After an insert the table has a row with the key. -/
theorem key_mem_insertUnique : key row ∈ (insertUnique key row table).map key := by
  by_cases h : key row ∈ table.map key
  · rwa [insertUnique_of_mem h]
  · rw [insertUnique_of_not_mem h, List.map_append]
    exact List.mem_append_right _ List.mem_cons_self

/-- Inserts keep the column unique. -/
theorem insertUnique_nodup (h : (table.map key).Nodup) :
    ((insertUnique key row table).map key).Nodup := by
  by_cases hk : key row ∈ table.map key
  · rwa [insertUnique_of_mem hk]
  · rw [insertUnique_of_not_mem hk, List.map_append]
    exact List.Nodup.append h (List.nodup_singleton _) (by simpa using hk)

/-- In a table with a key, at most one row has a value of it. -/
theorem filter_eq_find?_toList (h : (table.map key).Nodup) (k : κ) :
    table.filter (fun r => key r = k) = (table.find? fun r => key r = k).toList := by
  induction table with
  | nil => rfl
  | cons r table ih =>
    rw [List.map_cons, List.nodup_cons] at h
    obtain ⟨hnew, hnodup⟩ := h
    by_cases hr : key r = k
    · have hrest : table.filter (fun r => key r = k) = [] := by
        rw [List.filter_eq_nil_iff]
        intro r' hr' hk
        exact hnew (hr ▸ List.mem_map.mpr ⟨r', hr', of_decide_eq_true hk⟩)
      rw [List.filter_cons_of_pos (by simpa using hr), hrest,
        List.find?_cons_of_pos (by simpa using hr)]
      rfl
    · rw [List.filter_cons_of_neg (by simpa using hr), ih hnodup,
        List.find?_cons_of_neg (by simpa using hr)]

/-- A row is found under its key, and no other row is. -/
theorem filter_key (h : (table.map key).Nodup) (hrow : row ∈ table) :
    (table.filter fun r => key r = key row) = [row] := by
  have hmem : row ∈ table.filter fun r => key r = key row :=
    List.mem_filter.mpr ⟨hrow, decide_eq_true rfl⟩
  rw [filter_eq_find?_toList h] at hmem ⊢
  cases hfind : table.find? fun r => key r = key row with
  | none =>
    rw [hfind] at hmem
    cases hmem
  | some r =>
    rw [hfind] at hmem
    rw [List.mem_singleton.mp hmem]
    rfl

theorem head?_filter_key (h : (table.map key).Nodup) (hrow : row ∈ table) :
    (table.filter fun r => key r = key row).head? = some row := by
  rw [filter_key h hrow]
  rfl

end Insert

/-! ## A batch of inserts -/

/-- The inserts of `rows`, in order. -/
def insertAll (key : ρ → κ) (rows table : List ρ) : List ρ :=
  rows.foldl (fun t row => insertUnique key row t) table

section Batch

variable {key : ρ → κ} {x : ρ} {rows table : List ρ}

@[simp] theorem insertAll_nil : insertAll key [] table = table := rfl

@[simp] theorem insertAll_cons {row : ρ} :
    insertAll key (row :: rows) table = insertAll key rows (insertUnique key row table) := rfl

theorem insertAll_nodup (h : (table.map key).Nodup) :
    ((insertAll key rows table).map key).Nodup := by
  induction rows generalizing table with
  | nil => exact h
  | cons row rows ih => exact ih (insertUnique_nodup h)

theorem insertAll_append {rows' : List ρ} :
    insertAll key (rows ++ rows') table = insertAll key rows' (insertAll key rows table) :=
  List.foldl_append

/-- Under each key the table has what it had; where it had nothing, the first new row. -/
theorem filter_insertAll (k : κ) :
    (insertAll key rows table).filter (fun r => key r = k) =
      if k ∈ table.map key then table.filter (fun r => key r = k)
      else ((rows.filter (fun r => key r = k)).head?).toList := by
  have hnone : ∀ t : List ρ, k ∉ t.map key → t.filter (fun r => key r = k) = [] := by
    intro t ht
    rw [List.filter_eq_nil_iff]
    intro r hr hk
    exact ht (List.mem_map.mpr ⟨r, hr, of_decide_eq_true hk⟩)
  induction rows generalizing table with
  | nil =>
    by_cases hk : k ∈ table.map key
    · rw [if_pos hk, insertAll_nil]
    · rw [if_neg hk, insertAll_nil, hnone table hk]
      rfl
  | cons row rows ih =>
    rw [insertAll_cons, ih]
    by_cases hrow : key row ∈ table.map key
    · rw [insertUnique_of_mem hrow]
      by_cases hk : k ∈ table.map key
      · rw [if_pos hk, if_pos hk]
      · have hne : key row ≠ k := fun h => hk (h ▸ hrow)
        rw [if_neg hk, if_neg hk, List.filter_cons_of_neg (by simpa using hne)]
    · rw [insertUnique_of_not_mem hrow, List.map_append, List.filter_append]
      by_cases hk : key row = k
      · -- the row is the first with its key
        subst hk
        have hnew : key row ∈ table.map key ++ [row].map key :=
          List.mem_append_right _ (List.mem_singleton_self _)
        rw [if_pos hnew, if_neg hrow, hnone table hrow, List.filter_cons_of_pos (by simp),
          List.filter_cons_of_pos (by simp)]
        rfl
      · rw [List.filter_cons_of_neg (by simpa using hk),
          List.filter_cons_of_neg (by simpa using hk)]
        simp [Ne.symm hk]

/-- The rows that a batch adds are rows of the batch. -/
theorem exists_insertAll_eq_append :
    ∃ added, insertAll key rows table = table ++ added ∧ ∀ r ∈ added, r ∈ rows := by
  induction rows generalizing table with
  | nil => exact ⟨[], (List.append_nil _).symm, fun r hr => hr⟩
  | cons row rows ih =>
    by_cases hrow : key row ∈ table.map key
    · obtain ⟨added, hadded, hmem⟩ := @ih table
      refine ⟨added, ?_, fun r hr => List.mem_cons_of_mem _ (hmem r hr)⟩
      rw [insertAll_cons, insertUnique_of_mem hrow, hadded]
    · obtain ⟨added, hadded, hmem⟩ := @ih (table ++ [row])
      refine ⟨row :: added, ?_, ?_⟩
      · rw [insertAll_cons, insertUnique_of_not_mem hrow, hadded, List.append_assoc]
        rfl
      · intro r hr
        rcases List.mem_cons.mp hr with rfl | hr
        · exact List.mem_cons_self
        · exact List.mem_cons_of_mem _ (hmem r hr)

/-- A batch leaves the rows that the table has. -/
theorem mem_insertAll_of_mem {row : ρ} (h : row ∈ table) : row ∈ insertAll key rows table := by
  obtain ⟨added, hadded, _⟩ : ∃ added, insertAll key rows table = table ++ added ∧
      ∀ r ∈ added, r ∈ rows := exists_insertAll_eq_append
  rw [hadded]
  exact List.mem_append_left _ h

/-- Of rows that share one key, the first is inserted, unless the key is taken. -/
theorem insertAll_of_key_eq {row : ρ} (hkey : ∀ r ∈ rows, key r = key row) :
    insertAll key (row :: rows) table = insertUnique key row table := by
  rw [insertAll_cons]
  -- from the first insert on the key is taken
  have hmem : key row ∈ (insertUnique key row table).map key := key_mem_insertUnique
  generalize insertUnique key row table = t at hmem
  induction rows generalizing t with
  | nil => rfl
  | cons r rows ih =>
    have hr : key r = key row := hkey r List.mem_cons_self
    rw [insertAll_cons, insertUnique_of_mem (hr ▸ hmem)]
    exact ih (fun r' hr' => hkey r' (List.mem_cons_of_mem _ hr')) t hmem

/-- A batch whose rows share the key `k` adds its first row, unless `k` is taken. -/
theorem mem_insertAll_iff {k : κ} (hkey : ∀ r ∈ rows, key r = k) :
    x ∈ insertAll key rows table ↔
      x ∈ table ∨ (rows.head? = some x ∧ k ∉ table.map key) := by
  cases rows with
  | nil => simp
  | cons row rows =>
    have hrow : key row = k := hkey row List.mem_cons_self
    rw [insertAll_of_key_eq fun r hr => (hkey r (List.mem_cons_of_mem _ hr)).trans hrow.symm,
      mem_insertUnique, hrow]
    simp [eq_comm]

end Batch

/-! ## Batches under one key each -/

section Batches

variable {τ : Type}

/-- The table after one batch for each of `ts`, from the empty table. -/
def insertBatches (key : ρ → κ) (rows : τ → List ρ) (ts : List τ) : List ρ :=
  ts.foldl (fun table t => insertAll key (rows t) table) []

variable {key : ρ → κ} {rows : τ → List ρ}

theorem insertBatches_concat (ts : List τ) (t : τ) :
    insertBatches key rows (ts ++ [t]) = insertAll key (rows t) (insertBatches key rows ts) := by
  simp [insertBatches]

theorem insertBatches_nodup (ts : List τ) : ((insertBatches key rows ts).map key).Nodup := by
  induction ts using List.reverseRecOn with
  | nil => exact List.nodup_nil
  | append_singleton ts t ih =>
    rw [insertBatches_concat]
    exact insertAll_nodup ih

/-- When the rows of `t` carry the key `name t`, and `name` tells the members of
`ts` apart, the table holds the first row of each batch, in whatever order and
however often the batches came. -/
theorem mem_insertBatches {name : τ → κ} (hkey : ∀ t, ∀ r ∈ rows t, key r = name t)
    {ts : List τ} (hinj : ∀ t ∈ ts, ∀ t' ∈ ts, name t = name t' → t = t') {x : ρ} :
    x ∈ insertBatches key rows ts ↔ ∃ t ∈ ts, (rows t).head? = some x := by
  induction ts using List.reverseRecOn generalizing x with
  | nil => simp [insertBatches]
  | append_singleton ts t ih =>
    have hold : ∀ u ∈ ts, u ∈ ts ++ [t] := fun u hu => List.mem_append_left _ hu
    have ih : ∀ {y : ρ}, y ∈ insertBatches key rows ts ↔
        ∃ u ∈ ts, (rows u).head? = some y :=
      ih fun u hu u' hu' => hinj u (hold u hu) u' (hold u' hu')
    rw [insertBatches_concat, mem_insertAll_iff (hkey t), ih]
    constructor
    · rintro (⟨u, hu, hrow⟩ | ⟨hrow, _⟩)
      · exact ⟨u, hold u hu, hrow⟩
      · exact ⟨t, List.mem_append_right _ List.mem_cons_self, hrow⟩
    · rintro ⟨u, hu, hrow⟩
      rcases List.mem_append.mp hu with hu | hu
      · exact .inl ⟨u, hu, hrow⟩
      · obtain rfl := List.mem_singleton.mp hu
        by_cases htaken : name u ∈ (insertBatches key rows ts).map key
        · -- a batch with this name came before, so it was this one
          obtain ⟨y, hy, hyk⟩ := List.mem_map.mp htaken
          obtain ⟨u', hu', hrow'⟩ := ih.mp hy
          have hname : name u' = name u :=
            (hkey u' y (List.mem_of_head? hrow')).symm.trans hyk
          obtain rfl := hinj u' (hold u' hu') u (List.mem_append_right _ List.mem_cons_self) hname
          exact .inl ⟨u', hu', hrow⟩
        · exact .inr ⟨hrow, htaken⟩

end Batches

/-! ## Hash maps filled from a table -/

section HashMaps

variable {ν : Type}

/-- `HashMap::insert`, the map being the list of its entries: an entry with the
key is replaced. The order of the list means nothing. -/
def hashMapInsert (m : List (κ × ν)) (entry : κ × ν) : List (κ × ν) :=
  m.filter (fun e => e.1 ≠ entry.1) ++ [entry]

/-- The map after the inserts of `entries`, in order. -/
def hashMapOf (entries : List (κ × ν)) : List (κ × ν) := entries.foldl hashMapInsert []

theorem hashMapOf_concat (entries : List (κ × ν)) (e : κ × ν) :
    hashMapOf (entries ++ [e]) = (hashMapOf entries).filter (fun e' => e'.1 ≠ e.1) ++ [e] := by
  rw [hashMapOf, List.foldl_append]
  rfl

theorem hashMapOf_nodup (entries : List (κ × ν)) : ((hashMapOf entries).map Prod.fst).Nodup := by
  induction entries using List.reverseRecOn with
  | nil => exact List.nodup_nil
  | append_singleton entries e ih =>
    rw [hashMapOf_concat, List.map_append, List.map_singleton, List.nodup_append]
    refine ⟨ih.sublist (List.filter_sublist.map _), List.nodup_singleton _, ?_⟩
    intro k hk k' hk'
    obtain rfl := List.mem_singleton.mp hk'
    obtain ⟨e', he', rfl⟩ := List.mem_map.mp hk
    simpa using (List.mem_filter.mp he').2

/-- Where entries with one key agree, the map has every entry. -/
theorem mem_hashMapOf {entries : List (κ × ν)}
    (h : ∀ k v v', (k, v) ∈ entries → (k, v') ∈ entries → v = v') {x : κ × ν} :
    x ∈ hashMapOf entries ↔ x ∈ entries := by
  induction entries using List.reverseRecOn with
  | nil => rfl
  | append_singleton entries e ih =>
    have hold := ih fun k v v' hv hv' => h k v v' (List.mem_append_left _ hv)
      (List.mem_append_left _ hv')
    rw [hashMapOf_concat, List.mem_append, List.mem_append, List.mem_filter, hold,
      List.mem_singleton]
    constructor
    · rintro (⟨hx, _⟩ | hx)
      · exact .inl hx
      · exact .inr hx
    · rintro (hx | hx)
      · by_cases hkey : x.1 = e.1
        · -- an entry that is replaced is replaced by itself
          have hvalue := h x.1 x.2 e.2 (List.mem_append_left _ hx)
            (List.mem_append_right _ (by rw [hkey]; exact List.mem_singleton_self e))
          exact .inr (Prod.ext hkey hvalue)
        · exact .inl ⟨hx, by simpa using hkey⟩
      · exact .inr hx

/-- The map has no other entries than those inserted. -/
theorem hashMapOf_sublist (entries : List (κ × ν)) : (hashMapOf entries).Sublist entries := by
  induction entries using List.reverseRecOn with
  | nil => exact List.Sublist.refl _
  | append_singleton entries e ih =>
    rw [hashMapOf_concat]
    exact (List.filter_sublist.trans ih).append (List.Sublist.refl [e])

/-- Each key that was inserted is in the map. -/
theorem exists_mem_hashMapOf {entries : List (κ × ν)} {x : κ × ν} (hx : x ∈ entries) :
    ∃ v, (x.1, v) ∈ hashMapOf entries := by
  induction entries using List.reverseRecOn with
  | nil => cases hx
  | append_singleton entries e ih =>
    rw [hashMapOf_concat]
    by_cases hkey : x.1 = e.1
    · exact ⟨e.2, List.mem_append_right _ (by rw [hkey]; exact List.mem_singleton_self e)⟩
    · have hold : x ∈ entries := by
        rcases List.mem_append.mp hx with hold | hlast
        · exact hold
        · exact absurd (congrArg Prod.fst (List.mem_singleton.mp hlast)) hkey
      obtain ⟨v, hv⟩ := ih hold
      exact ⟨v, List.mem_append_left _ (List.mem_filter.mpr ⟨hv, by simpa using hkey⟩)⟩

/-- A search by a key that no two values share finds the value with the key. -/
theorem find?_eq_some_iff_of_nodup {as : List ν} {key : ν → κ} (h : (as.map key).Nodup) {k : κ}
    {a : ν} : (as.find? fun x => key x = k) = some a ↔ a ∈ as ∧ key a = k := by
  constructor
  · intro hfind
    exact ⟨List.mem_of_find?_eq_some hfind, by simpa using List.find?_some hfind⟩
  · rintro ⟨hmem, rfl⟩
    rcases hfind : as.find? fun x => key x = key a with _ | b
    · have hnone := List.find?_eq_none.mp hfind a hmem
      simp at hnone
    · have hkey : key b = key a := by simpa using List.find?_some hfind
      rw [List.inj_on_of_nodup_map h (List.mem_of_find?_eq_some hfind) hmem hkey]

/-- Entries with different keys fill the map as they are. -/
theorem hashMapOf_of_nodup {entries : List (κ × ν)} (h : (entries.map Prod.fst).Nodup) :
    hashMapOf entries = entries := by
  induction entries using List.reverseRecOn with
  | nil => rfl
  | append_singleton entries e ih =>
    rw [List.map_append, List.map_singleton, List.nodup_append] at h
    obtain ⟨hnodup, _, hdisj⟩ := h
    have hkeep : entries.filter (fun e' => e'.1 ≠ e.1) = entries := by
      rw [List.filter_eq_self]
      intro e' he'
      have hne := hdisj e'.1 (List.mem_map_of_mem he') e.1 List.mem_cons_self
      simpa using hne
    rw [hashMapOf_concat, ih hnodup, hkeep]

/-- A lookup in a map without repeated keys finds exactly its entries. -/
theorem lookup_eq_some_iff {m : List (κ × ν)} (h : (m.map Prod.fst).Nodup) {k : κ} {v : ν} :
    m.lookup k = some v ↔ (k, v) ∈ m := by
  induction m with
  | nil => simp
  | cons e m ih =>
    rw [List.map_cons, List.nodup_cons] at h
    obtain ⟨hnew, hnodup⟩ := h
    obtain ⟨k', v'⟩ := e
    by_cases hk : k = k'
    · subst hk
      have hnot : (k, v) ∉ m := fun hm => hnew (List.mem_map.mpr ⟨(k, v), hm, rfl⟩)
      simp [List.lookup_cons_self, hnot, eq_comm]
    · have hbeq : (k == k') = false := by simpa using hk
      rw [List.lookup_cons, hbeq]
      simp [ih hnodup, hk]

theorem lookup_hashMapOf {entries : List (κ × ν)}
    (h : ∀ k v v', (k, v) ∈ entries → (k, v') ∈ entries → v = v') {k : κ} {v : ν} :
    (hashMapOf entries).lookup k = some v ↔ (k, v) ∈ entries := by
  rw [lookup_eq_some_iff (hashMapOf_nodup entries), mem_hashMapOf h]

/-- The map of a loop over `enumerate` that inserts some of the values, from an index on. -/
def enumerated : Nat → List (Option ν) → List (Nat × ν)
  | _, [] => []
  | index, x :: xs => x.toList.map (index, ·) ++ enumerated (index + 1) xs

theorem lookup_enumerated_of_lt (xs : List (Option ν)) {index k : Nat} (h : k < index) :
    (enumerated index xs).lookup k = none := by
  induction xs generalizing index with
  | nil => rfl
  | cons x xs ih =>
    have hrest := ih (Nat.lt_succ_of_lt h)
    have hne : (k == index) = false := by simpa using Nat.ne_of_lt h
    cases x with
    | none => exact hrest
    | some v =>
      show ((index, v) :: enumerated (index + 1) xs).lookup k = none
      rw [List.lookup_cons, hne]
      exact hrest

/-- The entries are the values that are inserted, at their indices. -/
theorem mem_enumerated {xs : List (Option ν)} {index k : Nat} {v : ν} :
    (k, v) ∈ enumerated index xs ↔ ∃ i, k = index + i ∧ xs[i]? = some (some v) := by
  induction xs generalizing index with
  | nil => simp [enumerated]
  | cons x xs ih =>
    rw [enumerated, List.mem_append, ih]
    constructor
    · rintro (h | ⟨i, rfl, hi⟩)
      · cases x with
        | none => cases h
        | some w =>
          obtain ⟨rfl, rfl⟩ := Prod.mk.inj (List.mem_singleton.mp h)
          exact ⟨0, rfl, rfl⟩
      · exact ⟨i + 1, by omega, hi⟩
    · rintro ⟨i, rfl, hi⟩
      cases i with
      | zero =>
        obtain rfl : x = some v := Option.some.inj hi
        exact .inl (List.mem_singleton_self _)
      | succ i => exact .inr ⟨i, by omega, hi⟩

/-- Each index is looked up where it was inserted. -/
theorem lookup_enumerated (xs : List (Option ν)) (index i : Nat) :
    (enumerated index xs).lookup (index + i) = xs[i]?.join := by
  induction xs generalizing index i with
  | nil => rfl
  | cons x xs ih =>
    cases i with
    | zero =>
      cases x with
      | none => exact lookup_enumerated_of_lt xs (Nat.lt_succ_self index)
      | some v =>
        show ((index, v) :: enumerated (index + 1) xs).lookup index = some v
        rw [List.lookup_cons_self]
    | succ i =>
      have hrest := ih (index + 1) i
      rw [Nat.add_right_comm] at hrest
      have hne : (index + i + 1 == index) = false := by
        simp only [beq_eq_false_iff_ne]
        omega
      cases x with
      | none => exact hrest
      | some v =>
        show ((index, v) :: enumerated (index + 1) xs).lookup (index + i + 1) = _
        rw [List.lookup_cons, hne]
        exact hrest

end HashMaps

end Cashbox.Lib
