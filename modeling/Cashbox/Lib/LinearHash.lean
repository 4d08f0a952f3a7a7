import Mathlib.Algebra.Order.Ring.Nat
import Mathlib.Data.List.Basic
import Mathlib.Logic.Function.Basic
import Mathlib.Tactic.Ring

/-!
# Linear hashing

A hash table that grows by one bucket at a time. In level `l` the buckets below `step` are split:
a hash that falls below `step` modulo `2 ^ l` is placed modulo `2 ^ (l + 1)`. When all buckets of
a level are split the next level begins, in which every hash keeps its place. A table is what is in
the buckets, and its entries are the same before and after it grows.
-/

namespace Cashbox.Lib.LinearHash

variable {l step hash : Nat}

/-- The bucket of a hash. -/
def address (l step hash : Nat) : Nat :=
  if hash % 2 ^ l < step then hash % 2 ^ (l + 1) else hash % 2 ^ l

/-- Modulo the double a hash stays, or moves by one level. -/
theorem mod_double (l hash : Nat) :
    hash % 2 ^ (l + 1) = hash % 2 ^ l ∨ hash % 2 ^ (l + 1) = hash % 2 ^ l + 2 ^ l := by
  have hmod : hash % 2 ^ (l + 1) % 2 ^ l = hash % 2 ^ l :=
    Nat.mod_mod_of_dvd hash (pow_dvd_pow 2 (Nat.le_succ l))
  have hlt : hash % 2 ^ (l + 1) < 2 ^ l * 2 := by
    rw [← pow_succ]
    exact Nat.mod_lt _ (Nat.two_pow_pos _)
  have hsplit := Nat.mod_add_div (hash % 2 ^ (l + 1)) (2 ^ l)
  have hdiv : hash % 2 ^ (l + 1) / 2 ^ l < 2 := Nat.div_lt_of_lt_mul hlt
  rw [hmod] at hsplit
  rcases Nat.le_one_iff_eq_zero_or_eq_one.mp (Nat.le_of_lt_succ hdiv) with h | h
  · rw [h, Nat.mul_zero] at hsplit
    exact .inl hsplit.symm
  · rw [h, Nat.mul_one] at hsplit
    exact .inr hsplit.symm

theorem address_lt (l step hash : Nat) : address l step hash < 2 ^ (l + 1) := by
  unfold address
  have hlow := Nat.mod_lt hash (Nat.two_pow_pos l)
  have hpow : 2 ^ (l + 1) = 2 ^ l + 2 ^ l := by ring
  split_ifs
  · exact Nat.mod_lt _ (Nat.two_pow_pos _)
  · omega

/-- A bucket of the lower half has the hashes that fall in it modulo `2 ^ l`. -/
theorem mod_of_address_lt (h : address l step hash < 2 ^ l) :
    hash % 2 ^ l = address l step hash := by
  unfold address at h ⊢
  have hdouble := mod_double l hash
  split_ifs at h ⊢
  · omega
  · rfl

/-- **A split** moves the hashes of one bucket, and of this one only. -/
theorem address_split (l step hash : Nat) :
    address l (step + 1) hash =
      if address l step hash = step then hash % 2 ^ (l + 1) else address l step hash := by
  have hdouble := mod_double l hash
  have hlow := Nat.mod_lt hash (Nat.two_pow_pos l)
  unfold address
  split_ifs <;> omega

/-- Where all buckets are split there is nothing left to move. -/
theorem address_of_le (h : 2 ^ l ≤ step) (hash : Nat) :
    address l step hash = hash % 2 ^ (l + 1) := by
  have hlow := Nat.mod_lt hash (Nat.two_pow_pos l)
  unfold address
  rw [if_pos (by omega)]

/-- **The next level** keeps every hash in its place. -/
theorem address_next (h : 2 ^ l ≤ step) (hash : Nat) :
    address (l + 1) 0 hash = address l step hash := by
  rw [address_of_le h]
  unfold address
  rw [if_neg (Nat.not_lt_zero _)]

/-! ## Tables -/

section Table

variable {α κ : Type} {hashOf : α → Nat} {keyOf : α → κ} {t : Nat → List α} {s s' : α} {n : Nat}

/-- Every entry is in its bucket, and there is one for a key. -/
structure Ok (l step : Nat) (hashOf : α → Nat) (keyOf : α → κ) (t : Nat → List α) : Prop where
  place : ∀ n, ∀ s ∈ t n, address l step (hashOf s) = n
  keys : ∀ n, (t n).Pairwise fun s s' => keyOf s ≠ keyOf s'

/-- The table has this entry. -/
def Has (t : Nat → List α) (s : α) : Prop := ∃ n, s ∈ t n

/-- **An entry** is found in the bucket of its hash. -/
theorem Ok.has_iff (h : Ok l step hashOf keyOf t) :
    Has t s ↔ s ∈ t (address l step (hashOf s)) := by
  constructor
  · rintro ⟨n, hs⟩
    rwa [h.place n s hs]
  · exact fun hs => ⟨_, hs⟩

/-! ### Removing and adding -/

/-- The entries of a key leave a bucket. -/
def remove [DecidableEq κ] (keyOf : α → κ) (n : Nat) (k : κ) (t : Nat → List α) : Nat → List α :=
  Function.update t n ((t n).filter fun s => keyOf s ≠ k)

/-- An entry is added to a bucket. -/
def push (n : Nat) (s : α) (t : Nat → List α) : Nat → List α :=
  Function.update t n (t n ++ [s])

theorem mem_remove [DecidableEq κ] {k : κ} {m : Nat} :
    s ∈ remove keyOf n k t m ↔ s ∈ t m ∧ (m = n → keyOf s ≠ k) := by
  unfold remove
  by_cases hm : m = n
  · subst hm
    simp
  · simp [hm]

theorem Ok.remove [DecidableEq κ] (h : Ok l step hashOf keyOf t) (n : Nat) (k : κ) :
    Ok l step hashOf keyOf (remove keyOf n k t) := by
  constructor
  · intro m s hs
    exact h.place m s (mem_remove.mp hs).1
  · intro m
    unfold LinearHash.remove
    by_cases hm : m = n
    · subst hm
      rw [Function.update_self]
      exact (h.keys m).sublist List.filter_sublist
    · rw [Function.update_of_ne hm]
      exact h.keys m

/-- **Removing** a key from its bucket removes it from the table. -/
theorem has_remove [DecidableEq κ] {k : κ} (hplace : ∀ m, ∀ s ∈ t m, keyOf s = k → m = n) :
    Has (remove keyOf n k t) s ↔ Has t s ∧ keyOf s ≠ k := by
  constructor
  · rintro ⟨m, hs⟩
    obtain ⟨hmem, hne⟩ := mem_remove.mp hs
    exact ⟨⟨m, hmem⟩, fun hk => hne (hplace m s hmem hk) hk⟩
  · rintro ⟨⟨m, hs⟩, hne⟩
    exact ⟨m, mem_remove.mpr ⟨hs, fun _ => hne⟩⟩

theorem mem_push {m : Nat} : s' ∈ push n s t m ↔ s' ∈ t m ∨ m = n ∧ s' = s := by
  unfold push
  by_cases hm : m = n
  · subst hm
    simp
  · simp [hm]

theorem has_push : Has (push n s t) s' ↔ Has t s' ∨ s' = s := by
  constructor
  · rintro ⟨m, hs⟩
    rcases mem_push.mp hs with hs | ⟨_, rfl⟩
    · exact .inl ⟨m, hs⟩
    · exact .inr rfl
  · rintro (⟨m, hs⟩ | rfl)
    · exact ⟨m, mem_push.mpr (.inl hs)⟩
    · exact ⟨n, mem_push.mpr (.inr ⟨rfl, rfl⟩)⟩

/-- **An entry** for a new key is added to the bucket of its hash. -/
theorem Ok.push (h : Ok l step hashOf keyOf t) (hplace : address l step (hashOf s) = n)
    (hnew : ∀ s' ∈ t n, keyOf s' ≠ keyOf s) : Ok l step hashOf keyOf (push n s t) := by
  constructor
  · intro m s' hs'
    rcases mem_push.mp hs' with hs' | ⟨rfl, rfl⟩
    · exact h.place m s' hs'
    · exact hplace
  · intro m
    unfold LinearHash.push
    by_cases hm : m = n
    · subst hm
      rw [Function.update_self]
      exact List.pairwise_append.mpr ⟨h.keys m, List.pairwise_singleton _ _,
        fun s' hs' q hq => List.mem_singleton.mp hq ▸ hnew s' hs'⟩
    · rw [Function.update_of_ne hm]
      exact h.keys m

/-- Where keys are in a list once, the first slot of a key is all that is removed. -/
theorem eraseP_eq_filter [DecidableEq κ] {k : κ} {l : List α}
    (h : l.Pairwise fun s s' => keyOf s ≠ keyOf s') :
    l.eraseP (fun s => keyOf s = k) = l.filter fun s => keyOf s ≠ k := by
  induction l with
  | nil => rfl
  | cons s l ih =>
    obtain ⟨hs, hl⟩ := List.pairwise_cons.mp h
    by_cases hk : keyOf s = k
    · have hrest : l.filter (fun s => keyOf s ≠ k) = l :=
        List.filter_eq_self.mpr fun s' hs' => by simpa [hk] using (hs s' hs').symm
      rw [List.eraseP_cons_of_pos (by simpa using hk), List.filter_cons_of_neg (by simpa using hk),
        hrest]
    · rw [List.eraseP_cons_of_neg (by simpa using hk), List.filter_cons_of_pos (by simpa using hk),
        ih hl]

/-! ### Growing -/

/-- The bucket of the step is split. -/
def split (l step : Nat) (hashOf : α → Nat) (t : Nat → List α) : Nat → List α :=
  Function.update
    (Function.update t (step + 2 ^ l)
      (t (step + 2 ^ l) ++ (t step).filter fun s => hashOf s % 2 ^ (l + 1) ≠ step))
    step ((t step).filter fun s => hashOf s % 2 ^ (l + 1) = step)

/-- The bucket that gets entries has none before. -/
theorem Ok.eq_nil (h : Ok l step hashOf keyOf t) (hstep : step < 2 ^ l) :
    t (step + 2 ^ l) = [] := by
  apply List.eq_nil_iff_forall_not_mem.mpr
  intro s hs
  have hplace := h.place _ s hs
  have hdouble := mod_double l (hashOf s)
  have hlow := Nat.mod_lt (hashOf s) (Nat.two_pow_pos l)
  unfold address at hplace
  split_ifs at hplace <;> omega

theorem mem_split (hstep : step < 2 ^ l) (h : Ok l step hashOf keyOf t) {m : Nat} :
    s ∈ split l step hashOf t m ↔
      (m ≠ step ∧ s ∈ t m) ∨
        (s ∈ t step ∧ m = if hashOf s % 2 ^ (l + 1) = step then step else step + 2 ^ l) := by
  have hpow := Nat.two_pow_pos l
  have hnil := h.eq_nil hstep
  unfold split
  -- the bucket that is split, the new one, or another
  by_cases hm : m = step
  · subst hm
    rw [Function.update_self, List.mem_filter, decide_eq_true_eq]
    constructor
    · rintro ⟨hs, hmod⟩
      exact .inr ⟨hs, by rw [if_pos hmod]⟩
    · rintro (⟨hne, _⟩ | ⟨hs, hm⟩)
      · exact absurd rfl hne
      · refine ⟨hs, ?_⟩
        by_contra hmod
        rw [if_neg hmod] at hm
        omega
  · rw [Function.update_of_ne hm]
    by_cases hn : m = step + 2 ^ l
    · subst hn
      rw [Function.update_self, hnil, List.nil_append, List.mem_filter, decide_eq_true_eq]
      constructor
      · rintro ⟨hs, hmod⟩
        exact .inr ⟨hs, by rw [if_neg hmod]⟩
      · rintro (⟨_, hs⟩ | ⟨hs, hm'⟩)
        · cases hs
        · refine ⟨hs, fun hmod => ?_⟩
          rw [if_pos hmod] at hm'
          omega
    · rw [Function.update_of_ne hn]
      constructor
      · exact fun hs => .inl ⟨hm, hs⟩
      · rintro (⟨_, hs⟩ | ⟨_, hm'⟩)
        · exact hs
        · split_ifs at hm' <;> omega

/-- **A split** puts every entry where the next step looks for it. -/
theorem Ok.split (h : Ok l step hashOf keyOf t) (hstep : step < 2 ^ l) :
    Ok l (step + 1) hashOf keyOf (split l step hashOf t) := by
  constructor
  · intro m s hs
    rw [address_split]
    rcases (mem_split hstep h).mp hs with ⟨hne, hs⟩ | ⟨hs', rfl⟩
    · rw [h.place m s hs, if_neg hne]
    · have hplace := h.place step s hs'
      have hlow : hashOf s % 2 ^ l = step := by
        rw [mod_of_address_lt (by rw [hplace]; exact hstep), hplace]
      have hdouble := mod_double l (hashOf s)
      rw [if_pos hplace]
      split_ifs <;> omega
  · intro m
    have hnil := h.eq_nil hstep
    unfold LinearHash.split
    by_cases hm : m = step
    · subst hm
      rw [Function.update_self]
      exact (h.keys m).sublist List.filter_sublist
    · rw [Function.update_of_ne hm]
      by_cases hn : m = step + 2 ^ l
      · subst hn
        rw [Function.update_self, hnil, List.nil_append]
        exact (h.keys step).sublist List.filter_sublist
      · rw [Function.update_of_ne hn]
        exact h.keys m

/-- A split keeps the entries. -/
theorem has_split (hstep : step < 2 ^ l) (h : Ok l step hashOf keyOf t) :
    Has (split l step hashOf t) s ↔ Has t s := by
  constructor
  · rintro ⟨m, hs⟩
    rcases (mem_split hstep h).mp hs with ⟨_, hs⟩ | ⟨hs, _⟩
    · exact ⟨m, hs⟩
    · exact ⟨step, hs⟩
  · rintro ⟨m, hs⟩
    by_cases hm : m = step
    · subst hm
      exact ⟨_, (mem_split hstep h).mpr (.inr ⟨hs, rfl⟩)⟩
    · exact ⟨m, (mem_split hstep h).mpr (.inl ⟨hm, hs⟩)⟩

/-- Where all buckets are split a step changes no place. -/
theorem Ok.step_of_le (h : Ok l step hashOf keyOf t) (hstep : 2 ^ l ≤ step) :
    Ok l (step + 1) hashOf keyOf t :=
  ⟨fun n s hs => by
    rw [address_of_le (by omega), ← address_of_le hstep]
    exact h.place n s hs, h.keys⟩

/-- The next level changes no place. -/
theorem Ok.next (h : Ok l step hashOf keyOf t) (hstep : 2 ^ l ≤ step) :
    Ok (l + 1) 0 hashOf keyOf t :=
  ⟨fun n s hs => by
    rw [address_next hstep]
    exact h.place n s hs, h.keys⟩

end Table

end Cashbox.Lib.LinearHash
