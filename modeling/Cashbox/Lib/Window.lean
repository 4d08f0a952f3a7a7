import Mathlib.Data.List.Basic
import Mathlib.Data.Nat.Find
import Cashbox.Lib.Outcome

/-!
# Windows of a list

A query that is cut returns a window of the rows that it selects: the first ones, or a page.
Two cut queries agree exactly if what the one returns meets the condition of the other, and
the pages of a list, one after the other, are the list.
-/

namespace Cashbox.Lib

variable {α β ε : Type}

/-! ## The first ones -/

section Take

variable {p q : α → Bool} {l : List α} {n : Nat}

theorem mem_of_mem_take_filter {x : α} (h : x ∈ (l.filter p).take n) : x ∈ l :=
  List.mem_of_mem_filter (List.mem_of_mem_take h)

theorem of_mem_take_filter {x : α} (h : x ∈ (l.filter p).take n) : p x = true :=
  List.of_mem_filter (List.mem_of_mem_take h)

/-- A further condition that the first ones meet leaves them the first ones. -/
theorem take_filter_filter (h : ∀ x ∈ (l.filter p).take n, q x = true) :
    (l.filter fun x => p x && q x).take n = (l.filter p).take n := by
  induction l generalizing n with
  | nil => rfl
  | cons a l ih =>
    cases hp : p a with
    | false =>
      rw [List.filter_cons_of_neg (by simp [hp]), List.filter_cons_of_neg (by simp [hp])]
      rw [List.filter_cons_of_neg (by simp [hp])] at h
      exact ih h
    | true =>
      rw [List.filter_cons_of_pos hp] at h ⊢
      cases n with
      | zero => simp
      | succ n =>
        have hq : q a = true := h a (by simp)
        have hrest : ∀ x ∈ (l.filter p).take n, q x = true := fun x hx => h x (by simp [hx])
        rw [List.filter_cons_of_pos (by simp [hp, hq]), List.take_succ_cons, List.take_succ_cons,
          ih hrest]

/-- Two cut queries that each return only what the other asks for return the same. -/
theorem take_filter_eq_take_filter (hpq : ∀ x ∈ (l.filter p).take n, q x = true)
    (hqp : ∀ x ∈ (l.filter q).take n, p x = true) :
    (l.filter p).take n = (l.filter q).take n := by
  calc (l.filter p).take n
      = (l.filter fun x => p x && q x).take n := (take_filter_filter hpq).symm
    _ = (l.filter fun x => q x && p x).take n := by simp only [Bool.and_comm]
    _ = (l.filter q).take n := take_filter_filter hqp

/-- Two cut queries return the same rows exactly if each returns only what the other asks
for. -/
theorem mem_take_filter_iff :
    (∀ x, x ∈ (l.filter p).take n ↔ x ∈ (l.filter q).take n) ↔
      (∀ x ∈ (l.filter p).take n, q x = true) ∧ ∀ x ∈ (l.filter q).take n, p x = true := by
  constructor
  · intro h
    exact ⟨fun x hx => of_mem_take_filter ((h x).mp hx),
      fun x hx => of_mem_take_filter ((h x).mpr hx)⟩
  · rintro ⟨hpq, hqp⟩ x
    rw [take_filter_eq_take_filter hpq hqp]

end Take

/-! ## Pages -/

/-- `LIMIT size OFFSET offset` -/
def window (offset size : Nat) (l : List α) : List α := (l.drop offset).take size

/-- The pages are numbered from one on. -/
def page (size p : Nat) (l : List α) : List α := window ((p - 1) * size) size l

section Pages

variable {l : List α} {size : Nat}

theorem window_map (f : α → β) (offset size : Nat) (l : List α) :
    window offset size (l.map f) = (window offset size l).map f := by
  unfold window
  rw [List.map_take, List.map_drop]

/-- The first pages, one after the other, are the first elements. -/
theorem flatMap_page (size n : Nat) (l : List α) :
    (List.range' 1 n).flatMap (fun p => page size p l) = l.take (n * size) := by
  induction n with
  | zero => simp
  | succ n ih =>
    have hlast : page size (1 + 1 * n) l = (l.drop (n * size)).take size := by
      unfold page window
      rw [Nat.one_mul, Nat.add_sub_cancel_left]
    rw [List.range'_concat, List.flatMap_append, ih, List.flatMap_singleton, hlast,
      Nat.succ_mul, List.take_add]

theorem page_eq_nil_iff (hsize : 0 < size) {p : Nat} :
    page size p l = [] ↔ l.length ≤ (p - 1) * size := by
  unfold page window
  rw [List.take_eq_nil_iff, List.drop_eq_nil_iff]
  omega

/-- Walking the pages until an empty one yields the elements of `l`. -/
def WalksTo (fetch : Nat → Outcome ε (List α)) (l : List α) : Prop :=
  ∃ n, ∃ pages : Nat → List α,
    (∀ p, 1 ≤ p → p ≤ n → fetch p = .ok (pages p) ∧ pages p ≠ []) ∧
      fetch (n + 1) = .ok [] ∧ (List.range' 1 n).flatMap pages = l

/-- **Pages are complete**: where every page is fetched, up to `f`, the walk yields every
element once. -/
theorem walksTo_of_pages (hsize : 0 < size) {f : β → α} {fetch : Nat → Outcome ε (List β)}
    {pages : Nat → List β} (hfetch : ∀ p, 1 ≤ p → fetch p = .ok (pages p))
    (hpages : ∀ p, 1 ≤ p → (pages p).map f = page size p l) :
    ∃ rows, WalksTo fetch rows ∧ rows.map f = l := by
  -- the last page that is not empty
  have hex : ∃ n, l.length ≤ n * size := ⟨l.length, Nat.le_mul_of_pos_right _ hsize⟩
  have henough : l.length ≤ Nat.find hex * size := Nat.find_spec hex
  have hnil : ∀ p, 1 ≤ p → (pages p = [] ↔ l.length ≤ (p - 1) * size) := by
    intro p hp
    rw [← page_eq_nil_iff hsize, ← hpages p hp, List.map_eq_nil_iff]
  refine ⟨(List.range' 1 (Nat.find hex)).flatMap pages,
    ⟨Nat.find hex, pages, ?_, ?_, rfl⟩, ?_⟩
  · intro p hp hle
    refine ⟨hfetch p hp, fun hempty => ?_⟩
    exact Nat.find_min hex (m := p - 1) (by omega) ((hnil p hp).mp hempty)
  · have hlast : pages (Nat.find hex + 1) = [] := (hnil _ (by omega)).mpr henough
    rw [hfetch _ (by omega), hlast]
  · have hmap : (List.range' 1 (Nat.find hex)).flatMap (fun p => (pages p).map f) =
        (List.range' 1 (Nat.find hex)).flatMap fun p => page size p l := by
      refine List.flatMap_congr fun p hp => hpages p ?_
      exact (List.mem_range'_1.mp hp).1
    rw [List.map_flatMap, hmap, flatMap_page, List.take_of_length_le henough]

end Pages

/-! ## Repeated elements -/

section Repeated

variable {l : List α} {k : α → Nat}

theorem count_flatMap_replicate [BEq α] [LawfulBEq α] (k : α → Nat) (x : α) (l : List α) :
    (l.flatMap fun a => List.replicate (k a) a).count x = k x * l.count x := by
  induction l with
  | nil => simp
  | cons a l ih =>
    rw [List.flatMap_cons, List.count_append, ih, List.count_replicate, List.count_cons]
    by_cases h : a = x
    · subst h
      simp [Nat.mul_add, Nat.add_comm]
    · simp [h]

/-- A list in which every element is repeated is itself exactly if each is there once. -/
theorem flatMap_replicate_eq_self_iff [DecidableEq α] :
    (l.flatMap fun a => List.replicate (k a) a) = l ↔ ∀ a ∈ l, k a = 1 := by
  constructor
  · intro h a ha
    have hcount : k a * l.count a = 1 * l.count a := by
      rw [← count_flatMap_replicate, h, Nat.one_mul]
    exact Nat.eq_of_mul_eq_mul_right (List.count_pos_iff.mpr ha) hcount
  · intro h
    have hone : l.flatMap (fun a => List.replicate (k a) a) = l.flatMap fun a => [a] :=
      List.flatMap_congr fun a ha => by rw [h a ha, List.replicate_one]
    rw [hone, List.flatMap_singleton']

end Repeated

end Cashbox.Lib
