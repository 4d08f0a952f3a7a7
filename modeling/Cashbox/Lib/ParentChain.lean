import Mathlib.Data.List.Chain
import Mathlib.Data.List.Nodup

/-!
# Chains of parent links

`parent a = some b` says that `b` is the parent of `a`. A trunk from `root` is a
list that starts at `root` and in which every element is the parent of the
next. With a `depth` that is zero at the root and grows by one along each link,
the positions of a trunk are the depths of its elements, so no element occurs
twice.
-/

namespace Cashbox.Lib

variable {α : Type}

/-- `xs` starts at `root` and follows the parent links upwards. -/
structure IsTrunk (parent : α → Option α) (root : α) (xs : List α) : Prop where
  head : xs.head? = some root
  link : xs.IsChain fun a b => parent b = some a

namespace IsTrunk

variable {parent : α → Option α} {root : α} {xs : List α}

theorem singleton (parent : α → Option α) (root : α) : IsTrunk parent root [root] :=
  ⟨rfl, List.IsChain.singleton root⟩

theorem ne_nil (h : IsTrunk parent root xs) : xs ≠ [] := by
  intro hnil
  have hhead := h.head
  simp [hnil] at hhead

theorem root_mem (h : IsTrunk parent root xs) : root ∈ xs := List.mem_of_head? h.head

/-- A child of the last element extends the trunk. -/
theorem concat (h : IsTrunk parent root xs) {tip a : α} (htip : xs.getLast? = some tip)
    (ha : parent a = some tip) : IsTrunk parent root (xs ++ [a]) where
  head := by
    rw [List.head?_append, h.head]
    rfl
  link := by
    -- the only new link is the one from the old last element
    refine List.isChain_append.mpr ⟨h.link, List.IsChain.singleton a, ?_⟩
    intro x hx y hy
    have hxt : x = tip := by rw [htip] at hx; exact (Option.some.inj hx).symm
    have hya : y = a := by simpa using hy.symm
    rw [hxt, hya, ha]

/-- Without its last element, which is a child of the one before, a trunk is a trunk. -/
theorem of_concat {a : α} (h : IsTrunk parent root (xs ++ [a])) (hne : xs ≠ []) :
    IsTrunk parent root xs ∧ ∃ tip, xs.getLast? = some tip ∧ parent a = some tip := by
  obtain ⟨hlink, _, hlast⟩ := List.isChain_append.mp h.link
  have hhead : xs.head? = some root := by
    rw [← List.head?_append_of_ne_nil xs hne]
    exact h.head
  have htip : xs.getLast? = some (xs.getLast hne) := List.getLast?_eq_some_getLast hne
  exact ⟨⟨hhead, hlink⟩, _, htip, hlast _ htip a rfl⟩

/-- Only the links of the trunk's own elements matter. -/
theorem congr {parent' : α → Option α} (h : IsTrunk parent root xs)
    (heq : ∀ a ∈ xs, parent' a = parent a) : IsTrunk parent' root xs where
  head := h.head
  link := h.link.imp_of_mem_imp fun a b _ hb hab => by rw [heq b hb, hab]

theorem getElem_zero (h : IsTrunk parent root xs) : xs[0]? = some root := by
  rw [← List.head?_eq_getElem?, h.head]

/-- The parent of an element after the first is the element before it. -/
theorem parent_getElem (h : IsTrunk parent root xs) {i : Nat} (hi : i + 1 < xs.length) :
    parent xs[i + 1] = some xs[i] :=
  List.isChain_iff_getElem.mp h.link i hi

/-- Position equals depth. -/
theorem depth_getElem (h : IsTrunk parent root xs) {depth : α → Nat} (hroot : depth root = 0)
    (hdepth : ∀ a ∈ xs, ∀ b, parent a = some b → depth a = depth b + 1)
    {i : Nat} (hi : i < xs.length) : depth xs[i] = i := by
  induction i with
  | zero =>
    have h0 : xs[0] = root := by
      have hhead := h.getElem_zero
      rw [List.getElem?_eq_getElem hi] at hhead
      exact Option.some.inj hhead
    rw [h0, hroot]
  | succ i ih =>
    -- the parent is the element before, whose depth is its position
    have hparent : parent xs[i + 1] = some xs[i] := h.parent_getElem hi
    have hbefore : depth xs[i] = i := ih (by omega)
    rw [hdepth _ (List.getElem_mem hi) _ hparent, hbefore]

theorem nodup (h : IsTrunk parent root xs) {depth : α → Nat} (hroot : depth root = 0)
    (hdepth : ∀ a ∈ xs, ∀ b, parent a = some b → depth a = depth b + 1) : xs.Nodup := by
  -- equal elements have equal depths, and these are their positions
  refine List.nodup_iff_injective_getElem.mpr ?_
  intro i j hij
  have hi := h.depth_getElem hroot hdepth i.isLt
  have hj := h.depth_getElem hroot hdepth j.isLt
  have hv : xs[i.val] = xs[j.val] := hij
  rw [hv] at hi
  exact Fin.ext (hi.symm.trans hj)

end IsTrunk

end Cashbox.Lib
