import Mathlib.Data.List.Infix

/-!
# Templates

A template is a text with holes. A hole is the mark of a key, between two brackets that neither
the keys nor the texts have, and a symbol behind it. Holes are filled by replacing marks in the
text, one key after the other: where some hole of the key is followed by a certain symbol only
these are replaced, with the symbol, and otherwise every mark of the key.

What comes out does not depend on the order of the keys.
-/

namespace Cashbox.Lib

variable {α : Type} [DecidableEq α]

/-! ## Patterns -/

/-- `replace` behind some symbols that belong to the last occurrence. -/
def replaceFrom (pat new : List α) : Nat → List α → List α
  | _, [] => []
  | skip + 1, _ :: s => replaceFrom pat new skip s
  | 0, c :: s =>
    if pat <+: c :: s then new ++ replaceFrom pat new (pat.length - 1) s
    else c :: replaceFrom pat new 0 s

/-- `replace`: every occurrence of a pattern that is not empty, from the left. -/
def replaceAll (pat new s : List α) : List α := replaceFrom pat new 0 s

/-- `rfind`: the position of the last occurrence. -/
def rfind (pat : List α) : List α → Option Nat
  | [] => if pat = [] then some 0 else none
  | c :: s =>
    match rfind pat s with
    | some i => some (i + 1)
    | none => if pat <+: c :: s then some 0 else none

section Patterns

variable {pat new s t : List α} {b c : α}

theorem replaceFrom_append (t s : List α) :
    replaceFrom pat new t.length (t ++ s) = replaceAll pat new s := by
  induction t with
  | nil => rfl
  | cons c t ih => exact ih

/-- The pattern itself is replaced. -/
theorem replaceAll_self (hpat : pat ≠ []) (s : List α) :
    replaceAll pat new (pat ++ s) = new ++ replaceAll pat new s := by
  obtain ⟨c, p, rfl⟩ := List.exists_cons_of_ne_nil hpat
  have hprefix : c :: p <+: c :: (p ++ s) := List.prefix_append (c :: p) s
  have hstep : replaceAll (c :: p) new (c :: p ++ s) =
      new ++ replaceFrom (c :: p) new p.length (p ++ s) := if_pos hprefix
  rw [hstep, replaceFrom_append]

theorem replaceAll_cons (h : ¬ pat <+: c :: s) :
    replaceAll pat new (c :: s) = c :: replaceAll pat new s := if_neg h

/-- A text without the first symbol of the pattern stays. -/
theorem replaceAll_append (h : b ∉ t) (s : List α) :
    replaceAll (b :: pat) new (t ++ s) = t ++ replaceAll (b :: pat) new s := by
  induction t with
  | nil => rfl
  | cons c t ih =>
    have hne : b ≠ c := List.ne_of_not_mem_cons h
    have hnot : ¬ b :: pat <+: c :: (t ++ s) := fun hprefix =>
      hne (List.cons_prefix_cons.mp hprefix).1
    rw [List.cons_append, replaceAll_cons hnot, ih (List.not_mem_of_not_mem_cons h),
      List.cons_append]

omit [DecidableEq α] in
/-- A text without the first symbol of the pattern has no part in an occurrence. -/
theorem infix_append_iff (h : b ∉ t) : b :: pat <:+: t ++ s ↔ b :: pat <:+: s := by
  induction t with
  | nil => exact Iff.rfl
  | cons c t ih =>
    have hne : b ≠ c := List.ne_of_not_mem_cons h
    rw [List.cons_append, List.infix_cons_iff, ih (List.not_mem_of_not_mem_cons h)]
    exact or_iff_right fun hprefix => hne (List.cons_prefix_cons.mp hprefix).1

/-- A pattern that goes on behind its first symbol does not occur at the end. -/
theorem rfind_concat (hpat : pat ≠ []) (h : b ∉ s) : rfind (b :: pat) (s ++ [b]) = none := by
  induction s with
  | nil =>
    have hnot : ¬ b :: pat <+: [b] := fun hprefix => by
      have hrest := (List.cons_prefix_cons.mp hprefix).2
      exact hpat (List.prefix_nil.mp hrest)
    exact if_neg hnot
  | cons c s ih =>
    have hne : b ≠ c := List.ne_of_not_mem_cons h
    rw [List.cons_append, rfind, ih (List.not_mem_of_not_mem_cons h)]
    exact if_neg fun hprefix => hne (List.cons_prefix_cons.mp hprefix).1

/-- An occurrence behind which there is no other is the last one. -/
theorem rfind_append (h : rfind (b :: pat) (pat ++ s) = none) (t : List α) :
    rfind (b :: pat) (t ++ b :: (pat ++ s)) = some t.length := by
  induction t with
  | nil =>
    have hprefix : b :: pat <+: b :: (pat ++ s) := List.prefix_append (b :: pat) s
    rw [List.nil_append, rfind, h]
    exact if_pos hprefix
  | cons c t ih =>
    rw [List.cons_append, rfind, ih]
    rfl

end Patterns

/-! ## Marks -/

/-- A key between brackets. -/
def keyMark (b e : α) (key : List α) : List α := b :: (key ++ [e])

omit [DecidableEq α] in
/-- The first closing bracket ends the key. -/
theorem append_cons_prefix_iff {e : α} {k k' x y : List α} (hk : e ∉ k) (hk' : e ∉ k') :
    k ++ e :: x <+: k' ++ e :: y ↔ k = k' ∧ x <+: y := by
  induction k generalizing k' with
  | nil =>
    cases k' with
    | nil => simp
    | cons c k' =>
      have hne : e ≠ c := List.ne_of_not_mem_cons hk'
      simp [hne]
  | cons c k ih =>
    have hne : c ≠ e := fun heq => List.ne_of_not_mem_cons hk heq.symm
    cases k' with
    | nil => simp [hne]
    | cons c' k' =>
      rw [List.cons_append, List.cons_append, List.cons_prefix_cons,
        ih (List.not_mem_of_not_mem_cons hk) (List.not_mem_of_not_mem_cons hk'), List.cons.injEq,
        and_assoc]

omit [DecidableEq α] in
theorem mark_prefix_iff {b e : α} {k k' x y : List α} (hk : e ∉ k) (hk' : e ∉ k') :
    keyMark b e k ++ x <+: keyMark b e k' ++ y ↔ k = k' ∧ x <+: y := by
  have hshape (k x : List α) : keyMark b e k ++ x = b :: (k ++ e :: x) := by simp [keyMark]
  rw [hshape, hshape, List.cons_prefix_cons, append_cons_prefix_iff hk hk']
  simp

/-! ## Pieces -/

/-- A part of a template: a text, or the hole of a key with the symbol behind it. -/
inductive Piece (α : Type) where
  | text (t : List α)
  | hole (key : List α) (next : α)
  deriving DecidableEq

namespace Piece

variable (b e : α)

def render : Piece α → List α
  | text t => t
  | hole key next => keyMark b e key ++ [next]

/-- Brackets are around keys only. -/
def Plain : Piece α → Prop
  | text t => b ∉ t
  | hole key next => b ∉ key ∧ e ∉ key ∧ b ≠ next

/-- The holes of a key with a certain symbol behind it are filled, with the symbol. -/
def fillNext (k : List α) (n : α) (new : List α) : Piece α → Piece α
  | text t => text t
  | hole key next => if key = k ∧ next = n then text new else hole key next

/-- The holes of a key are filled. -/
def fillKey (k new : List α) : Piece α → Piece α
  | text t => text t
  | hole key next => if key = k then text (new ++ [next]) else hole key next

end Piece

section Pieces

variable {b e n : α} {k new : List α} {p : Piece α} {ps : List (Piece α)}

/-- The text of a template. -/
def renderAll (b e : α) (ps : List (Piece α)) : List α := ps.flatMap (Piece.render b e)

omit [DecidableEq α] in
theorem renderAll_cons : renderAll b e (p :: ps) = p.render b e ++ renderAll b e ps := rfl

omit [DecidableEq α] in
theorem renderAll_append (ps ps' : List (Piece α)) :
    renderAll b e (ps ++ ps') = renderAll b e ps ++ renderAll b e ps' := List.flatMap_append

omit [DecidableEq α] in
theorem render_hole_append (key : List α) (next : α) (s : List α) :
    (Piece.hole key next).render b e ++ s = keyMark b e key ++ (next :: s) := by
  simp [Piece.render]

/-- A mark that is not the pattern stays. -/
theorem replaceAll_mark_append {key pat : List α} {next : α} (hkey : b ∉ key) (hbe : b ≠ e)
    (hnext : b ≠ next) {s : List α} (hnot : ¬ b :: pat <+: keyMark b e key ++ (next :: s)) :
    replaceAll (b :: pat) new (keyMark b e key ++ (next :: s)) =
      keyMark b e key ++ (next :: replaceAll (b :: pat) new s) := by
  have hrest : b ∉ key ++ [e, next] := by simp [hkey, hbe, hnext]
  have hshape (s : List α) : keyMark b e key ++ (next :: s) = b :: ((key ++ [e, next]) ++ s) := by
    simp [keyMark]
  rw [hshape] at hnot ⊢
  rw [replaceAll_cons hnot, replaceAll_append hrest, hshape]

/-- Replacing a mark with the symbol behind it fills the holes that have it. -/
theorem replaceAll_mark_next (hps : ∀ p ∈ ps, p.Plain b e) (hbe : b ≠ e) (hk : e ∉ k) :
    replaceAll (keyMark b e k ++ [n]) new (renderAll b e ps) =
      renderAll b e (ps.map (Piece.fillNext k n new)) := by
  induction ps with
  | nil => rfl
  | cons p ps ih =>
    obtain ⟨hp, hps⟩ := List.forall_mem_cons.mp hps
    have ih := ih hps
    rw [List.map_cons, renderAll_cons, renderAll_cons, ← ih]
    cases p with
    | text t => exact replaceAll_append hp _
    | hole key next =>
      obtain ⟨hb, he, hnext⟩ := hp
      by_cases hsame : key = k ∧ next = n
      · obtain ⟨rfl, rfl⟩ := hsame
        rw [Piece.fillNext, if_pos ⟨rfl, rfl⟩]
        exact replaceAll_self (by simp [keyMark]) _
      · rw [Piece.fillNext, if_neg hsame]
        have hnot : ¬ keyMark b e k ++ [n] <+: keyMark b e key ++ (next :: renderAll b e ps) := by
          rw [mark_prefix_iff hk he, List.cons_prefix_cons]
          rintro ⟨rfl, rfl, -⟩
          exact hsame ⟨rfl, rfl⟩
        have hstay := @replaceAll_mark_append _ _ b e new _ _ _ hb hbe hnext _ hnot
        rw [render_hole_append, render_hole_append]
        exact hstay

/-- Replacing a mark fills the holes of the key. -/
theorem replaceAll_mark (hps : ∀ p ∈ ps, p.Plain b e) (hbe : b ≠ e) (hk : e ∉ k) :
    replaceAll (keyMark b e k) new (renderAll b e ps) =
      renderAll b e (ps.map (Piece.fillKey k new)) := by
  induction ps with
  | nil => rfl
  | cons p ps ih =>
    obtain ⟨hp, hps⟩ := List.forall_mem_cons.mp hps
    have ih := ih hps
    rw [List.map_cons, renderAll_cons, renderAll_cons, ← ih]
    cases p with
    | text t => exact replaceAll_append hp _
    | hole key next =>
      obtain ⟨hb, he, hnext⟩ := hp
      by_cases hsame : key = k
      · subst hsame
        have hone : b ∉ [next] := by simp [hnext]
        rw [Piece.fillKey, if_pos rfl, Piece.render, Piece.render, List.append_assoc,
          replaceAll_self (by simp [keyMark])]
        have hstay := @replaceAll_append _ _ (key ++ [e]) new [next] b hone (renderAll b e ps)
        rw [List.append_assoc]
        exact congrArg _ hstay
      · rw [Piece.fillKey, if_neg hsame]
        have hnot : ¬ keyMark b e k <+: keyMark b e key ++ (next :: renderAll b e ps) := by
          have hiff := @mark_prefix_iff _ b e k key [] (next :: renderAll b e ps) hk he
          rw [List.append_nil] at hiff
          rw [hiff]
          exact fun h => hsame h.1.symm
        have hstay := @replaceAll_mark_append _ _ b e new _ _ _ hb hbe hnext _ hnot
        rw [render_hole_append, render_hole_append]
        exact hstay

omit [DecidableEq α] in
/-- Where a mark is found, with a symbol behind it, there is such a hole. -/
theorem infix_renderAll_iff (hps : ∀ p ∈ ps, p.Plain b e) (hbe : b ≠ e) (hk : e ∉ k) :
    keyMark b e k ++ [n] <:+: renderAll b e ps ↔ Piece.hole k n ∈ ps := by
  induction ps with
  | nil => simp [renderAll, keyMark]
  | cons p ps ih =>
    obtain ⟨hp, hps⟩ := List.forall_mem_cons.mp hps
    have ih := ih hps
    rw [renderAll_cons, List.mem_cons]
    cases p with
    | text t =>
      rw [← ih]
      simp only [reduceCtorEq, false_or]
      exact infix_append_iff hp
    | hole key next =>
      obtain ⟨hb, he, hnext⟩ := hp
      have hrest : b ∉ key ++ [e, next] := by simp [hb, hbe, hnext]
      have hshape : (Piece.hole key next).render b e ++ renderAll b e ps =
          b :: ((key ++ [e, next]) ++ renderAll b e ps) := by simp [Piece.render, keyMark]
      have hprefix : keyMark b e k ++ [n] <+: b :: ((key ++ [e, next]) ++ renderAll b e ps) ↔
          Piece.hole k n = Piece.hole key next := by
        have hmark : b :: ((key ++ [e, next]) ++ renderAll b e ps) =
            keyMark b e key ++ (next :: renderAll b e ps) := by simp [keyMark]
        rw [hmark, mark_prefix_iff hk he, List.cons_prefix_cons]
        simp
      rw [hshape, List.infix_cons_iff, hprefix, ← ih]
      exact or_congr_right (infix_append_iff hrest)

end Pieces

/-! ## Filling all holes -/

/-- One key: the holes that have the symbol behind them, or else all. -/
def fillMark (b e n : α) (withNext whole : List α → List α) (s k : List α) : List α :=
  if keyMark b e k ++ [n] <:+: s then replaceAll (keyMark b e k ++ [n]) (withNext k) s
  else replaceAll (keyMark b e k) (whole k) s

/-- What becomes of a piece when the holes of some keys are filled. -/
def Piece.filled (n : α) (withNext whole : List α → List α) (ps : List (Piece α))
    (keys : List (List α)) : Piece α → Piece α
  | text t => text t
  | hole key next =>
    if key ∈ keys then
      if hole key n ∈ ps then (if next = n then text (withNext key) else hole key next)
      else text (whole key ++ [next])
    else hole key next

section Fill

variable {b e n : α} {withNext whole : List α → List α} {ps : List (Piece α)}
  {keys : List (List α)} {k : List α} {p : Piece α}

/-- A hole that is left is one that was there. -/
theorem hole_mem_map_filled (hk : k ∉ keys) :
    Piece.hole k n ∈ ps.map (Piece.filled n withNext whole ps keys) ↔ Piece.hole k n ∈ ps := by
  constructor
  · intro hmem
    obtain ⟨p, hp, heq⟩ := List.mem_map.mp hmem
    cases p with
    | text t => cases heq
    | hole key next =>
      simp only [Piece.filled] at heq
      split_ifs at heq
      · exact heq ▸ hp
      · exact heq ▸ hp
  · intro hmem
    exact List.mem_map.mpr ⟨_, hmem, if_neg hk⟩

/-- Filled pieces are plain. -/
theorem plain_filled (hp : p.Plain b e) (hnext : ∀ k ∈ keys, b ∉ withNext k)
    (hwhole : ∀ k ∈ keys, b ∉ whole k) :
    (p.filled n withNext whole ps keys).Plain b e := by
  cases p with
  | text t => exact hp
  | hole key next =>
    simp only [Piece.filled]
    split_ifs with hkey hmem hsame
    · exact hnext key hkey
    · exact hp
    · simp [Piece.Plain, hwhole key hkey, hp.2.2]
    · exact hp

/-- The next key fills its holes only. -/
theorem filled_concat (hk : k ∉ keys) (p : Piece α) :
    p.filled n withNext whole ps (keys ++ [k]) =
      if Piece.hole k n ∈ ps then (p.filled n withNext whole ps keys).fillNext k n (withNext k)
      else (p.filled n withNext whole ps keys).fillKey k (whole k) := by
  cases p with
  | text t => simp [Piece.filled, Piece.fillNext, Piece.fillKey]
  | hole key next =>
    by_cases hsame : key = k
    · subst hsame
      simp [Piece.filled, hk, Piece.fillNext, Piece.fillKey]
    · by_cases hmem : key ∈ keys
      · unfold Piece.filled
        by_cases hhole : Piece.hole key n ∈ ps <;> by_cases hnext : next = n <;>
          simp [hmem, hsame, hhole, hnext, Piece.fillNext, Piece.fillKey]
      · simp [Piece.filled, hmem, hsame, Piece.fillNext, Piece.fillKey]

/-- **Filling** one key after the other fills each piece on its own. -/
theorem foldl_fillMark (hps : ∀ p ∈ ps, p.Plain b e) (hbe : b ≠ e)
    (hkeys : keys.Nodup) (he : ∀ k ∈ keys, e ∉ k) (hnext : ∀ k ∈ keys, b ∉ withNext k)
    (hwhole : ∀ k ∈ keys, b ∉ whole k) :
    keys.foldl (fillMark b e n withNext whole) (renderAll b e ps) =
      renderAll b e (ps.map (Piece.filled n withNext whole ps keys)) := by
  induction keys using List.reverseRecOn with
  | nil =>
    have hsame : ∀ p ∈ ps, Piece.filled n withNext whole ps [] p = id p := by
      intro p _
      cases p <;> simp [Piece.filled]
    rw [List.map_congr_left hsame, List.map_id]
    rfl
  | append_singleton keys k ih =>
    obtain ⟨hkeys, -, hdisjoint⟩ := List.nodup_append.mp hkeys
    have hk : k ∉ keys := fun hmem => hdisjoint k hmem k (by simp) rfl
    have hin : ∀ k' ∈ keys, k' ∈ keys ++ [k] := fun k' hk' => List.mem_append_left _ hk'
    have hlast : k ∈ keys ++ [k] := by simp
    have hplain : ∀ p ∈ ps.map (Piece.filled n withNext whole ps keys), p.Plain b e := by
      intro p hp
      obtain ⟨q, hq, rfl⟩ := List.mem_map.mp hp
      exact plain_filled (hps q hq) (fun k' hk' => hnext k' (hin k' hk'))
        fun k' hk' => hwhole k' (hin k' hk')
    rw [List.foldl_append, ih hkeys (fun k' hk' => he k' (hin k' hk'))
      (fun k' hk' => hnext k' (hin k' hk')) fun k' hk' => hwhole k' (hin k' hk')]
    show fillMark b e n withNext whole _ k = _
    unfold fillMark
    -- the hole is still there exactly if it was there at first
    have hfound := (infix_renderAll_iff (n := n) hplain hbe (he k hlast)).trans
      (hole_mem_map_filled hk)
    by_cases hhole : Piece.hole k n ∈ ps
    · rw [if_pos (hfound.mpr hhole), replaceAll_mark_next hplain hbe (he k hlast), List.map_map]
      congr 1
      apply List.map_congr_left
      intro p _
      rw [filled_concat hk, if_pos hhole]
      rfl
    · rw [if_neg fun hin => hhole (hfound.mp hin), replaceAll_mark hplain hbe (he k hlast),
        List.map_map]
      congr 1
      apply List.map_congr_left
      intro p _
      rw [filled_concat hk, if_neg hhole]
      rfl

/-- The order of the keys does not matter. -/
theorem filled_congr {keys' : List (List α)} (h : ∀ k, k ∈ keys ↔ k ∈ keys') :
    Piece.filled n withNext whole ps keys = Piece.filled n withNext whole ps keys' := by
  funext p
  cases p with
  | text t => rfl
  | hole key next => simp only [Piece.filled, h]

end Fill

end Cashbox.Lib
