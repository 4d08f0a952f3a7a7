import Mathlib.Data.Char
import Cashbox.Lib.Trim

/-!
# Lines of a script

What counts in a line of a script is what stands in front of a comment, without the blanks around
it. Lines in which nothing counts are left out. A list in a script has a comma behind every
element but the last.
-/

namespace Cashbox.Lib

namespace Text

/-! ## Lines -/

/-- The part of a line in front of a comment. -/
def beforeComment : Text → Text
  | [] => []
  | c :: s => if "--".toList <+: c :: s then [] else c :: beforeComment s

/-- What counts in a line, if anything does. -/
def codeOf (line : Text) : List Text :=
  if trimMatches (· = ' ') (beforeComment line) = [] then []
  else [trimMatches (· = ' ') (beforeComment line)]

/-- What counts in the lines of a script. -/
def codeLines (script : Text) : List Text := (script.splitOn '\n').flatMap codeOf

section Lines

variable {line code blanks s t : Text}

theorem codeLines_nil : codeLines [] = [] := rfl

/-- Lines are looked at one by one. -/
theorem codeLines_append_cons (s t : Text) :
    codeLines (s ++ '\n' :: t) = codeLines s ++ codeLines t := by
  unfold codeLines
  rw [List.splitOn_append_cons_self, List.flatMap_append]

theorem codeLines_of_not_mem (h : '\n' ∉ line) : codeLines line = codeOf line := by
  have hsplit : line.splitOn '\n' = [line] := List.splitOn_eq_singleton h
  unfold codeLines
  rw [hsplit]
  exact List.append_nil _

/-- One line in front of a script. -/
theorem codeLines_line (h : '\n' ∉ line) (s : Text) :
    codeLines (line ++ '\n' :: s) = codeOf line ++ codeLines s := by
  rw [codeLines_append_cons, codeLines_of_not_mem h]

theorem beforeComment_of_not_mem (h : '-' ∉ line) : beforeComment line = line := by
  induction line with
  | nil => rfl
  | cons c line ih =>
    have hne : '-' ≠ c := List.ne_of_not_mem_cons h
    rw [beforeComment, ih (List.not_mem_of_not_mem_cons h)]
    exact if_neg fun hcomment => hne (List.cons_prefix_cons.mp hcomment).1

/-- A comment does not count. -/
theorem codeOf_comment (hblanks : ∀ c ∈ blanks, c = ' ') (s : Text) :
    codeOf (blanks ++ ("--".toList ++ s)) = [] := by
  have hbefore : beforeComment (blanks ++ ("--".toList ++ s)) = blanks := by
    induction blanks with
    | nil => exact if_pos (List.prefix_append "--".toList s)
    | cons c blanks ih =>
      obtain ⟨rfl, hrest⟩ := List.forall_mem_cons.mp hblanks
      have hnot : ¬ "--".toList <+: ' ' :: (blanks ++ ("--".toList ++ s)) := fun hcomment =>
        absurd (List.cons_prefix_cons.mp hcomment).1 (by decide)
      rw [List.cons_append, beforeComment, if_neg hnot, ih hrest]
  have htrim : trimMatches (· = ' ') (blanks : Text) = [] := by
    have hall : ∀ c ∈ blanks, decide (c = ' ') = true := fun c hc => decide_eq_true (hblanks c hc)
    have h := @trimMatches_append (· = ' ') [] blanks [] hall (List.forall_mem_nil _)
    simpa [trimMatches] using h
  unfold codeOf
  rw [hbefore, if_pos htrim]

/-- Code between blanks counts. -/
theorem codeOf_code {first last : Char} {blanks' : Text} (hfirst : first ≠ ' ') (hlast : last ≠ ' ')
    (hblanks : ∀ c ∈ blanks, c = ' ') (hblanks' : ∀ c ∈ blanks', c = ' ')
    (hcode : '-' ∉ first :: (code ++ [last])) :
    codeOf (blanks ++ (first :: (code ++ [last]) ++ blanks')) = [first :: (code ++ [last])] := by
  have hline : '-' ∉ blanks ++ (first :: (code ++ [last]) ++ blanks') := by
    rw [List.mem_append, List.mem_append]
    rintro (hmem | hmem | hmem)
    · exact absurd (hblanks _ hmem) (by decide)
    · exact hcode hmem
    · exact absurd (hblanks' _ hmem) (by decide)
  have htrim : trimMatches (· = ' ') (blanks ++ (first :: (code ++ [last]) ++ blanks')) =
      first :: (code ++ [last]) := by
    rw [trimMatches_append (fun c hc => decide_eq_true (hblanks c hc))
      fun c hc => decide_eq_true (hblanks' c hc)]
    exact trimMatches_between (decide_eq_false hfirst) (decide_eq_false hlast) code
  unfold codeOf
  rw [beforeComment_of_not_mem hline, htrim]
  exact if_neg (List.cons_ne_nil _ _)

end Lines

/-! ## Lists in a script -/

/-- Every element has a comma behind it. -/
def commas (items : List Text) : List Text := items.map (· ++ [','])

/-- Every element but the last has a comma behind it. -/
def separated (items : List Text) : List Text := commas items.dropLast ++ items.getLast?.toList

section Lists

variable {items items' : List Text}

theorem separated_concat (items : List Text) (item : Text) :
    separated (items ++ [item]) = commas items ++ [item] := by simp [separated]

theorem commas_append (items items' : List Text) :
    commas (items ++ items') = commas items ++ commas items' := List.map_append

/-- A list that goes on. -/
theorem separated_append (h : items' ≠ []) :
    separated (items ++ items') = commas items ++ separated items' := by
  obtain ⟨front, last, rfl⟩ := (List.eq_nil_or_concat' items').resolve_left h
  rw [← List.append_assoc, separated_concat, separated_concat, commas_append, List.append_assoc]

theorem length_separated (items : List Text) : (separated items).length = items.length := by
  rcases List.eq_nil_or_concat' items with rfl | ⟨front, last, rfl⟩
  · rfl
  · rw [separated_concat]
    simp [commas]

/-- Where no element ends with a comma, a list with a comma behind its last is not separated. -/
theorem commas_ne_separated (hne : items ≠ []) (h : ∀ item ∈ items', ∀ s, item ≠ s ++ [',']) :
    commas items ≠ separated items' := by
  intro heq
  obtain ⟨front, last, rfl⟩ := (List.eq_nil_or_concat' items).resolve_left hne
  rcases List.eq_nil_or_concat' items' with rfl | ⟨front', last', rfl⟩
  · rw [commas_append] at heq
    simp [separated, commas] at heq
  · rw [separated_concat, commas_append] at heq
    have hlast := (List.append_inj' heq rfl).2
    exact h last' (by simp) last (List.singleton_inj.mp hlast.symm)

end Lists

end Text

end Cashbox.Lib
