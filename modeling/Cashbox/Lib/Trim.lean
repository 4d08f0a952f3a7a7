import Mathlib.Data.List.TakeWhile
import Cashbox.Lib.Text

/-!
# Trimmed text

What is trimmed off a text are characters at its ends that match, and what is left begins and ends
with characters that do not.
-/

namespace Cashbox.Lib.Text

variable {p : Char → Bool} {s : Text}

/-- Matching characters around a text are trimmed off. -/
theorem trimMatches_append {before after : Text} (hbefore : ∀ c ∈ before, p c = true)
    (hafter : ∀ c ∈ after, p c = true) :
    trimMatches p (before ++ (s ++ after)) = trimMatches p s := by
  have hnone : after.dropWhile p = [] := List.dropWhile_eq_nil_iff.mpr hafter
  have hreverse : ∀ c ∈ after.reverse, p c = true := by simpa using hafter
  unfold trimMatches
  rw [List.dropWhile_append_of_pos hbefore, List.dropWhile_append]
  split_ifs with hempty
  · rw [hnone, List.isEmpty_iff.mp hempty]
  · rw [List.reverse_append, List.dropWhile_append_of_pos hreverse]

/-- A text is its trimmed text with matching characters around it. -/
theorem exists_trimMatches (p : Char → Bool) (s : Text) : ∃ before after,
    (∀ c ∈ before, p c = true) ∧ (∀ c ∈ after, p c = true) ∧
      s = before ++ (trimMatches p s ++ after) := by
  have htake (t : Text) : ∀ c ∈ t.takeWhile p, p c = true := fun c hc => List.mem_takeWhile_imp hc
  refine ⟨s.takeWhile p, ((s.dropWhile p).reverse.takeWhile p).reverse, htake s, ?_, ?_⟩
  · simpa using htake (s.dropWhile p).reverse
  · have hrest : s.dropWhile p = trimMatches p s ++
        ((s.dropWhile p).reverse.takeWhile p).reverse := by
      unfold trimMatches
      rw [← List.reverse_append, List.takeWhile_append_dropWhile, List.reverse_reverse]
    rw [← hrest, List.takeWhile_append_dropWhile]

theorem mem_of_mem_trimMatches {c : Char} (h : c ∈ trimMatches p s) : c ∈ s := by
  obtain ⟨before, after, -, -, heq⟩ := exists_trimMatches p s
  rw [heq]
  exact List.mem_append_right _ (List.mem_append_left _ h)

/-- A character that does not match is not trimmed off. -/
theorem mem_trimMatches {c : Char} (h : c ∈ s) (hc : p c = false) : c ∈ trimMatches p s := by
  obtain ⟨before, after, hbefore, hafter, heq⟩ := exists_trimMatches p s
  rw [heq, List.mem_append, List.mem_append] at h
  rcases h with h | h | h
  · exact absurd (hbefore c h) (by simp [hc])
  · exact h
  · exact absurd (hafter c h) (by simp [hc])

/-- Rounds of the pattern come before what is left of a text. -/
theorem exists_trimStartRounds (pat : Text) (n : Nat) (s : Text) :
    ∃ k, s = (List.replicate k pat).flatten ++ trimStartRounds pat n s := by
  induction n generalizing s with
  | zero => exact ⟨0, rfl⟩
  | succ n ih =>
    rw [trimStartRounds]
    split_ifs with hprefix
    · obtain ⟨rest, rfl⟩ := List.isPrefixOf_iff_prefix.mp hprefix
      obtain ⟨k, hk⟩ := ih rest
      refine ⟨k + 1, ?_⟩
      rw [List.drop_left, List.replicate_succ, List.flatten_cons, List.append_assoc, ← hk]
    · exact ⟨0, rfl⟩

/-- A text that does not start with the pattern keeps its start. -/
theorem trimStartRounds_eq {pat : Text} (h : ¬ pat <+: s) (n : Nat) :
    trimStartRounds pat n s = s := by
  cases n with
  | zero => rfl
  | succ n =>
    rw [trimStartRounds, if_neg]
    exact fun hprefix => h (List.isPrefixOf_iff_prefix.mp hprefix)

/-- All rounds of the pattern are removed. -/
theorem trimStartRounds_replicate {pat : Text} (h : ¬ pat <+: s) {k n : Nat} (hk : k ≤ n) :
    trimStartRounds pat n ((List.replicate k pat).flatten ++ s) = s := by
  induction k generalizing n with
  | zero => exact trimStartRounds_eq h n
  | succ k ih =>
    obtain ⟨n, rfl⟩ : ∃ m, n = m + 1 := ⟨n - 1, by omega⟩
    rw [List.replicate_succ, List.flatten_cons, List.append_assoc, trimStartRounds, if_pos]
    · rw [List.drop_left]
      exact ih (by omega)
    · exact List.isPrefixOf_iff_prefix.mpr (List.prefix_append _ _)

/-- A text between characters that do not match is not trimmed. -/
theorem trimMatches_between {first last : Char} (hfirst : p first = false)
    (hlast : p last = false) (s : Text) :
    trimMatches p (first :: (s ++ [last])) = first :: (s ++ [last]) := by
  have hreverse : (first :: (s ++ [last])).reverse = last :: (first :: s).reverse := by simp
  unfold trimMatches
  rw [List.dropWhile_cons_of_neg (by simp [hfirst]), hreverse,
    List.dropWhile_cons_of_neg (by simp [hlast]), ← hreverse, List.reverse_reverse]

end Cashbox.Lib.Text
