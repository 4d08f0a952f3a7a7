import Cashbox.Btc.HeaderCache
import Cashbox.Lib.Strides

/-!
# The block locator

A locator lists hashes of the trunk from the tip down, the first twelve without a gap and then at
distances that double. So wherever the chain of a peer forks off, a hash is listed that is at most
twice as deep. The distance is a signed word of 32 bits, which limits the trunk.
-/

namespace Cashbox.Btc

open Cashbox.Lib

variable {W : Type}

namespace HeaderCache

/-! ## What a locator is for -/

/-- The heights of a locator of a trunk with this tip. -/
structure CoversForks (tip : Nat) (heights : List Nat) : Prop where
  fromTip : heights.head? = some tip
  descends : heights.Pairwise (· > ·)
  few : heights.length ≤ 12 + Nat.log2 (tip + 1)
  /-- A peer that forks off here answers from at most twice as deep. -/
  covers : ∃ lowest, heights.getLast? = some lowest ∧ 2 * lowest ≤ tip ∧
    ∀ fork, lowest ≤ fork → fork ≤ tip →
      ∃ g ∈ heights, g ≤ fork ∧ tip - g ≤ 2 * (tip - fork)

/-- The countdown does not underflow, and the hashes are those of the trunk at such heights. -/
structure LocatorOk (c : HeaderCache W) : Prop where
  countdown : ∀ seen, seen <+: c.trunk.reverse →
    ∃ locator skip count s, locatorWalk seen = .ok (locator, skip, count, s) ∧ 0 ≤ s
  covers : ∃ locator heights, c.locatorHashes = .ok locator ∧
    locator.map some = heights.map (c.trunk[·]?) ∧ CoversForks (c.trunk.length - 1) heights

/-! ## Strides -/

/-- The distance from the entry with this number to the next. -/
def stride (k : Nat) : Nat := 2 ^ (k - 10)

theorem stride_pos (k : Nat) : 0 < stride k := Nat.two_pow_pos _

theorem stride_succ (k : Nat) : stride (k + 1) = if 10 < k + 1 then stride k * 2 else stride k := by
  unfold stride
  split_ifs with hk
  · rw [← Nat.pow_succ]
    congr 1
    omega
  · congr 1
    omega

theorem stride_le (k : Nat) : stride k ≤ mark stride k + 1 := by
  induction k with
  | zero => exact Nat.le_refl 1
  | succ k ih =>
    have hsucc := stride_succ k
    rw [mark_succ]
    split_ifs at hsucc <;> omega

/-- From the twelfth entry on the distances add up to a power of two. -/
theorem mark_stride (k : Nat) : mark stride (k + 11) = 9 + 2 ^ (k + 1) := by
  induction k with
  | zero => rfl
  | succ k ih =>
    rw [show k + 1 + 11 = k + 11 + 1 from rfl, mark_succ, ih, stride,
      show k + 11 - 10 = k + 1 from rfl, Nat.pow_succ 2 (k + 1)]
    omega

/-- The longest trunk. -/
def longestTrunk : Nat := 2 ^ 30 + 9

theorem mark_forty : mark stride 40 = longestTrunk := mark_stride 29

/-! ## The walk -/

theorem i32_of_le {overflow : Panic} {x : Nat} (h : x < 2 ^ 31) :
    i32 overflow (x : Int) = .ok (x : Int) :=
  if_pos ⟨by omega, by omega⟩

/-- After these hashes `k` are collected, and the next mark is the countdown away. -/
structure Walked (seen : List Sha256dHash) (k : Nat) (st : LocatorState) : Prop where
  skip : st.2.1 = (stride k : Nat)
  count : st.2.2.1 = k
  countdown : st.2.2.2 = (mark stride k - seen.length : Nat)
  ahead : seen.length ≤ mark stride k
  passed : ∀ j < k, mark stride j < seen.length
  locator : st.1.map some = (List.range k).map fun j => seen[mark stride j]?

theorem walked_nil : Walked [] 0 ([], 1, 0, 0) where
  skip := rfl
  count := rfl
  countdown := rfl
  ahead := Nat.le_refl 0
  passed _ hj := nomatch hj
  locator := rfl

/-- The entries collected do not change when the walk goes on. -/
theorem map_getElem_concat {seen : List Sha256dHash} {k : Nat}
    (hpassed : ∀ j < k, mark stride j < seen.length) (h : Sha256dHash) :
    ((List.range k).map fun j => (seen ++ [h])[mark stride j]?) =
      (List.range k).map fun j => seen[mark stride j]? := by
  apply List.map_congr_left
  intro j hj
  rw [List.getElem?_append_left (hpassed j (List.mem_range.mp hj))]

theorem stride_lt {k : Nat} (hk : k ≤ 40) : stride k < 2 ^ 31 :=
  Nat.pow_lt_pow_right (by omega) (by omega)

/-- At a mark the hash is collected. -/
theorem Walked.collect {seen : List Sha256dHash} {k : Nat} {locator : List Sha256dHash}
    {skip count s : Int} (hw : Walked seen k (locator, skip, count, s))
    (hmark : mark stride k = seen.length) (hk : k < 40) (h : Sha256dHash) :
    ∃ st', locatorStep (locator, skip, count, s) h = .ok st' ∧
      Walked (seen ++ [h]) (k + 1) st' := by
  have hskip : skip = (stride k : Nat) := hw.skip
  have hcount : count = k := hw.count
  -- the countdown is over, which is what a mark is
  have hs : s = 0 := by
    have hs : s = (mark stride k - seen.length : Nat) := hw.countdown
    rw [hs, hmark, Nat.sub_self]
    rfl
  have hnumber : i32 .addOverflow (count + 1) = .ok ((k + 1 : Nat) : Int) := by
    have hfit : k + 1 < 2 ^ 31 := by omega
    rw [hcount]
    exact i32_of_le hfit
  -- from the tenth entry on the stride doubles, which fits up to the fortieth
  have hnext : nextSkip skip ((k + 1 : Nat) : Int) = .ok ((stride (k + 1) : Nat) : Int) := by
    have hsucc := stride_succ k
    unfold nextSkip
    split_ifs with hten
    · rw [if_pos (by omega)] at hsucc
      have hfit := stride_lt (k := k + 1) hk
      rw [hskip, hsucc, Nat.cast_mul]
      rw [hsucc] at hfit
      exact i32_of_le hfit
    · rw [if_neg (by omega)] at hsucc
      rw [hskip, hsucc]
  have hcountdown : i32 .subOverflow (skip - 1) = .ok ((stride k - 1 : Nat) : Int) := by
    have hfit := stride_lt hk.le
    rw [hskip, ← Nat.cast_pred (stride_pos k)]
    exact i32_of_le (by omega)
  refine ⟨(locator ++ [h], ((stride (k + 1) : Nat) : Int), ((k + 1 : Nat) : Int),
    ((stride k - 1 : Nat) : Int)), ?_, ?_⟩
  · show (if s = 0 then _ else _) = _
    rw [if_pos hs, hnumber, Outcome.ok_bind, hnext, Outcome.ok_bind, hcountdown, Outcome.ok_bind]
  · have hsucc : mark stride (k + 1) = seen.length + stride k := by rw [mark_succ, hmark]
    have hlength : (seen ++ [h]).length = seen.length + 1 := List.length_append
    have hpos := stride_pos k
    refine ⟨rfl, rfl, ?_, ?_, ?_, ?_⟩
    · rw [hsucc, hlength]
      show ((stride k - 1 : Nat) : Int) = _
      congr 1
      omega
    · omega
    · intro j hj
      rcases Nat.lt_succ_iff_lt_or_eq.mp hj with hlt | rfl
      · have hpassed := hw.passed j hlt
        omega
      · omega
    · show (locator ++ [h]).map some = _
      rw [List.range_succ, List.map_append, List.map_append, map_getElem_concat hw.passed,
        List.map_singleton, List.map_singleton, hmark, List.getElem?_concat_length]
      exact congrArg (· ++ [some h]) hw.locator

/-- Between the marks the countdown runs. -/
theorem Walked.skip_one {seen : List Sha256dHash} {k : Nat} {locator : List Sha256dHash}
    {skip count s : Int} (hw : Walked seen k (locator, skip, count, s))
    (hmark : seen.length < mark stride k) (hlen : seen.length < longestTrunk) (h : Sha256dHash) :
    ∃ st', locatorStep (locator, skip, count, s) h = .ok st' ∧
      Walked (seen ++ [h]) k st' := by
  have hs : s = (mark stride k - seen.length : Nat) := hw.countdown
  have hlength : (seen ++ [h]).length = seen.length + 1 := List.length_append
  -- the stride that leads to the mark is no longer than the way before it
  have hnear : mark stride k ≤ 2 * seen.length := by
    cases k with
    | zero => exact absurd hmark (Nat.not_lt_zero _)
    | succ j =>
      have hbefore := hw.passed j (Nat.lt_succ_self j)
      have hle := stride_le j
      rw [mark_succ]
      omega
  have hcountdown : i32 .subOverflow (s - 1) =
      .ok ((mark stride k - (seen ++ [h]).length : Nat) : Int) := by
    have hpred : s - 1 = ((mark stride k - (seen ++ [h]).length : Nat) : Int) := by omega
    rw [hpred]
    unfold longestTrunk at hlen
    exact i32_of_le (by omega)
  refine ⟨(locator, skip, count, ((mark stride k - (seen ++ [h]).length : Nat) : Int)), ?_,
    hw.skip, hw.count, rfl, ?_, ?_, ?_⟩
  · show (if s = 0 then _ else _) = _
    rw [if_neg (by omega), hcountdown, Outcome.ok_bind]
  · omega
  · intro j hj
    have hpassed := hw.passed j hj
    omega
  · rw [map_getElem_concat hw.passed]
    exact hw.locator

/-- One hash more, while the stride fits its word. -/
theorem Walked.step {seen : List Sha256dHash} {k : Nat} {st : LocatorState}
    (hw : Walked seen k st) (hlen : seen.length < longestTrunk) (h : Sha256dHash) :
    ∃ k' st', locatorStep st h = .ok st' ∧ Walked (seen ++ [h]) k' st' := by
  rcases Nat.eq_or_lt_of_le hw.ahead with hmark | hmark
  · have hk : k < 40 := by
      apply (strictMono_mark stride_pos).lt_iff_lt.mp
      rw [← hmark, mark_forty]
      exact hlen
    exact ⟨k + 1, hw.collect hmark.symm hk h⟩
  · exact ⟨k, hw.skip_one hmark hlen h⟩

/-- **Walks**: no trunk that is not too long makes the walk overflow. -/
theorem exists_walked (hashes : List Sha256dHash) (hlen : hashes.length ≤ longestTrunk) :
    ∃ k st, locatorWalk hashes = .ok st ∧ Walked hashes k st := by
  induction hashes using List.reverseRecOn with
  | nil => exact ⟨0, _, rfl, walked_nil⟩
  | append_singleton seen h ih =>
    rw [List.length_append, List.length_singleton] at hlen
    obtain ⟨k, st, hrun, hw⟩ := ih (by omega)
    obtain ⟨k', st', hstep, hw'⟩ := hw.step (by omega) h
    refine ⟨k', st', ?_, hw'⟩
    unfold locatorWalk at hrun ⊢
    rw [List.foldlM_append, hrun, Outcome.ok_bind, List.foldlM_cons, hstep]
    rfl

/-- At the fortieth mark the stride no longer doubles. -/
theorem locatorWalk_of_lt {hashes : List Sha256dHash} (hlen : longestTrunk < hashes.length) :
    locatorWalk hashes = .panic .mulOverflow := by
  obtain ⟨seen, h, rest, rfl, hseen⟩ : ∃ seen h rest, hashes = seen ++ h :: rest ∧
      seen.length = longestTrunk := by
    refine ⟨hashes.take longestTrunk, hashes[longestTrunk], hashes.drop (longestTrunk + 1), ?_, ?_⟩
    · rw [List.getElem_cons_drop, List.take_append_drop]
    · exact List.length_take_of_le hlen.le
  obtain ⟨k, ⟨locator, skip, count, s⟩, hrun, hw⟩ := exists_walked seen hseen.le
  have hmono := strictMono_mark stride_pos
  have hk : k = 40 := by
    apply Nat.le_antisymm
    · by_contra hlt
      have hpassed := hw.passed 40 (Nat.not_le.mp hlt)
      rw [mark_forty, hseen] at hpassed
      exact lt_irrefl _ hpassed
    · apply hmono.le_iff_le.mp
      rw [mark_forty, ← hseen]
      exact hw.ahead
  subst hk
  have hskip : skip = (stride 40 : Nat) := hw.skip
  have hcount : count = 40 := hw.count
  have hs : s = 0 := by
    have hs : s = (mark stride 40 - seen.length : Nat) := hw.countdown
    rw [hs, mark_forty, hseen, Nat.sub_self]
    rfl
  have hstep : locatorStep (locator, skip, count, s) h = .panic .mulOverflow := by
    rw [hskip, hcount, hs]
    rfl
  unfold locatorWalk at hrun ⊢
  rw [List.foldlM_append, hrun, Outcome.ok_bind, List.foldlM_cons, hstep]
  rfl

/-! ## Coverage -/

/-- The heights at these many marks below a tip. -/
def markHeights (tip k : Nat) : List Nat := (List.range k).map fun j => tip - mark stride j

/-- The marks up to the tip cover every fork. -/
theorem coversForks_markHeights {tip k : Nat} (hahead : tip < mark stride k)
    (hpassed : ∀ j < k, mark stride j ≤ tip) : CoversForks tip (markHeights tip k) := by
  have hmono := strictMono_mark stride_pos
  obtain ⟨i, rfl⟩ : ∃ i, k = i + 1 := by
    cases k with
    | zero => exact absurd hahead (Nat.not_lt_zero _)
    | succ i => exact ⟨i, rfl⟩
  have hnext : mark stride (i + 1) ≤ 2 * mark stride i + 1 := by
    have hle := stride_le i
    rw [mark_succ]
    omega
  refine ⟨?_, ?_, ?_, ?_⟩
  · rw [markHeights, List.range_succ_eq_map]
    rfl
  · unfold markHeights
    rw [List.pairwise_map]
    apply List.pairwise_lt_range.imp_of_mem
    intro a b ha hb hab
    have hlt := hmono hab
    have hb := hpassed b (List.mem_range.mp hb)
    show tip - mark stride b < tip - mark stride a
    omega
  · -- the last mark is a power of two and nine
    rw [markHeights, List.length_map, List.length_range]
    by_cases hfew : i ≤ 11
    · omega
    · obtain ⟨j, rfl⟩ : ∃ j, i = j + 11 := ⟨i - 11, by omega⟩
      have hlast := hpassed (j + 11) (Nat.lt_succ_self _)
      rw [mark_stride] at hlast
      have hlog : j + 1 ≤ Nat.log2 (tip + 1) := by
        rw [Nat.le_log2 (Nat.succ_ne_zero tip)]
        omega
      omega
  · refine ⟨tip - mark stride i, ?_, by omega, fun fork hlow hfork => ?_⟩
    · rw [markHeights, List.range_succ, List.map_append]
      exact List.getLast?_concat
    · have hlast := hpassed i (Nat.lt_succ_self i)
      obtain ⟨j, hj, hdeep, htwice⟩ := exists_mark_le_twice stride_pos stride_le
        (d := tip - fork) (k := i) (by omega)
      refine ⟨tip - mark stride j, ?_, by omega, by omega⟩
      exact List.mem_map_of_mem (List.mem_range.mpr (Nat.lt_succ_of_le hj))

/-! ## The locator of a trunk -/

theorem locatorOk_of_le {c : HeaderCache W} (hpos : 0 < c.trunk.length)
    (hlen : c.trunk.length ≤ longestTrunk) : LocatorOk c := by
  obtain ⟨tip, htip⟩ : ∃ tip, c.trunk.length = tip + 1 := ⟨c.trunk.length - 1, by omega⟩
  have hlength : c.trunk.reverse.length = tip + 1 := by rw [List.length_reverse, htip]
  refine ⟨fun seen hseen => ?_, ?_⟩
  · have hle := hseen.length_le
    obtain ⟨k, ⟨locator, skip, count, s⟩, hrun, hw⟩ := exists_walked seen (by omega)
    have hs : s = (mark stride k - seen.length : Nat) := hw.countdown
    exact ⟨locator, skip, count, s, hrun, by omega⟩
  · obtain ⟨k, ⟨locator, skip, count, s⟩, hrun, hw⟩ := exists_walked c.trunk.reverse (by omega)
    have hahead : c.trunk.reverse.length ≤ mark stride k := hw.ahead
    have hpassed : ∀ j < k, mark stride j < tip + 1 := hlength ▸ hw.passed
    refine ⟨locator, markHeights tip k, ?_, ?_, ?_⟩
    · unfold locatorHashes
      rw [hrun]
      rfl
    · -- what is that deep below the tip is at that height of the trunk
      rw [hw.locator, markHeights, List.map_map]
      apply List.map_congr_left
      intro j hj
      have hlt := hpassed j (List.mem_range.mp hj)
      rw [List.getElem?_reverse (by omega), Function.comp_apply]
      congr 1
      omega
    · rw [htip]
      exact coversForks_markHeights (by omega) fun j hj => Nat.le_of_lt_succ (hpassed j hj)

/-- **The block locator**: the locator of a trunk is collected and covers every fork exactly if the
trunk is no longer than what the strides of 32 bits walk over. -/
theorem locatorOk_iff (c : HeaderCache W) (hpos : 0 < c.trunk.length) :
    LocatorOk c ↔ c.trunk.length ≤ longestTrunk := by
  constructor
  · rintro ⟨-, locator, heights, hrun, -⟩
    by_contra hlt
    have hlength : longestTrunk < c.trunk.reverse.length := by
      rw [List.length_reverse]
      exact Nat.not_le.mp hlt
    unfold locatorHashes at hrun
    rw [locatorWalk_of_lt hlength] at hrun
    cases hrun
  · exact locatorOk_of_le hpos

/-- A cache with this trunk. -/
def ofTrunk (trunk : List Sha256dHash) : HeaderCache Unit :=
  { new .regtest with trunk }

/-- A trunk of forty headers, the hash of each its height. -/
def fortyTrunk : HeaderCache Unit := ofTrunk ((List.range 40).map (BitVec.ofNat 256))

/-- Its locator lists twelve headers without a gap, and then the steps double. -/
theorem locatorOk_forty :
    LocatorOk fortyTrunk ∧
      fortyTrunk.locatorHashes = .ok [39, 38, 37, 36, 35, 34, 33, 32, 31, 30, 29, 28, 26, 22, 14] :=
  ⟨(locatorOk_iff fortyTrunk (by decide)).mpr (by decide), by decide +kernel⟩

/-- With one header more the stride overflows. -/
theorem not_locatorOk_of_longer :
    ¬ LocatorOk (ofTrunk (List.replicate (longestTrunk + 1) 0)) := by
  rintro ⟨-, locator, heights, hrun, -⟩
  have hlength : longestTrunk <
      (ofTrunk (List.replicate (longestTrunk + 1) 0)).trunk.reverse.length := by
    show longestTrunk < (List.replicate (longestTrunk + 1) (0 : Sha256dHash)).reverse.length
    rw [List.length_reverse, List.length_replicate]
    exact Nat.lt_succ_self _
  unfold locatorHashes at hrun
  rw [locatorWalk_of_lt hlength] at hrun
  cases hrun

end HeaderCache

end Cashbox.Btc
