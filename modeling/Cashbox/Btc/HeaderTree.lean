import Cashbox.Lib.ParentChain
import Cashbox.Btc.HeaderCache

/-!
# What one header does to the tree

Inversion lemmas for `addHeader`: a header is known, refused, taken for a
genesis, or stored below its parent. Every later invariant is derived from these
cases. The tree invariant says that the known headers form a tree below the
genesis header, filed under their hashes and numbered by height; it makes the
search for the way back to the trunk succeed within its bound.
-/

namespace Cashbox.Btc

open Cashbox.Lib

variable {W : Type}

namespace HeaderCache

/-! ## The check of a header -/

/-- The header `addHeaderToTree` stores below `prev`, when the required target
computes and the header passes its proof of work. -/
def checkHeader (env : HeaderEnv W) (c : HeaderCache W) (prev : CachedHeader W)
    (next : BlockHeader) :
    Option (CachedHeader W) :=
  match c.requiredWork prev next, env.chainWork next prev.stored.log2work with
  | .ok required, some log2work =>
    if spvValidate (env.bitcoinHash next) next required = .ok () then
      some ⟨⟨next, prev.stored.height + 1, log2work⟩, env.bitcoinHash next⟩
    else none
  | _, _ => none

/-- A checked header carries the required target and proves its work. -/
theorem checkHeader_eq_some {env : HeaderEnv W} {c : HeaderCache W} {prev cached : CachedHeader W}
    {next : BlockHeader} (h : c.checkHeader env prev next = some cached) :
    (∃ required, c.requiredWork prev next = .ok required ∧
      spvValidate (env.bitcoinHash next) next required = .ok ()) ∧
    cached.stored.header = next ∧ cached.id = env.bitcoinHash next ∧
    cached.stored.height = prev.stored.height + 1 ∧
    env.chainWork next prev.stored.log2work = some cached.stored.log2work := by
  unfold checkHeader at h
  split at h
  · rename_i required log2work hreq hwork
    split_ifs at h with hspv
    cases h
    exact ⟨⟨required, hreq, hspv⟩, rfl, rfl, rfl, hwork⟩
  · cases h

section Cases

variable [LinearOrder W] {env : HeaderEnv W} {c : HeaderCache W}

/-- A checked header is stored. -/
theorem addHeaderToTree_of_checked {prev cached : CachedHeader W} {next : BlockHeader}
    (h : c.checkHeader env prev next = some cached) :
    c.addHeaderToTree env prev next = c.storeHeader prev cached := by
  unfold checkHeader at h
  unfold addHeaderToTree
  split at h
  · rename_i required log2work hreq hwork
    split_ifs at h with hspv
    cases h
    simp only [hreq, hwork, hspv]
  · cases h

/-- A header that fails the check is refused and changes nothing. -/
theorem addHeaderToTree_of_unchecked {prev : CachedHeader W} {next : BlockHeader}
    (h : c.checkHeader env prev next = none) :
    (c.addHeaderToTree env prev next).1 = c ∧
      ∀ added, (c.addHeaderToTree env prev next).2 ≠ .ok added := by
  unfold checkHeader at h
  unfold addHeaderToTree
  cases hreq : c.requiredWork prev next with
  | err e => simp
  | panic p => simp
  | ok required =>
    cases hwork : env.chainWork next prev.stored.log2work with
    | none => simp
    | some log2work =>
      simp only [hreq, hwork, ite_eq_right_iff, reduceCtorEq, imp_false] at h
      cases hspv : spvValidate (env.bitcoinHash next) next required with
      | ok u => exact absurd hspv h
      | err e => simp [hspv]
      | panic p => simp [hspv]

/-- What `addHeader` does with a header. -/
inductive AddCase (env : HeaderEnv W) (c : HeaderCache W) (header : BlockHeader) :
    HeaderCache W × Outcome Error (Option (Added W)) → Prop where
  /-- Known already: ignored. -/
  | known (hk : (c.headers (env.bitcoinHash header)).isSome) :
      AddCase env c header (c, .ok none)
  /-- Unconnected, or without the required proof of work: refused. -/
  | refused (result : Outcome Error (Option (Added W)))
      (hk : c.headers (env.bitcoinHash header) = none) (hres : ∀ x, result ≠ .ok x)
      (hchk : ∀ prev, header.prevBlockhash ≠ 0 → c.headers header.prevBlockhash = some prev →
        c.checkHeader env prev header = none)
      (hgen : header.prevBlockhash = 0 → env.genesisWork header = none) :
      AddCase env c header (c, result)
  /-- Unknown, with a zero previous hash: taken for a genesis. -/
  | genesis (log2work : W) (hk : c.headers (env.bitcoinHash header) = none)
      (hprev : header.prevBlockhash = 0) (hwork : env.genesisWork header = some log2work) :
      AddCase env c header
        ({ c.insert (env.bitcoinHash header) ⟨⟨header, 0, log2work⟩, env.bitcoinHash header⟩ with
            trunk := c.trunk ++ [env.bitcoinHash header] },
          .ok (some ⟨⟨⟨header, 0, log2work⟩, env.bitcoinHash header⟩, none,
            some [env.bitcoinHash header]⟩))
  /-- Checked below its parent: stored. -/
  | stored (prev cached : CachedHeader W) (hk : c.headers (env.bitcoinHash header) = none)
      (hprev : header.prevBlockhash ≠ 0) (hparent : c.headers header.prevBlockhash = some prev)
      (hchk : c.checkHeader env prev header = some cached) :
      AddCase env c header ((c.storeHeader prev cached).1,
        (c.storeHeader prev cached).2 >>= fun added => .ok (some added))

theorem addHeader_cases (env : HeaderEnv W) (c : HeaderCache W) (header : BlockHeader) :
    AddCase env c header (c.addHeader env header) := by
  unfold addHeader
  by_cases hk : (c.headers (env.bitcoinHash header)).isSome
  · -- it is known already
    rw [if_pos hk]
    exact .known hk
  · have hnone : c.headers (env.bitcoinHash header) = none := by
      simpa using hk
    rw [if_neg hk]
    by_cases hprev : header.prevBlockhash = 0
    · -- without a parent it can only be a genesis header
      rw [if_neg (not_not.mpr hprev)]
      cases hwork : env.genesisWork header with
      | none => exact .refused _ hnone (by simp) (fun _ h => absurd hprev h) (fun _ => hwork)
      | some log2work => exact .genesis log2work hnone hprev hwork
    · rw [if_pos hprev]
      cases hparent : c.headers header.prevBlockhash with
      | none =>
        -- an orphan
        refine .refused _ hnone (by simp) ?_ (fun h => absurd h hprev)
        intro prev _ h
        rw [hparent] at h
        cases h
      | some prev =>
        cases hchk : c.checkHeader env prev header with
        | some cached =>
          simp only [addHeaderToTree_of_checked hchk]
          exact .stored prev cached hnone hprev hparent hchk
        | none =>
          -- the check refuses it, whatever the tree has become
          obtain ⟨hc, hres⟩ := addHeaderToTree_of_unchecked hchk
          have hcase : AddCase env c header (c, (c.addHeaderToTree env prev header).2 >>=
              fun added => .ok (some added)) := by
            refine .refused _ hnone ?_ ?_ (fun h => absurd h hprev)
            · intro x hx
              obtain ⟨added, hadd, _⟩ := Outcome.bind_eq_ok.mp hx
              exact hres added hadd
            · intro prev' _ h
              rw [hparent] at h
              cases h
              exact hchk
          simpa only [hc] using hcase

end Cases

/-! ## The tree invariant -/

/-- The known headers form a tree below the header with hash `root`. -/
structure TreeOk (env : HeaderEnv W) (root : Sha256dHash) (c : HeaderCache W) : Prop where
  /-- Headers are filed under their hashes. -/
  filed : ∀ k h, c.headers k = some h → h.id = k ∧ env.bitcoinHash h.stored.header = k
  /-- The root is known, at height zero. -/
  root_known : ∃ h, c.headers root = some h ∧ h.stored.height = 0
  /-- Only the root has a zero previous hash. -/
  root_unique : ∀ k h, c.headers k = some h → h.stored.header.prevBlockhash = 0 → k = root
  /-- Every other known header has a known parent, one height below. -/
  parent : ∀ k h, c.headers k = some h → h.stored.header.prevBlockhash ≠ 0 →
    ∃ p, c.headers h.stored.header.prevBlockhash = some p ∧
      h.stored.height = p.stored.height + 1

/-- The tree invariant does not depend on the trunk. -/
theorem TreeOk.of_headers {env : HeaderEnv W} {root : Sha256dHash} {c c' : HeaderCache W}
    (h : TreeOk env root c) (heq : c'.headers = c.headers) : TreeOk env root c' := by
  obtain ⟨hfiled, hroot, hunique, hparent⟩ := h
  exact ⟨heq ▸ hfiled, heq ▸ hroot, heq ▸ hunique, heq ▸ hparent⟩

/-- Storing an unknown header below a known parent keeps the tree. -/
theorem TreeOk.insert {env : HeaderEnv W} {root : Sha256dHash} {c : HeaderCache W}
    (h : TreeOk env root c) {prev cached : CachedHeader W} {next : BlockHeader}
    (hk : c.headers (env.bitcoinHash next) = none) (hprev : next.prevBlockhash ≠ 0)
    (hparent : c.headers next.prevBlockhash = some prev)
    (hchk : c.checkHeader env prev next = some cached) :
    TreeOk env root (c.insert cached.id cached) := by
  obtain ⟨_, hheader, hid, hheight, _⟩ := checkHeader_eq_some hchk
  -- the new header takes no place of an old one
  have hold : ∀ k x, c.headers k = some x → (c.insert cached.id cached).headers k = some x := by
    intro k x hx
    rw [insert_headers_ne _ _ (fun he => by rw [he, hid, hk] at hx; cases hx), hx]
  have hcases : ∀ k x, (c.insert cached.id cached).headers k = some x →
      (k = cached.id ∧ x = cached) ∨ c.headers k = some x := by
    intro k x hx
    rw [insert_headers] at hx
    split_ifs at hx with hkid
    · exact .inl ⟨hkid, (Option.some.inj hx).symm⟩
    · exact .inr hx
  refine ⟨?_, ?_, ?_, ?_⟩
  · intro k x hx
    rcases hcases k x hx with ⟨rfl, rfl⟩ | hx
    · exact ⟨rfl, by rw [hheader, hid]⟩
    · exact h.filed k x hx
  · obtain ⟨r, hr, hr0⟩ := h.root_known
    exact ⟨r, hold _ _ hr, hr0⟩
  · intro k x hx hx0
    rcases hcases k x hx with ⟨rfl, rfl⟩ | hx
    · exact absurd (hheader ▸ hx0) hprev
    · exact h.root_unique k x hx hx0
  · intro k x hx hx0
    rcases hcases k x hx with ⟨rfl, rfl⟩ | hx
    · exact ⟨prev, hold _ _ (hheader ▸ hparent), hheight⟩
    · obtain ⟨p, hp, hph⟩ := h.parent k x hx hx0
      exact ⟨p, hold _ _ hp, hph⟩

/-! ## The way back to the trunk -/

/-- From a known header the path search reaches the trunk within its height. -/
theorem TreeOk.pathToNewTip {env : HeaderEnv W} {root : Sha256dHash} {c : HeaderCache W}
    (h : TreeOk env root c) (hroot : root ∈ c.trunk) {fuel : Nat} {k : Sha256dHash}
    {x : CachedHeader W} (hx : c.headers k = some x) (hfuel : x.stored.height ≤ fuel)
    (path : List Sha256dHash) :
    ∃ forksAt path', c.pathToNewTip fuel k path = .ok (forksAt, path') ∧ forksAt ∈ c.trunk := by
  induction fuel generalizing k x path with
  | zero =>
    by_cases hmem : k ∈ c.trunk
    · refine ⟨k, path, ?_, hmem⟩
      have hpos : c.posOnTrunk k ≠ none := fun hn => posOnTrunk_eq_none.mp hn hmem
      simp [HeaderCache.pathToNewTip, hpos]
    · -- only the root has height zero
      have hzero : x.stored.header.prevBlockhash = 0 := by
        by_contra hne
        obtain ⟨p, _, hp⟩ := h.parent k x hx hne
        omega
      exact absurd (h.root_unique k x hx hzero ▸ hroot) hmem
  | succ fuel ih =>
    by_cases hmem : k ∈ c.trunk
    · refine ⟨k, path, ?_, hmem⟩
      have hpos : c.posOnTrunk k ≠ none := fun hn => posOnTrunk_eq_none.mp hn hmem
      rw [HeaderCache.pathToNewTip]
      simp [hpos]
    · have hne : x.stored.header.prevBlockhash ≠ 0 :=
        fun h0 => hmem (h.root_unique k x hx h0 ▸ hroot)
      -- one step down the tree, with less fuel
      obtain ⟨p, hp, hph⟩ := h.parent k x hx hne
      obtain ⟨forksAt, path', hpath, hfork⟩ :=
        ih hp (by omega) (path ++ [x.stored.header.prevBlockhash])
      refine ⟨forksAt, path', ?_, hfork⟩
      rw [HeaderCache.pathToNewTip]
      simp [posOnTrunk_eq_none.mpr hmem, hx, hpath]

/-- A trunk entry has a position from the end. -/
theorem rposition_of_mem {c : HeaderCache W} {k : Sha256dHash} (hk : k ∈ c.trunk) :
    ∃ pos, c.rposition k = some pos := by
  apply Option.isSome_iff_exists.mp
  simp [rposition, hk]

/-- Moving the tip succeeds, keeps the first trunk entry, changes only the trunk
and makes the new header its last entry. -/
theorem TreeOk.moveTip {env : HeaderEnv W} {root : Sha256dHash} {c : HeaderCache W}
    (h : TreeOk env root c) (hroot : c.trunk.head? = some root) {prev cached : CachedHeader W}
    (hprev : c.headers cached.stored.header.prevBlockhash = some prev) :
    ∃ front added, c.moveTip prev cached = ({ c with trunk := front ++ [cached.id] }, .ok added) ∧
      front.head? = some root := by
  have hmem : root ∈ c.trunk := List.mem_of_head? hroot
  obtain ⟨forksAt, path, hpath, hfork⟩ :=
    h.pathToNewTip hmem hprev (Nat.le_add_right prev.stored.height 2) []
  obtain ⟨pos, hpos⟩ := rposition_of_mem hfork
  unfold HeaderCache.moveTip
  simp only [hpath, hpos]
  by_cases hne : forksAt ≠ cached.stored.header.prevBlockhash
  · rw [if_pos hne]
    refine ⟨c.trunk.take (pos + 1) ++ path.reverse, _, by rw [List.append_assoc], ?_⟩
    -- at least one entry of the old trunk stays
    rw [List.head?_append, List.head?_take, if_neg (Nat.succ_ne_zero pos), hroot]
    rfl
  · rw [if_neg hne]
    refine ⟨c.trunk ++ path.reverse, _, by rw [List.append_assoc], ?_⟩
    rw [List.head?_append, hroot]
    rfl

end HeaderCache

end Cashbox.Btc
