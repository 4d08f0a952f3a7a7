import Cashbox.Btc.Trunk

/-!
# A cache that only knows the trunk

After a restart the known headers are those on the trunk. What the check of a header
reads is on the trunk whenever the parent of the header is, so a header below the trunk
is accepted or refused as it would be with all headers known: new ones by the same
computation, and those known besides the trunk because they passed it before.
-/

namespace Cashbox.Btc

open Cashbox.Lib

variable {W : Type}

namespace HeaderCache

variable {env : HeaderEnv W} {root : Sha256dHash} {c c' : HeaderCache W}

/-! ## The check of a header below the trunk -/

/-- The parent of a trunk entry that is not the first is on the trunk, below the tip. -/
theorem ChainInv.parent_mem (h : ChainInv env root c) {k : Sha256dHash} {x : CachedHeader W}
    (hk : k ∈ c.trunk) (hx : c.headers k = some x) (h0 : x.stored.height ≠ 0) :
    x.stored.header.prevBlockhash ∈ c.trunk ∧ c.tipHash ≠ some x.stored.header.prevBlockhash ∧
      ∃ p, c.headers x.stored.header.prevBlockhash = some p ∧
        x.stored.height = p.stored.height + 1 := by
  obtain ⟨i, hi, rfl⟩ := List.mem_iff_getElem.mp hk
  have hheight : x.stored.height = i := h.height_getElem hi hx
  obtain ⟨j, rfl⟩ : ∃ j, i = j + 1 := ⟨i - 1, by omega⟩
  obtain ⟨hne, y, hy, hprev⟩ := parentOf_eq_some.mp (h.chain.parent_getElem hi)
  obtain rfl : x = y := Option.some.inj (hx.symm.trans hy)
  refine ⟨hprev ▸ List.getElem_mem _, ?_, h.tree.parent _ x hx (hprev ▸ hne)⟩
  -- the tip is the last entry, and no entry occurs twice
  rw [hprev, tipHash, List.getLast?_eq_getElem?]
  intro hlast
  obtain ⟨hl, heq⟩ := List.getElem?_eq_some_iff.mp hlast
  have hidx := (h.nodup.getElem_inj_iff).mp heq
  omega

/-- The trunk of `c` is the first part of the trunk of `c'`, with the same headers. -/
structure Extends (c c' : HeaderCache W) : Prop where
  network : c'.network = c.network
  trunk : c.trunk <+: c'.trunk
  headers : ∀ k ∈ c.trunk, c'.headers k = c.headers k

theorem scanBack_of_extends (h : ChainInv env root c) (he : Extends c c') {n : Nat}
    {k : Sha256dHash} {x : CachedHeader W} (hk : k ∈ c.trunk) (hx : c.headers k = some x)
    (hn : n ≤ x.stored.height) : c'.scanBack n x = c.scanBack n x := by
  induction n generalizing k x with
  | zero => rfl
  | succ n ih =>
    obtain ⟨hmem, _, p, hp, hheight⟩ := h.parent_mem hk hx (by omega)
    simp only [scanBack, he.headers _ hmem, hp]
    exact ih hmem hp (by omega)

theorem scanTestnet_of_extends (h : ChainInv env root c) (he : Extends c c') {fuel : Nat}
    {k : Sha256dHash} {x : CachedHeader W} (hk : k ∈ c.trunk) (hx : c.headers k = some x)
    (height : Nat) : c'.scanTestnet fuel x height = c.scanTestnet fuel x height := by
  induction fuel generalizing k x height with
  | zero => rw [scanTestnet, scanTestnet]
  | succ fuel ih =>
    rw [scanTestnet, scanTestnet]
    split_ifs with hscan
    · obtain ⟨_, _, hparent⟩ := h.tree.parent k x hx hscan.2.1
      obtain ⟨hmem, _, p, hp, _⟩ := h.parent_mem hk hx (by omega)
      simp only [he.headers _ hmem, hp]
      exact ih hmem hp _
    · rfl

/-- A retarget below a trunk entry measures from the same header: the entry is not a
child of the tip, so it walks back. -/
theorem retargetScan_of_extends (h : ChainInv env root c) (h' : ChainInv env root c')
    (he : Extends c c') {k : Sha256dHash} {prev : CachedHeader W} (hk : k ∈ c.trunk)
    (hprev : c.headers k = some prev) (hheight : diffchangeInterval - 1 ≤ prev.stored.height) :
    c'.retargetScan prev = c.retargetScan prev := by
  have h0 : prev.stored.height ≠ 0 := by
    have hpos : 0 < diffchangeInterval - 1 := by decide
    omega
  have hk' : k ∈ c'.trunk := he.trunk.subset hk
  have hprev' : c'.headers k = some prev := (he.headers k hk).trans hprev
  rw [retargetScan, retargetScan, if_neg (h.parent_mem hk hprev h0).2.1,
    if_neg (h'.parent_mem hk' hprev' h0).2.1]
  exact scanBack_of_extends h he hk hprev hheight

/-- The target required below a trunk entry does not change when the trunk grows. -/
theorem requiredWork_of_extends (h : ChainInv env root c) (h' : ChainInv env root c')
    (he : Extends c c') {k : Sha256dHash} {prev : CachedHeader W} (hk : k ∈ c.trunk)
    (hprev : c.headers k = some prev) (next : BlockHeader) :
    c'.requiredWork prev next = c.requiredWork prev next := by
  unfold requiredWork
  by_cases hlt : prev.stored.height + 1 < 2 ^ 32
  · rw [checkedAdd_of_lt hlt, Outcome.ok_bind, Outcome.ok_bind, he.network,
      scanTestnet_of_extends h he hk hprev]
    by_cases hdiff : (prev.stored.height + 1) % diffchangeInterval = 0
    · have hheight : diffchangeInterval - 1 ≤ prev.stored.height := by
        have hle := Nat.le_of_dvd (Nat.succ_pos _) (Nat.dvd_of_mod_eq_zero hdiff)
        omega
      rw [retargetScan_of_extends h h' he hk hprev hheight]
    · rw [if_neg hdiff, if_neg hdiff]
  · rw [checkedAdd_of_le (not_lt.mp hlt)]
    rfl

theorem checkHeader_of_extends (h : ChainInv env root c) (h' : ChainInv env root c')
    (he : Extends c c') {k : Sha256dHash} {prev : CachedHeader W} (hk : k ∈ c.trunk)
    (hprev : c.headers k = some prev) (next : BlockHeader) :
    c'.checkHeader env prev next = c.checkHeader env prev next := by
  rw [checkHeader, checkHeader, requiredWork_of_extends h h' he hk hprev]

theorem extends_insert (h : ChainInv env root c) {x : CachedHeader W}
    (hk : c.headers x.id = none) {trunk : List Sha256dHash} (ht : c.trunk <+: trunk) :
    Extends c { c.insert x.id x with trunk := trunk } := by
  refine ⟨rfl, ht, ?_⟩
  intro k hmem
  obtain ⟨y, hy⟩ := h.known hmem
  refine insert_headers_ne c x ?_
  rintro rfl
  rw [hk] at hy
  cases hy

/-! ## A cache that only knows the trunk -/

/-- Headers besides the trunk whose parent is on it passed the check that they would
pass now. -/
def SidesChecked (env : HeaderEnv W) (c : HeaderCache W) : Prop :=
  ∀ k x p, c.headers k = some x → k ∉ c.trunk → x.stored.header.prevBlockhash ∈ c.trunk →
    c.headers x.stored.header.prevBlockhash = some p →
    c.checkHeader env p x.stored.header = some x

/-- The cache after a restart: the same trunk, and of the headers those on it. -/
structure OnlyTrunk (c c' : HeaderCache W) : Prop where
  network : c'.network = c.network
  trunk : c'.trunk = c.trunk
  headers : ∀ k, c'.headers k = if k ∈ c.trunk then c.headers k else none

namespace OnlyTrunk

theorem headers_of_mem (ho : OnlyTrunk c c') {k : Sha256dHash} (hk : k ∈ c.trunk) :
    c'.headers k = c.headers k := by
  rw [ho.headers, if_pos hk]

theorem of_headers (ho : OnlyTrunk c c') {k : Sha256dHash} {x : CachedHeader W}
    (hx : c'.headers k = some x) : k ∈ c.trunk ∧ c.headers k = some x := by
  rw [ho.headers] at hx
  split_ifs at hx with hk
  exact ⟨hk, hx⟩

theorem toExtends (ho : OnlyTrunk c c') : Extends c c' :=
  ⟨ho.network, by rw [ho.trunk], fun _ hk => ho.headers_of_mem hk⟩

theorem tip (ho : OnlyTrunk c c') : c'.tip = c.tip := by
  simp only [HeaderCache.tip, tipHash, getHeader, ho.trunk]
  cases hlast : c.trunk.getLast? with
  | none => rfl
  | some k => exact ho.headers_of_mem (List.mem_of_getLast? hlast)

theorem getHeaderForHeight (ho : OnlyTrunk c c') (height : Nat) :
    c'.getHeaderForHeight height = c.getHeaderForHeight height := by
  simp only [HeaderCache.getHeaderForHeight, ho.trunk]
  cases hk : c.trunk[height]? with
  | none => rfl
  | some k => simp only [ho.headers_of_mem (List.mem_of_getElem? hk)]

/-- The trunk is a chain of the headers that are left. -/
theorem chainInv (ho : OnlyTrunk c c') (h : ChainInv env root c) : ChainInv env root c' := by
  have hroot : root ∈ c.trunk := h.chain.root_mem
  refine ⟨⟨?_, ?_, ?_, ?_⟩, ?_⟩
  · intro k x hx
    exact h.tree.filed k x (ho.of_headers hx).2
  · obtain ⟨r, hr, hr0⟩ := h.tree.root_known
    exact ⟨r, (ho.headers_of_mem hroot).trans hr, hr0⟩
  · intro k x hx hx0
    exact h.tree.root_unique k x (ho.of_headers hx).2 hx0
  · intro k x hx hx0
    obtain ⟨hk, hx⟩ := ho.of_headers hx
    obtain ⟨p, hp, hheight⟩ := h.tree.parent k x hx hx0
    obtain ⟨hmem, _, _⟩ := h.parent_mem hk hx (by omega)
    exact ⟨p, (ho.headers_of_mem hmem).trans hp, hheight⟩
  · rw [ho.trunk]
    refine h.chain.congr ?_
    intro a ha
    simp only [parentOf, ho.headers_of_mem ha]

/-- Nothing is known besides the trunk. -/
theorem sidesChecked (ho : OnlyTrunk c c') : SidesChecked env c' := by
  intro k x p hx hside
  exact absurd (ho.trunk ▸ (ho.of_headers hx).1) hside

end OnlyTrunk

/-! ## Headers that keep the trunk a chain -/

section Step

variable [LinearOrder W]

/-- The header is known, or it is no second genesis and, when it moves the tip, extends
it. -/
def KeepsTrunk (env : HeaderEnv W) (c : HeaderCache W) (header : BlockHeader) : Prop :=
  (c.headers (env.bitcoinHash header)).isSome ∨
    if header.prevBlockhash = 0 then env.genesisWork header = none
    else c.MovesTip env header → c.tipHash = some header.prevBlockhash

instance [DecidableEq W] (c : HeaderCache W) (header : BlockHeader) :
    Decidable (c.KeepsTrunk env header) := by
  unfold KeepsTrunk
  infer_instance

/-- What a header that keeps the trunk a chain does: nothing, or it is stored below its
parent, and appended to the trunk when it moves the tip. -/
inductive KeepsCase (env : HeaderEnv W) (c : HeaderCache W) (header : BlockHeader) : Prop where
  | nothing (hsame : (c.addHeader env header).1 = c)
      (hres : ∀ added, (c.addHeader env header).2 ≠ .ok (some added))
  | side (prev cached : CachedHeader W) (hk : c.headers cached.id = none)
      (hid : cached.id = env.bitcoinHash cached.stored.header)
      (hparent : c.headers header.prevBlockhash = some prev)
      (hchk : c.checkHeader env prev header = some cached)
      (hadd : c.addHeader env header =
        (c.insert cached.id cached, .ok (some ⟨cached, none, none⟩)))
  | tip (cached : CachedHeader W) (hk : c.headers cached.id = none)
      (hid : cached.id = env.bitcoinHash cached.stored.header)
      (hadd : c.addHeader env header =
        ({ c.insert cached.id cached with trunk := c.trunk ++ [cached.id] },
          .ok (some ⟨cached, none, some [cached.id]⟩)))

theorem ChainInv.keepsCase (h : ChainInv env root c) {header : BlockHeader}
    (hok : c.KeepsTrunk env header) : KeepsCase env c header := by
  by_cases hnew : c.headers (env.bitcoinHash header) = none ∧ header.prevBlockhash ≠ 0 ∧
      c.MovesTip env header
  · -- a new header that moves the tip extends it
    obtain ⟨hk, hprev, hmoves⟩ := hnew
    simp only [KeepsTrunk, hk, Option.isSome_none, Bool.false_eq_true, hprev, if_false,
      false_or] at hok
    obtain ⟨cached, hadd, hid, hheader, _, _⟩ :=
      h.addHeader_of_extends hk hprev hmoves (hok hmoves)
    exact .tip cached (hid ▸ hk) (by rw [hid, hheader]) hadd
  · have hcase := addHeader_cases env c header
    generalize hr : c.addHeader env header = r at hcase
    cases hcase with
    | known hk => exact .nothing (by rw [hr]) (by simp [hr])
    | refused result hk hres hchk hgen =>
      exact .nothing (by rw [hr]) (fun added hadd => hres _ (by rw [← hadd, hr]))
    | genesis log2work hk hprev hwork =>
      -- excluded by the condition
      simp [KeepsTrunk, hk, hprev, hwork] at hok
    | stored prev cached hk hprev hparent hchk =>
      obtain ⟨_, hheader, hid, _, _⟩ := checkHeader_eq_some hchk
      obtain ⟨k, t, hlast, ht, htip⟩ := h.tip_known
      have hlt : ¬ t.stored.log2work < cached.stored.log2work := by
        intro hlt
        exact hnew ⟨hk, hprev, by simpa [MovesTip, hparent, htip, hchk] using hlt⟩
      refine .side prev cached (hid ▸ hk) (by rw [hid, hheader]) hparent hchk ?_
      rw [hr]
      simp only [storeHeader, tip_insert hlast ht (hid ▸ hk), if_neg hlt]
      rfl

theorem ChainInv.step_of_keeps (h : ChainInv env root c) {header : BlockHeader}
    (hok : c.KeepsTrunk env header) : ChainInv env root (c.addHeader env header).1 := by
  by_cases hk : (c.headers (env.bitcoinHash header)).isSome
  · exact (h.addHeader_of_stays (.inl hk)).1
  · have hrest := hok.resolve_left hk
    by_cases hprev : header.prevBlockhash = 0
    · rw [if_pos hprev] at hrest
      exact (h.addHeader_of_stays (.inr (by rwa [if_pos hprev]))).1
    · rw [if_neg hprev] at hrest
      by_cases hmoves : c.MovesTip env header
      · have hnone : c.headers (env.bitcoinHash header) = none := by simpa using hk
        obtain ⟨_, hadd, _, _, _, hinv⟩ :=
          h.addHeader_of_extends hnone hprev hmoves (hrest hmoves)
        rwa [hadd]
      · exact (h.addHeader_of_stays (.inr (by rwa [if_neg hprev]))).1

/-- A header that keeps the trunk a chain keeps what was checked. -/
theorem SidesChecked.step (hs : SidesChecked env c) (h : ChainInv env root c)
    {header : BlockHeader} (hok : c.KeepsTrunk env header) :
    SidesChecked env (c.addHeader env header).1 := by
  have hinv := h.step_of_keeps hok
  cases h.keepsCase hok with
  | nothing hsame hres => rwa [hsame]
  | side prev cached hk hid hparent hchk hadd =>
    have hext : Extends c (c.insert cached.id cached) := extends_insert h hk (List.prefix_rfl)
    rw [hadd] at hinv ⊢
    intro k x p hx hside hmem hp
    -- the parent was known before
    rw [hext.headers _ hmem] at hp
    rw [checkHeader_of_extends h hinv hext hmem hp]
    simp only [insert_headers] at hx
    split_ifs at hx with hkid
    · obtain rfl := Option.some.inj hx
      obtain ⟨_, hheader, _, _, _⟩ := checkHeader_eq_some hchk
      rw [hheader] at hp ⊢
      rw [hparent] at hp
      cases hp
      exact hchk
    · exact hs k x p hx hside hmem hp
  | tip cached hk hid hadd =>
    have hext : Extends c { c.insert cached.id cached with trunk := c.trunk ++ [cached.id] } :=
      extends_insert h hk (List.prefix_append _ _)
    rw [hadd] at hinv ⊢
    intro k x p hx hside hmem hp
    have hside' : k ∉ c.trunk ∧ k ≠ cached.id := by simpa using hside
    have hx' : c.headers k = some x := by
      rw [← hx]
      exact (insert_headers_ne c cached hside'.2).symm
    -- no header named the new one as its parent
    have hmem' : x.stored.header.prevBlockhash ∈ c.trunk := by
      rcases List.mem_append.mp hmem with hmem | hnew
      · exact hmem
      · have h0 : x.stored.header.prevBlockhash ≠ 0 := by
          intro h0
          exact hside'.1 (h.tree.root_unique k x hx' h0 ▸ h.chain.root_mem)
        obtain ⟨y, hy, _⟩ := h.tree.parent k x hx' h0
        rw [List.mem_singleton.mp hnew, hk] at hy
        cases hy
    rw [hext.headers _ hmem'] at hp
    rw [checkHeader_of_extends h hinv hext hmem' hp]
    exact hs k x p hx' hside'.1 hmem' hp

/-- A header below the trunk is stored without an error. -/
theorem ChainInv.storeHeader_isOk (h : ChainInv env root c) {prev cached : CachedHeader W}
    (hk : c.headers cached.id = none)
    (hmem : cached.stored.header.prevBlockhash ∈ (c.insert cached.id cached).trunk) :
    (c.storeHeader prev cached).2.isOk := by
  obtain ⟨k, t, hlast, ht, htip⟩ := h.tip_known
  simp only [HeaderCache.storeHeader, tip_insert hlast ht hk]
  split_ifs
  · rw [moveTip_of_mem hmem]
    rfl
  · rfl

namespace OnlyTrunk

/-- A header below the trunk that is stored is stored with the same report. -/
theorem storeHeader (ho : OnlyTrunk c c') {prev cached : CachedHeader W}
    (hk : c.headers cached.id = none) (h : ChainInv env root c)
    (hmem : cached.stored.header.prevBlockhash ∈ (c.insert cached.id cached).trunk) :
    (c'.storeHeader prev cached).2 = (c.storeHeader prev cached).2 := by
  obtain ⟨k, t, hlast, ht, htip⟩ := h.tip_known
  have hlast' : c'.tipHash = some k := by rw [tipHash, ho.trunk, ← hlast, tipHash]
  have ht' : c'.headers k = some t :=
    (ho.headers_of_mem (List.mem_of_getLast? hlast)).trans ht
  have hk' : c'.headers cached.id = none := by
    rw [ho.headers, hk]
    split_ifs <;> rfl
  have hmem' : cached.stored.header.prevBlockhash ∈ (c'.insert cached.id cached).trunk := by
    rw [insert_trunk, ho.trunk]
    exact hmem
  simp only [HeaderCache.storeHeader, tip_insert hlast ht hk, tip_insert hlast' ht' hk']
  split_ifs with hlt
  · rw [moveTip_of_mem hmem, moveTip_of_mem hmem']
  · rfl

/-- A header below the trunk that was not known is answered as before. -/
theorem addHeader_of_new (ho : OnlyTrunk c c') (h : ChainInv env root c) {header : BlockHeader}
    (hk : c.headers (env.bitcoinHash header) = none)
    (hmem : header.prevBlockhash ∈ c.trunk) :
    (c'.addHeader env header).2 = (c.addHeader env header).2 := by
  have hk' : c'.headers (env.bitcoinHash header) = none := by
    rw [ho.headers, hk]
    split_ifs <;> rfl
  obtain ⟨prev, hparent⟩ := h.known hmem
  have hparent' : c'.headers header.prevBlockhash = some prev :=
    (ho.headers_of_mem hmem).trans hparent
  simp only [HeaderCache.addHeader, hk, hk', hparent, hparent', Option.isSome_none,
    Bool.false_eq_true, if_false]
  by_cases hprev : header.prevBlockhash = 0
  · simp only [hprev]
    cases env.genesisWork header <;> rfl
  · simp only [ne_eq, hprev, not_false_eq_true, if_true]
    -- the required target is the same, and so is what is stored
    have hwork := requiredWork_of_extends h (ho.chainInv h) ho.toExtends hmem hparent header
    simp only [addHeaderToTree, hwork]
    cases c.requiredWork prev header with
    | err e => rfl
    | panic p => rfl
    | ok required =>
      cases env.chainWork header prev.stored.log2work with
      | none => rfl
      | some log2work =>
        simp only
        cases spvValidate (env.bitcoinHash header) header required with
        | err e => rfl
        | panic p => rfl
        | ok u =>
          have hstore : ∀ cached : CachedHeader W, cached.stored.header = header →
              cached.id = env.bitcoinHash header →
              (c'.storeHeader prev cached).2 = (c.storeHeader prev cached).2 :=
            fun cached hheader hid => ho.storeHeader (hid ▸ hk) h (hheader ▸ hmem)
          simp only [hstore ⟨⟨header, prev.stored.height + 1, log2work⟩, env.bitcoinHash header⟩
            rfl rfl]

/-- A header below the trunk is accepted exactly if it was before, unless it shares its
hash with another header. -/
theorem addHeader_isOk (ho : OnlyTrunk c c') (h : ChainInv env root c)
    (hs : SidesChecked env c) {header : BlockHeader} (hmem : header.prevBlockhash ∈ c.trunk)
    (hhash : ∀ x, c.headers (env.bitcoinHash header) = some x → x.stored.header = header) :
    (c'.addHeader env header).2.isOk = (c.addHeader env header).2.isOk := by
  cases hk : c.headers (env.bitcoinHash header) with
  | none => rw [ho.addHeader_of_new h hk hmem]
  | some x =>
    have hknown : (c.addHeader env header).2.isOk = true := by
      simp [HeaderCache.addHeader, hk, Outcome.isOk]
    obtain rfl := hhash x hk
    rw [hknown]
    by_cases hside : env.bitcoinHash x.stored.header ∈ c.trunk
    · have hk' := (ho.headers_of_mem hside).trans hk
      simp [HeaderCache.addHeader, hk', Outcome.isOk]
    · -- a header besides the trunk passed its check already
      have hk' : c'.headers (env.bitcoinHash x.stored.header) = none := by
        rw [ho.headers, if_neg hside]
      have hprev : x.stored.header.prevBlockhash ≠ 0 := by
        intro h0
        exact hside (h.tree.root_unique _ x hk h0 ▸ h.chain.root_mem)
      obtain ⟨p, hp⟩ := h.known hmem
      have hp' := (ho.headers_of_mem hmem).trans hp
      have hchk : c'.checkHeader env p x.stored.header = some x := by
        rw [checkHeader_of_extends h (ho.chainInv h) ho.toExtends hmem hp]
        exact hs _ x p hk hside hmem hp
      obtain ⟨_, _, hid, _, _⟩ := checkHeader_eq_some hchk
      have hstore : (c'.storeHeader p x).2.isOk :=
        (ho.chainInv h).storeHeader_isOk (hid ▸ hk') (by rwa [insert_trunk, ho.trunk])
      simp only [HeaderCache.addHeader, hk', hp', addHeaderToTree_of_checked hchk,
        Option.isSome_none, Bool.false_eq_true, if_false, ne_eq, hprev, not_false_eq_true, if_true]
      obtain ⟨added, hadded⟩ := Outcome.isOk_iff.mp hstore
      rw [hadded]
      rfl

end OnlyTrunk

/-! ## Headers that do not -/

omit [LinearOrder W] in
/-- The search collects what it is given and more. -/
theorem pathToNewTip_prefix {fuel : Nat} {k forksAt : Sha256dHash}
    {path path' : List Sha256dHash} (hpath : c.pathToNewTip fuel k path = .ok (forksAt, path')) :
    path <+: path' := by
  induction fuel generalizing k path with
  | zero =>
    rw [pathToNewTip] at hpath
    split_ifs at hpath
    cases hpath
    exact List.prefix_rfl
  | succ fuel ih =>
    rw [pathToNewTip] at hpath
    split_ifs at hpath
    · split at hpath
      · exact (List.prefix_append _ _).trans (ih hpath)
      · cases hpath
    · cases hpath
      exact List.prefix_rfl

omit [LinearOrder W] in
/-- A move of the tip to a header whose parent is not the tip does not put the header
after its parent. -/
theorem ChainInv.moveTip_of_branch (h : ChainInv env root c) {prev cached : CachedHeader W}
    (hparent : c.headers cached.stored.header.prevBlockhash = some prev)
    (htip : c.tipHash ≠ some cached.stored.header.prevBlockhash) :
    ∃ front added, c.moveTip prev cached =
        ({ c with trunk := front ++ [cached.id] }, .ok added) ∧ added.cached = cached ∧
      added.forwards.bind List.getLast? = some cached.id ∧ front ≠ [] ∧
      front.getLast? ≠ some cached.stored.header.prevBlockhash := by
  by_cases hmem : cached.stored.header.prevBlockhash ∈ c.trunk
  · -- the trunk is not cut
    exact ⟨c.trunk, _, moveTip_of_mem hmem, rfl, by simp, h.chain.ne_nil, htip⟩
  · have hroot : root ∈ c.trunk := h.chain.root_mem
    obtain ⟨forksAt, path, hpath, hfork⟩ :=
      h.tree.pathToNewTip hroot hparent (Nat.le_add_right prev.stored.height 2) []
    obtain ⟨pos, hpos⟩ := rposition_of_mem hfork
    have hne : forksAt ≠ cached.stored.header.prevBlockhash := by
      rintro rfl
      exact hmem hfork
    -- the first hash collected is that of the grandparent
    obtain ⟨rest, rfl⟩ : ∃ rest, path = prev.stored.header.prevBlockhash :: rest := by
      have hstep := hpath
      rw [pathToNewTip] at hstep
      simp only [posOnTrunk_eq_none.mpr hmem, Option.isNone_none, if_true, hparent,
        List.nil_append] at hstep
      obtain ⟨rest, hrest⟩ := pathToNewTip_prefix hstep
      exact ⟨rest, hrest.symm⟩
    have hself : prev.stored.header.prevBlockhash ≠ cached.stored.header.prevBlockhash := by
      intro heq
      by_cases h0 : prev.stored.header.prevBlockhash = 0
      · exact hmem (h.tree.root_unique _ _ hparent h0 ▸ hroot)
      · obtain ⟨p, hp, hheight⟩ := h.tree.parent _ _ hparent h0
        rw [heq, hparent] at hp
        cases hp
        omega
    refine ⟨c.trunk.take (pos + 1) ++ (prev.stored.header.prevBlockhash :: rest).reverse,
      ⟨cached, some (c.trunk.drop (pos + 1)).reverse,
        some ((prev.stored.header.prevBlockhash :: rest).reverse ++ [cached.id])⟩,
      ?_, rfl, by simp, by simp, ?_⟩
    · simp only [moveTip, hpath, hpos, ne_eq, hne, not_false_eq_true, if_true,
        List.append_assoc]
    · simpa using hself

theorem movesTip_iff {header : BlockHeader} :
    c.MovesTip env header ↔ ∃ prev tip cached, c.headers header.prevBlockhash = some prev ∧
      c.tip = some tip ∧ c.checkHeader env prev header = some cached ∧
      tip.stored.log2work < cached.stored.log2work := by
  unfold MovesTip
  cases c.headers header.prevBlockhash with
  | none => simp
  | some prev =>
    cases c.tip with
    | none => simp
    | some tip => cases hchk : c.checkHeader env prev header <;> simp [hchk]

/-- What a header does that does not keep the trunk a chain: it is stored and becomes
the last entry of the trunk, not after its parent. -/
theorem ChainInv.addHeader_of_not_keeps (h : ChainInv env root c) {header : BlockHeader}
    (hbad : ¬ c.KeepsTrunk env header) :
    ∃ cached front added, c.addHeader env header =
        ({ c.insert cached.id cached with trunk := front ++ [cached.id] }, .ok (some added)) ∧
      added.cached = cached ∧ added.forwards.bind List.getLast? = some cached.id ∧
      cached.id = env.bitcoinHash cached.stored.header ∧ c.headers cached.id = none ∧
      front ≠ [] ∧
      (cached.stored.header.prevBlockhash = 0 ∨
        (∃ prev, c.headers cached.stored.header.prevBlockhash = some prev) ∧
          front.getLast? ≠ some cached.stored.header.prevBlockhash) := by
  obtain ⟨hunknown, hrest⟩ := not_or.mp hbad
  have hk : c.headers (env.bitcoinHash header) = none := by simpa using hunknown
  have hcase := addHeader_cases env c header
  generalize c.addHeader env header = r at hcase ⊢
  cases hcase with
  | known hk' => exact absurd hk' hunknown
  | refused result hk hres hchk hgen =>
    by_cases hprev : header.prevBlockhash = 0
    · rw [if_pos hprev] at hrest
      exact absurd (hgen hprev) hrest
    · -- what moves the tip was checked
      rw [if_neg hprev] at hrest
      obtain ⟨prev, tip, cached, hparent, _, hsome, _⟩ :=
        movesTip_iff.mp (Classical.not_imp.mp hrest).1
      rw [hchk prev hprev hparent] at hsome
      cases hsome
  | genesis log2work hk hprev hwork =>
    exact ⟨⟨⟨header, 0, log2work⟩, env.bitcoinHash header⟩, c.trunk, _, rfl, rfl, by simp, rfl, hk,
      h.chain.ne_nil, .inl hprev⟩
  | stored prev cached hk hprev hparent hchk =>
    obtain ⟨_, hheader, hid, _, _⟩ := checkHeader_eq_some hchk
    have hnew : c.headers cached.id = none := hid ▸ hk
    rw [if_neg hprev] at hrest
    obtain ⟨hmoves, htip⟩ := Classical.not_imp.mp hrest
    -- it has more work than the tip
    obtain ⟨k, t, hlast, ht, htipt⟩ := h.tip_known
    have hlt : t.stored.log2work < cached.stored.log2work := by
      obtain ⟨prev', tip, cached', hparent', htip', hchk', hlt⟩ := movesTip_iff.mp hmoves
      rw [hparent] at hparent'
      cases hparent'
      rw [hchk] at hchk'
      cases hchk'
      rw [htipt] at htip'
      cases htip'
      exact hlt
    have hins : ChainInv env root (c.insert cached.id cached) :=
      ⟨h.tree.insert hk hprev hparent hchk, h.chain_insert hnew cached⟩
    have hparent₁ : (c.insert cached.id cached).headers cached.stored.header.prevBlockhash =
        some prev := by
      rw [hheader, insert_headers_ne c cached, hparent]
      intro he
      rw [he, hnew] at hparent
      cases hparent
    obtain ⟨front, added, hmove, hcached, hforwards, hne, hfront⟩ :=
      hins.moveTip_of_branch hparent₁ (by rw [hheader]; exact htip)
    refine ⟨cached, front, added, ?_, hcached, hforwards, by rw [hid, hheader], hnew, hne,
      .inr ⟨⟨prev, by rw [hheader, hparent]⟩, hfront⟩⟩
    simp only [storeHeader, tip_insert hlast ht hnew, if_pos hlt, hmove]
    rfl

end Step

end HeaderCache

end Cashbox.Btc
