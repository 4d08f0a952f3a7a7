import Cashbox.Lib.Run
import Cashbox.Btc.HeaderTree

/-!
# The trunk of the header cache

The trunk is meant to be the chain of headers from genesis to the tip. It is, as
long as the headers that move the tip extend it: a branch that overtakes the
trunk from below is spliced in with the wrong hashes. `StepOk` is the exact
condition on one header, `TrunkInv` the invariant that carries a run.
-/

namespace Cashbox.Btc

open Cashbox.Lib

variable {W : Type}

namespace HeaderCache

/-! ## Parents and heights by hash -/

/-- The parent of a known header; a zero previous hash is no parent. -/
def parentOf (c : HeaderCache W) (k : Sha256dHash) : Option Sha256dHash :=
  match c.headers k with
  | some h => if h.stored.header.prevBlockhash = 0 then none else some h.stored.header.prevBlockhash
  | none => none

/-- The height of a known header. -/
def heightOf (c : HeaderCache W) (k : Sha256dHash) : Nat :=
  match c.headers k with
  | some h => h.stored.height
  | none => 0

theorem parentOf_eq_some {c : HeaderCache W} {k p : Sha256dHash} :
    c.parentOf k = some p ↔
      p ≠ 0 ∧ ∃ h, c.headers k = some h ∧ h.stored.header.prevBlockhash = p := by
  unfold parentOf
  cases hk : c.headers k with
  | none => simp
  | some h =>
    by_cases h0 : h.stored.header.prevBlockhash = 0
    · simp only [h0, if_true, reduceCtorEq, Option.some.injEq, exists_eq_left', false_iff]
      rintro ⟨hne, rfl⟩
      exact hne rfl
    · simp only [h0, if_false, Option.some.injEq, exists_eq_left']
      exact ⟨fun he => ⟨he ▸ h0, he⟩, fun he => he.2⟩

/-- A link adds one to the height. -/
theorem TreeOk.heightOf_eq {env : HeaderEnv W} {root : Sha256dHash} {c : HeaderCache W}
    (h : TreeOk env root c) {a b : Sha256dHash} (hab : c.parentOf a = some b) :
    c.heightOf a = c.heightOf b + 1 := by
  obtain ⟨hb0, x, hx, rfl⟩ := parentOf_eq_some.mp hab
  obtain ⟨p, hp, hheight⟩ := h.parent a x hx hb0
  simp only [heightOf, hx, hp, hheight]

theorem TreeOk.heightOf_root {env : HeaderEnv W} {root : Sha256dHash} {c : HeaderCache W}
    (h : TreeOk env root c) : c.heightOf root = 0 := by
  obtain ⟨r, hr, hr0⟩ := h.root_known
  simp only [heightOf, hr, hr0]

/-! ## The trunk a light client relies on -/

/-- The trunk is a real chain from the header with hash `root`. -/
structure TrunkOk (root : Sha256dHash) (c : HeaderCache W) : Prop where
  /-- It starts at the root. -/
  root_first : c.trunk[0]? = some root
  /-- Each entry after the first is a known header that names the entry before
  it as its parent. -/
  linked : ∀ i a b, c.trunk[i]? = some a → c.trunk[i + 1]? = some b →
    ∃ h, c.headers b = some h ∧ h.stored.header.prevBlockhash = a
  /-- The entry at index `i` is the header of height `i`. -/
  height : ∀ i a, c.trunk[i]? = some a →
    ∃ h, c.headers a = some h ∧ h.stored.height = i ∧ c.getHeaderForHeight i = some h
  /-- No hash occurs twice. -/
  nodup : c.trunk.Nodup

/-- The trunk `after` is the trunk `before` with the reported unwinds cut off and
the reported forwards appended. -/
def Reports (added : Added W) (before after : List Sha256dHash) : Prop :=
  ∃ kept, before = kept ++ (added.unwinds.getD []).reverse ∧
    after = kept ++ added.forwards.getD []

/-! ## The invariant of a run -/

/-- The known headers are a tree, and the trunk is a chain in it. -/
structure ChainInv (env : HeaderEnv W) (root : Sha256dHash) (c : HeaderCache W) : Prop where
  tree : TreeOk env root c
  chain : IsTrunk c.parentOf root c.trunk

structure TrunkInv (env : HeaderEnv W) (root : Sha256dHash) (c : HeaderCache W) : Prop where
  tree : TreeOk env root c
  chain : IsTrunk c.parentOf root c.trunk
  short : c.trunk.length < 2 ^ 32

namespace ChainInv

variable {env : HeaderEnv W} {root : Sha256dHash} {c : HeaderCache W}

/-- Every hash on the trunk is the hash of a known header. -/
theorem known (h : ChainInv env root c) {k : Sha256dHash} (hk : k ∈ c.trunk) :
    ∃ x, c.headers k = some x := by
  obtain ⟨i, hi, rfl⟩ := List.mem_iff_getElem.mp hk
  cases i with
  | zero =>
    obtain ⟨r, hr, _⟩ := h.tree.root_known
    have h0 := h.chain.getElem_zero
    rw [List.getElem?_eq_getElem hi, Option.some.injEq] at h0
    exact ⟨r, h0 ▸ hr⟩
  | succ i =>
    obtain ⟨_, x, hx, _⟩ := parentOf_eq_some.mp (h.chain.parent_getElem hi)
    exact ⟨x, hx⟩

/-- The tip is a known header. -/
theorem tip_known (h : ChainInv env root c) :
    ∃ k t, c.tipHash = some k ∧ c.headers k = some t ∧ c.tip = some t := by
  have hne := h.chain.ne_nil
  obtain ⟨t, ht⟩ := h.known (List.getLast_mem hne)
  refine ⟨c.trunk.getLast hne, t, List.getLast?_eq_some_getLast hne, ht, ?_⟩
  simp only [tip, tipHash, List.getLast?_eq_some_getLast hne]
  exact ht

theorem nodup (h : ChainInv env root c) : c.trunk.Nodup :=
  h.chain.nodup h.tree.heightOf_root (fun _ _ _ hab => h.tree.heightOf_eq hab)

/-- The entry at index `i` is the header of height `i`. -/
theorem height_getElem (h : ChainInv env root c) {i : Nat} (hi : i < c.trunk.length)
    {x : CachedHeader W} (hx : c.headers c.trunk[i] = some x) : x.stored.height = i := by
  have hheight : c.heightOf c.trunk[i] = i :=
    h.chain.depth_getElem h.tree.heightOf_root (fun _ _ _ hab => h.tree.heightOf_eq hab) hi
  simpa only [heightOf, hx] using hheight

/-- Storing a header leaves the trunk a chain: its entries were known before. -/
theorem chain_insert (h : ChainInv env root c) {k : Sha256dHash} (hk : c.headers k = none)
    (x : CachedHeader W) : IsTrunk (c.insert k x).parentOf root c.trunk := by
  apply h.chain.congr
  intro a ha
  obtain ⟨y, hy⟩ := h.known ha
  have hne : a ≠ k := by
    rintro rfl
    rw [hk] at hy
    cases hy
  simp only [parentOf, insert_headers_ne c x hne]

/-- The last trunk entry has the height of its index. -/
theorem height_of_tip (h : ChainInv env root c) {k : Sha256dHash} {x : CachedHeader W}
    (hlast : c.tipHash = some k) (hx : c.headers k = some x) :
    x.stored.height + 1 = c.trunk.length := by
  have hpos : 0 < c.trunk.length := List.length_pos_of_ne_nil h.chain.ne_nil
  have hidx : c.trunk[c.trunk.length - 1]? = some k := by
    rw [← List.getLast?_eq_getElem?]
    exact hlast
  obtain ⟨hi, hik⟩ := List.getElem?_eq_some_iff.mp hidx
  have hheight := h.height_getElem hi (hik ▸ hx)
  omega

end ChainInv

namespace TrunkInv

variable {env : HeaderEnv W} {root : Sha256dHash} {c : HeaderCache W}

theorem chainInv (h : TrunkInv env root c) : ChainInv env root c := ⟨h.tree, h.chain⟩

/-- The invariant gives what the light client relies on. -/
theorem trunkOk (h : TrunkInv env root c) : TrunkOk root c where
  root_first := h.chain.getElem_zero
  linked := by
    intro i a b ha hb
    obtain ⟨hi, rfl⟩ := List.getElem?_eq_some_iff.mp hb
    have hai : c.trunk[i] = a := List.getElem_of_getElem? ha |>.2
    obtain ⟨_, x, hx, hxa⟩ := parentOf_eq_some.mp (h.chain.parent_getElem hi)
    exact ⟨x, hx, hxa.trans hai⟩
  height := by
    intro i a ha
    obtain ⟨hi, rfl⟩ := List.getElem?_eq_some_iff.mp ha
    obtain ⟨x, hx⟩ := h.chainInv.known (List.getElem_mem hi)
    refine ⟨x, hx, h.chainInv.height_getElem hi hx, ?_⟩
    -- below 2^32 entries the cast of the length changes nothing
    simp only [getHeaderForHeight, Nat.mod_eq_of_lt h.short, hi, if_true,
      List.getElem?_eq_getElem hi, hx]
  nodup := h.chainInv.nodup

end TrunkInv

/-! ## Headers that extend the tip -/

/-- Storing an unknown header does not change the tip. -/
theorem tip_insert {c : HeaderCache W} {k id : Sha256dHash} {t x : CachedHeader W}
    (hlast : c.tipHash = some k) (ht : c.headers k = some t) (hid : c.headers id = none) :
    (c.insert id x).tip = some t := by
  have hne : k ≠ id := by
    rintro rfl
    rw [hid] at ht
    cases ht
  have hlast' : (c.insert id x).tipHash = some k := hlast
  simp only [tip, hlast', getHeader, insert_headers_ne c x hne, ht]

/-- A branch that starts at a trunk hash needs no search. -/
theorem pathToNewTip_of_mem {c : HeaderCache W} {k : Sha256dHash} (hk : k ∈ c.trunk) (fuel : Nat)
    (path : List Sha256dHash) : c.pathToNewTip fuel k path = .ok (k, path) := by
  have hpos : c.posOnTrunk k ≠ none := fun hn => posOnTrunk_eq_none.mp hn hk
  rw [pathToNewTip.eq_def]
  simp [hpos]

/-- A heavier header whose parent is on the trunk is appended to it. -/
theorem moveTip_of_mem {c : HeaderCache W} {prev cached : CachedHeader W}
    (hprev : cached.stored.header.prevBlockhash ∈ c.trunk) :
    c.moveTip prev cached =
      ({ c with trunk := c.trunk ++ [cached.id] }, .ok ⟨cached, none, some [cached.id]⟩) := by
  simp [moveTip, pathToNewTip_of_mem hprev]

section Step

variable [LinearOrder W] (env : HeaderEnv W)

/-- The header passes its check below a known parent and has more work than the
tip: `addHeader` moves the tip to it. -/
def MovesTip (c : HeaderCache W) (header : BlockHeader) : Prop :=
  match c.headers header.prevBlockhash, c.tip with
  | some prev, some tip =>
    match c.checkHeader env prev header with
    | some cached => tip.stored.log2work < cached.stored.log2work
    | none => False
  | _, _ => False

instance (c : HeaderCache W) (header : BlockHeader) : Decidable (c.MovesTip env header) := by
  unfold MovesTip
  split
  · split <;> infer_instance
  · infer_instance

/-- The condition on a header: it is known, or it is no second genesis and, when
it moves the tip, extends it within 2^32 headers. -/
def StepOk (c : HeaderCache W) (header : BlockHeader) : Prop :=
  (c.headers (env.bitcoinHash header)).isSome ∨
    if header.prevBlockhash = 0 then env.genesisWork header = none
    else c.MovesTip env header →
      c.tipHash = some header.prevBlockhash ∧ c.trunk.length + 1 < 2 ^ 32

instance [DecidableEq W] (c : HeaderCache W) (header : BlockHeader) :
    Decidable (c.StepOk env header) := by
  unfold StepOk
  infer_instance

variable {env} {c : HeaderCache W} {root : Sha256dHash}

/-- A header that extends the tip is appended to the trunk. -/
theorem ChainInv.addHeader_of_extends (h : ChainInv env root c) {header : BlockHeader}
    (hk : c.headers (env.bitcoinHash header) = none) (hprev : header.prevBlockhash ≠ 0)
    (hmoves : c.MovesTip env header) (hext : c.tipHash = some header.prevBlockhash) :
    ∃ cached, c.addHeader env header =
        ({ c.insert cached.id cached with trunk := c.trunk ++ [cached.id] },
          .ok (some ⟨cached, none, some [cached.id]⟩)) ∧
      cached.id = env.bitcoinHash header ∧ cached.stored.header = header ∧
      cached.stored.height = c.trunk.length ∧
      ChainInv env root { c.insert cached.id cached with trunk := c.trunk ++ [cached.id] } := by
  obtain ⟨k, t, hlast, ht, htip⟩ := h.tip_known
  -- the parent is the tip itself
  have hkt : k = header.prevBlockhash := Option.some.inj (hlast.symm.trans hext)
  subst hkt
  unfold MovesTip at hmoves
  rw [ht, htip] at hmoves
  cases hchk : c.checkHeader env t header with
  | none => simp [hchk] at hmoves
  | some cached =>
    simp only [hchk] at hmoves
    obtain ⟨_, hheader, hid, hheight, _⟩ := checkHeader_eq_some hchk
    have hnew : c.headers cached.id = none := hid ▸ hk
    have hmem : cached.stored.header.prevBlockhash ∈ (c.insert cached.id cached).trunk := by
      rw [hheader]
      exact List.mem_of_getLast? hext
    refine ⟨cached, ?_, hid, hheader, ?_, ?_⟩
    · unfold HeaderCache.addHeader
      rw [if_neg (by simp [hk]), if_pos hprev]
      simp only [ht, addHeaderToTree_of_checked hchk, storeHeader, tip_insert hlast ht hnew,
        if_pos hmoves, moveTip_of_mem hmem]
      rfl
    · rw [hheight, h.height_of_tip hlast ht]
    · refine ⟨(h.tree.insert hk hprev ht hchk).of_headers rfl, ?_⟩
      refine (h.chain_insert hnew cached).concat hext (parentOf_eq_some.mpr ⟨hprev, cached, ?_, ?_⟩)
      · exact insert_headers_self c cached.id cached
      · rw [hheader]

/-- A header that neither moves the tip nor counts as a genesis leaves the trunk
and the known headers as they are. -/
theorem ChainInv.addHeader_of_stays (h : ChainInv env root c) {header : BlockHeader}
    (hok : (c.headers (env.bitcoinHash header)).isSome ∨
      if header.prevBlockhash = 0 then env.genesisWork header = none
      else ¬ c.MovesTip env header) :
    ChainInv env root (c.addHeader env header).1 ∧
      (c.addHeader env header).1.trunk = c.trunk ∧
      (∀ k x, c.headers k = some x → (c.addHeader env header).1.headers k = some x) ∧
      ∀ added, (c.addHeader env header).2 = .ok (some added) →
        added.unwinds = none ∧ added.forwards = none := by
  have hcase := addHeader_cases env c header
  generalize c.addHeader env header = r at hcase ⊢
  cases hcase with
  | known hk => exact ⟨h, rfl, fun _ _ hx => hx, by simp⟩
  | refused result hk hres hchk hgen =>
    exact ⟨h, rfl, fun _ _ hx => hx, fun added hadd => absurd hadd (hres _)⟩
  | genesis log2work hk hprev hwork =>
    -- excluded by the condition: this branch pushes a second genesis
    simp [hk, hprev, hwork] at hok
  | stored prev cached hk hprev hparent hchk =>
    obtain ⟨_, hheader, hid, _, _⟩ := checkHeader_eq_some hchk
    obtain ⟨k, t, hlast, ht, htip⟩ := h.tip_known
    have hnew : c.headers cached.id = none := hid ▸ hk
    have hlt : ¬ t.stored.log2work < cached.stored.log2work := by
      rw [hk, if_neg hprev] at hok
      simpa [MovesTip, hparent, htip, hchk] using hok
    simp only [storeHeader, tip_insert hlast ht hnew, if_neg hlt]
    refine ⟨⟨h.tree.insert hk hprev hparent hchk, h.chain_insert hnew cached⟩, rfl, ?_, ?_⟩
    · intro k' x hx
      rw [insert_headers_ne c cached, hx]
      rintro rfl
      rw [hnew] at hx
      cases hx
    · intro added hadd
      cases hadd
      exact ⟨rfl, rfl⟩

theorem TrunkInv.addHeader_of_extends (h : TrunkInv env root c) {header : BlockHeader}
    (hk : c.headers (env.bitcoinHash header) = none) (hprev : header.prevBlockhash ≠ 0)
    (hmoves : c.MovesTip env header) (hext : c.tipHash = some header.prevBlockhash)
    (hlen : c.trunk.length + 1 < 2 ^ 32) :
    ∃ cached, c.addHeader env header =
        ({ c.insert cached.id cached with trunk := c.trunk ++ [cached.id] },
          .ok (some ⟨cached, none, some [cached.id]⟩)) ∧
      cached.id = env.bitcoinHash header ∧ cached.stored.header = header ∧
      cached.stored.height = c.trunk.length ∧
      TrunkInv env root { c.insert cached.id cached with trunk := c.trunk ++ [cached.id] } := by
  obtain ⟨cached, hadd, hid, hheader, hheight, hinv⟩ :=
    h.chainInv.addHeader_of_extends hk hprev hmoves hext
  exact ⟨cached, hadd, hid, hheader, hheight, hinv.tree, hinv.chain, by simpa using hlen⟩

theorem TrunkInv.addHeader_of_stays (h : TrunkInv env root c) {header : BlockHeader}
    (hok : (c.headers (env.bitcoinHash header)).isSome ∨
      if header.prevBlockhash = 0 then env.genesisWork header = none
      else ¬ c.MovesTip env header) :
    TrunkInv env root (c.addHeader env header).1 ∧
      (c.addHeader env header).1.trunk = c.trunk ∧
      (∀ k x, c.headers k = some x → (c.addHeader env header).1.headers k = some x) ∧
      ∀ added, (c.addHeader env header).2 = .ok (some added) →
        added.unwinds = none ∧ added.forwards = none := by
  obtain ⟨hinv, htrunk, hkeep, hrep⟩ := h.chainInv.addHeader_of_stays hok
  exact ⟨⟨hinv.tree, hinv.chain, by simpa only [htrunk] using h.short⟩, htrunk, hkeep, hrep⟩

/-- One header: the invariant is kept and the report is right. -/
theorem TrunkInv.addHeader (h : TrunkInv env root c) {header : BlockHeader}
    (hok : c.StepOk env header) :
    TrunkInv env root (c.addHeader env header).1 ∧
      ∀ added, (c.addHeader env header).2 = .ok (some added) →
        Reports added c.trunk (c.addHeader env header).1.trunk := by
  by_cases hnew : c.headers (env.bitcoinHash header) = none ∧ header.prevBlockhash ≠ 0 ∧
      c.MovesTip env header
  · -- a new header that moves the tip extends it
    obtain ⟨hk, hprev, hmoves⟩ := hnew
    simp only [StepOk, hk, Option.isSome_none, Bool.false_eq_true, hprev, if_false, false_or] at hok
    obtain ⟨hext, hlen⟩ := hok hmoves
    obtain ⟨cached, hadd, _, _, _, hinv⟩ := h.addHeader_of_extends hk hprev hmoves hext hlen
    rw [hadd]
    refine ⟨hinv, ?_⟩
    intro added hres
    cases hres
    exact ⟨c.trunk, by simp, by simp⟩
  · -- any other header leaves the trunk as it is
    have hstays : (c.headers (env.bitcoinHash header)).isSome ∨
        if header.prevBlockhash = 0 then env.genesisWork header = none
        else ¬ c.MovesTip env header := by
      rcases hok with hk | hrest
      · exact .inl hk
      · by_cases hk : c.headers (env.bitcoinHash header) = none
        · by_cases hprev : header.prevBlockhash = 0
          · rw [if_pos hprev] at hrest ⊢
            exact .inr hrest
          · rw [if_neg hprev]
            exact .inr fun hmoves => hnew ⟨hk, hprev, hmoves⟩
        · exact .inl (Option.isSome_iff_ne_none.mpr hk)
    obtain ⟨hinv, htrunk, _, hrep⟩ := h.addHeader_of_stays hstays
    refine ⟨hinv, ?_⟩
    intro added hres
    obtain ⟨hu, hf⟩ := hrep added hres
    exact ⟨c.trunk, by simp [hu], by simp [hf, htrunk]⟩

end Step

/-! ## Runs from the genesis header -/

section Runs

variable [LinearOrder W]

/-- The cache after a header, whatever `addHeader` returns for it. -/
def step (env : HeaderEnv W) (c : HeaderCache W) (header : BlockHeader) : HeaderCache W :=
  (c.addHeader env header).1

/-- The first header put in a new cache is its trunk and its only known header. -/
theorem new_addHeader {env : HeaderEnv W} {network : Network} {genesis : BlockHeader}
    {c₀ : HeaderCache W} {added : Added W}
    (hinit : (new network : HeaderCache W).addHeader env genesis = (c₀, .ok (some added))) :
    c₀.trunk = [env.bitcoinHash genesis] ∧
      c₀.headers (env.bitcoinHash genesis) = some added.cached ∧
      added.cached.id = env.bitcoinHash genesis ∧ added.cached.stored.header = genesis ∧
      added.cached.stored.height = 0 ∧
      ∀ k x, c₀.headers k = some x → k = env.bitcoinHash genesis ∧ x = added.cached := by
  have hcase := addHeader_cases env (new network : HeaderCache W) genesis
  rw [hinit] at hcase
  cases hcase with
  | refused result hk hres hchk hgen => exact absurd rfl (hres _)
  | genesis log2work hk hprev hwork =>
    refine ⟨rfl, insert_headers_self _ _ _, rfl, rfl, rfl, ?_⟩
    intro k x hx
    have hx' : (insert (new network) (env.bitcoinHash genesis)
        ⟨⟨genesis, 0, log2work⟩, env.bitcoinHash genesis⟩).headers k = some x := hx
    rw [insert_headers] at hx'
    split_ifs at hx' with hkid
    · exact ⟨hkid, (Option.some.inj hx').symm⟩
    · cases hx'

/-- A new cache with its genesis header is a tree of one header. -/
theorem TreeOk.init {env : HeaderEnv W} {network : Network} {genesis : BlockHeader}
    (h0 : genesis.prevBlockhash = 0) {c₀ : HeaderCache W} {added : Added W}
    (hinit : (new network : HeaderCache W).addHeader env genesis = (c₀, .ok (some added))) :
    TreeOk env (env.bitcoinHash genesis) c₀ := by
  obtain ⟨_, hroot, hid, hheader, hheight, honly⟩ := new_addHeader hinit
  refine ⟨?_, ⟨added.cached, hroot, hheight⟩, fun k x hx _ => (honly k x hx).1, ?_⟩
  · intro k x hx
    obtain ⟨rfl, rfl⟩ := honly k x hx
    exact ⟨hid, by rw [hheader]⟩
  · intro k x hx hne
    obtain ⟨rfl, rfl⟩ := honly k x hx
    rw [hheader] at hne
    exact absurd h0 hne

theorem TrunkInv.init {env : HeaderEnv W} {network : Network} {genesis : BlockHeader}
    (h0 : genesis.prevBlockhash = 0) {c₀ : HeaderCache W} {added : Added W}
    (hinit : (new network : HeaderCache W).addHeader env genesis = (c₀, .ok (some added))) :
    TrunkInv env (env.bitcoinHash genesis) c₀ := by
  have htrunk := (new_addHeader hinit).1
  refine ⟨TreeOk.init h0 hinit, ?_, ?_⟩
  · rw [htrunk]
    exact IsTrunk.singleton _ _
  · simp [htrunk]

/-- **The trunk of a run.** When every header of a run that moves the tip extends
it and none is taken for a second genesis, the trunk is a real chain after every
header and every report describes how the trunk changed. -/
theorem trunkOk_of_guarded_run (env : HeaderEnv W) (network : Network)
    (genesisTxid : Sha256dHash) {c₀ : HeaderCache W} {added₀ : Added W}
    (hinit : (new network : HeaderCache W).addHeader env (genesisHeader genesisTxid network) =
      (c₀, .ok (some added₀)))
    {hs : List BlockHeader} (hok : Guarded (step env) (fun c h => c.StepOk env h) c₀ hs) :
    TrunkOk (env.bitcoinHash (genesisHeader genesisTxid network)) (run (step env) c₀ hs) ∧
      ∀ pre header post added, hs = pre ++ header :: post →
        ((run (step env) c₀ pre).addHeader env header).2 = .ok (some added) →
        Reports added (run (step env) c₀ pre).trunk
          (run (step env) c₀ (pre ++ [header])).trunk := by
  have hinv := TrunkInv.init (genesisHeader_prevBlockhash genesisTxid network) hinit
  have hstep : ∀ c h, TrunkInv env (env.bitcoinHash (genesisHeader genesisTxid network)) c →
      c.StepOk env h →
      TrunkInv env (env.bitcoinHash (genesisHeader genesisTxid network)) (step env c h) :=
    fun c h hc hcok => (hc.addHeader hcok).1
  refine ⟨(hok.invariant hstep hinv).trunkOk, ?_⟩
  rintro pre header post added rfl hadd
  obtain ⟨hpre, hpreok⟩ := hok.at_step hstep hinv
  rw [run_append]
  exact (hpre.addHeader hpreok).2 added hadd

end Runs

/-! ## A run on each side of the condition -/

/-- An environment for concrete runs: the hash of a header is the sum of its merkle root and
its nonce. -/
def unitEnv : HeaderEnv Nat :=
  exactEnv fun header => header.merkleRoot + BitVec.ofNat 256 header.nonce.toNat

/-- The cache of `unitEnv` after the regtest genesis header, whose hash is 2. -/
def unitCache : HeaderCache Nat :=
  ((new .regtest).addHeader unitEnv (genesisHeader 0 .regtest)).1

theorem unitCache_eq : (new .regtest).addHeader unitEnv (genesisHeader 0 .regtest) =
    (unitCache, .ok (some ⟨⟨⟨genesisHeader 0 .regtest, 0, 2⟩, 2⟩, none, some [2]⟩)) :=
  Prod.ext rfl (by decide +kernel)

/-- A header with the regtest target, below the header with hash `prev`. -/
def unitHeader (prev : Sha256dHash) (nonce : UInt32) : BlockHeader :=
  { version := 1, prevBlockhash := prev, merkleRoot := 0, time := 1296688602,
    bits := 0x207fffff, nonce := nonce }

/-- Two headers that extend the tip, with a side header between them, meet the
condition. -/
theorem trunkOk_of_guarded_run_side :
    TrunkOk (unitEnv.bitcoinHash (genesisHeader 0 .regtest))
      (run (step unitEnv) unitCache [unitHeader 2 3, unitHeader 2 4, unitHeader 3 5]) := by
  have hok : Guarded (step unitEnv) (fun c h => c.StepOk unitEnv h) unitCache
      [unitHeader 2 3, unitHeader 2 4, unitHeader 3 5] := by decide +kernel
  exact (trunkOk_of_guarded_run unitEnv .regtest 0 unitCache_eq hok).1

/-- A branch of two headers that overtakes a trunk of two from the genesis header
leaves the genesis hash twice on the trunk. -/
theorem not_trunkOk_of_branch :
    ¬ TrunkOk (unitEnv.bitcoinHash (genesisHeader 0 .regtest))
      (run (step unitEnv) unitCache [unitHeader 2 3, unitHeader 2 4, unitHeader 4 5]) := by
  intro h
  have hnodup := h.nodup
  revert hnodup
  decide +kernel

end HeaderCache

end Cashbox.Btc
