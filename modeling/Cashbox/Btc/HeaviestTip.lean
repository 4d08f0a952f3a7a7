import Cashbox.Btc.ChainDb

/-!
# Proof of work along a run

`addHeader` has two ways to accept a header: below a known parent, after the
check of its proof of work, and as a genesis, without any check. As long as no
header takes the second way, every header the database accepts was checked, the
tip has the most work of all known headers and its work never decreases. This
holds also where the trunk itself is spliced wrongly: a move of the tip always
ends at the new header.
-/

namespace Cashbox.Btc

open Cashbox.Lib

variable {W D : Type} [LinearOrder W]

namespace HeaderCache

/-! ## One header -/

/-- The header has a known parent and passes the check against the target
required at its height. -/
def Checked (env : HeaderEnv W) (c : HeaderCache W) (header : BlockHeader) : Prop :=
  ∃ prev required, c.headers header.prevBlockhash = some prev ∧
    c.requiredWork prev header = .ok required ∧
    spvValidate (env.bitcoinHash header) header required = .ok ()

/-- The header is known or does not take the unchecked genesis path. -/
def NoGenesis (env : HeaderEnv W) (c : HeaderCache W) (header : BlockHeader) : Prop :=
  (c.headers (env.bitcoinHash header)).isSome ∨ header.prevBlockhash ≠ 0 ∨
    env.genesisWork header = none

instance (env : HeaderEnv W) (c : HeaderCache W) (header : BlockHeader) :
    Decidable (c.NoGenesis env header) := by
  unfold NoGenesis
  infer_instance

/-- The tree below `root`, with a tip of most work. -/
structure WorkInv (env : HeaderEnv W) (root : Sha256dHash) (c : HeaderCache W) : Prop where
  tree : TreeOk env root c
  root_first : c.trunk.head? = some root
  heaviest : ∃ k t, c.tipHash = some k ∧ c.headers k = some t ∧
    ∀ k' x, c.headers k' = some x → x.stored.log2work ≤ t.stored.log2work

variable {env : HeaderEnv W} {root : Sha256dHash} {c : HeaderCache W}

/-- The tip has the most work of all known headers. -/
theorem WorkInv.tip (h : WorkInv env root c) :
    ∃ t, c.tip = some t ∧ ∀ k x, c.headers k = some x → x.stored.log2work ≤ t.stored.log2work := by
  obtain ⟨k, t, hlast, ht, hmax⟩ := h.heaviest
  refine ⟨t, ?_, hmax⟩
  simp only [HeaderCache.tip, hlast, getHeader, ht]

/-- Storing a checked header: it is added to the known headers and becomes the
tip exactly when it is heavier. -/
theorem WorkInv.storeHeader (h : WorkInv env root c) {prev cached : CachedHeader W}
    {next : BlockHeader} (hk : c.headers (env.bitcoinHash next) = none)
    (hprev : next.prevBlockhash ≠ 0) (hparent : c.headers next.prevBlockhash = some prev)
    (hchk : c.checkHeader env prev next = some cached) :
    WorkInv env root (c.storeHeader prev cached).1 ∧
      (c.storeHeader prev cached).1.headers = (c.insert cached.id cached).headers := by
  obtain ⟨_, hheader, hid, _, _⟩ := checkHeader_eq_some hchk
  obtain ⟨k, t, hlast, ht, hmax⟩ := h.heaviest
  have hnew : c.headers cached.id = none := hid ▸ hk
  have htree := h.tree.insert hk hprev hparent hchk
  -- the new header is the only one that could be heavier
  have hold : ∀ k' x, (c.insert cached.id cached).headers k' = some x →
      x = cached ∨ x.stored.log2work ≤ t.stored.log2work := by
    intro k' x hx
    rw [insert_headers] at hx
    split_ifs at hx with hkid
    · exact .inl (Option.some.inj hx).symm
    · exact .inr (hmax k' x hx)
  simp only [HeaderCache.storeHeader, tip_insert hlast ht hnew]
  by_cases hlt : t.stored.log2work < cached.stored.log2work
  · -- it is heavier, and the tip moves to it
    rw [if_pos hlt]
    have hprevne : cached.stored.header.prevBlockhash ≠ cached.id := by
      intro he
      rw [hheader] at he
      rw [he, hnew] at hparent
      cases hparent
    have hparent' : (c.insert cached.id cached).headers cached.stored.header.prevBlockhash =
        some prev := by
      rw [insert_headers_ne c cached hprevne, hheader, hparent]
    obtain ⟨front, added, hmove, hfront⟩ := htree.moveTip h.root_first hparent'
    rw [hmove]
    refine ⟨⟨htree.of_headers rfl, ?_, cached.id, cached, ?_, ?_, ?_⟩, rfl⟩
    · show (front ++ [cached.id]).head? = some root
      rw [List.head?_append, hfront]
      rfl
    · exact List.getLast?_concat
    · exact insert_headers_self c cached.id cached
    · intro k' x hx
      rcases hold k' x hx with rfl | hle
      · exact le_refl _
      · exact hle.trans hlt.le
  · -- it is not, and the tip stays
    rw [if_neg hlt]
    refine ⟨⟨htree, h.root_first, k, t, hlast, ?_, ?_⟩, rfl⟩
    · rw [insert_headers_ne c cached, ht]
      rintro rfl
      rw [hnew] at ht
      cases ht
    · intro k' x hx
      rcases hold k' x hx with rfl | hle
      · exact not_lt.mp hlt
      · exact hle

/-- What one header does: the invariant is kept, known headers stay known, and a
header that becomes known was checked. -/
theorem WorkInv.step (h : WorkInv env root c) {header : BlockHeader}
    (hok : c.NoGenesis env header) :
    WorkInv env root (c.step env header) ∧
      (∀ k x, c.headers k = some x → (c.step env header).headers k = some x) ∧
      ∀ k x, (c.step env header).headers k = some x →
        c.headers k = some x ∨ (x.stored.header = header ∧ c.Checked env header) := by
  unfold HeaderCache.step
  have hcase := addHeader_cases env c header
  generalize c.addHeader env header = r at hcase ⊢
  cases hcase with
  | known hk => exact ⟨h, fun _ _ hx => hx, fun _ _ hx => .inl hx⟩
  | refused result hk hres hchk hgen => exact ⟨h, fun _ _ hx => hx, fun _ _ hx => .inl hx⟩
  | genesis log2work hk hprev hwork =>
    -- excluded by the condition
    simp [NoGenesis, hk, hprev, hwork] at hok
  | stored prev cached hk hprev hparent hchk =>
    obtain ⟨⟨required, hreq, hspv⟩, hheader, hid, _, _⟩ := checkHeader_eq_some hchk
    obtain ⟨hinv, hheaders⟩ := h.storeHeader hk hprev hparent hchk
    refine ⟨hinv, ?_, ?_⟩
    · intro k x hx
      show (c.storeHeader prev cached).1.headers k = some x
      rw [hheaders, insert_headers_ne c cached, hx]
      rintro rfl
      rw [hid, hk] at hx
      cases hx
    · intro k x hx
      have hx' : (c.storeHeader prev cached).1.headers k = some x := hx
      rw [hheaders, insert_headers] at hx'
      split_ifs at hx' with hkid
      · cases hx'
        exact .inr ⟨hheader, prev, required, hparent, hreq, hspv⟩
      · exact .inl hx'

/-! ## Runs of the cache -/

/-- The invariant holds after a run without a second genesis. -/
theorem WorkInv.run (h : WorkInv env root c) {hs : List BlockHeader}
    (hok : Guarded (HeaderCache.step env) (fun c x => c.NoGenesis env x) c hs) :
    WorkInv env root (run (HeaderCache.step env) c hs) :=
  hok.invariant (fun _ _ hc hcok => (hc.step hcok).1) h

/-- Known headers stay known along a run. -/
theorem WorkInv.run_known (h : WorkInv env root c) {hs : List BlockHeader}
    (hok : Guarded (HeaderCache.step env) (fun c x => c.NoGenesis env x) c hs)
    {k : Sha256dHash} {x : CachedHeader W} (hx : c.headers k = some x) :
    (Lib.run (HeaderCache.step env) c hs).headers k = some x := by
  induction hs generalizing c with
  | nil => exact hx
  | cons header hs ih =>
    obtain ⟨hinv, hkeep, _⟩ := h.step hok.1
    exact ih hinv hok.2 (hkeep k x hx)

/-- A header known after a run was known before it, or was checked when the run
came to it. -/
theorem WorkInv.run_checked (h : WorkInv env root c) {hs : List BlockHeader}
    (hok : Guarded (HeaderCache.step env) (fun c x => c.NoGenesis env x) c hs)
    {k : Sha256dHash} {x : CachedHeader W}
    (hx : (Lib.run (HeaderCache.step env) c hs).headers k = some x) :
    c.headers k = some x ∨ ∃ pre post, hs = pre ++ x.stored.header :: post ∧
      (Lib.run (HeaderCache.step env) c pre).Checked env x.stored.header := by
  induction hs generalizing c with
  | nil => exact .inl hx
  | cons header hs ih =>
    obtain ⟨hinv, _, hnew⟩ := h.step hok.1
    rcases ih hinv hok.2 hx with hknown | ⟨pre, post, rfl, hchk⟩
    · rcases hnew k x hknown with hold | ⟨rfl, hchk⟩
      · exact .inl hold
      · exact .inr ⟨[], hs, rfl, hchk⟩
    · exact .inr ⟨header :: pre, post, rfl, hchk⟩

/-- The genesis header alone is the tip. -/
theorem WorkInv.init {network : Network} {genesis : BlockHeader} (h0 : genesis.prevBlockhash = 0)
    {c₀ : HeaderCache W} {added : Added W}
    (hinit : (new network : HeaderCache W).addHeader env genesis = (c₀, .ok (some added))) :
    WorkInv env (env.bitcoinHash genesis) c₀ := by
  obtain ⟨htrunk, hroot, _, _, _, honly⟩ := new_addHeader hinit
  refine ⟨TreeOk.init h0 hinit, by rw [htrunk]; rfl, _, added.cached, ?_, hroot, ?_⟩
  · rw [tipHash, htrunk]
    rfl
  · intro k x hx
    rw [(honly k x hx).2]

end HeaderCache

/-! ## Runs of the chain database -/

namespace ChainDb

/-- The database after a header, whatever `addHeader` returns for it. -/
def step (store : BitcoinAdaptor W D) (env : HeaderEnv W) (c : ChainDb W D)
    (header : BlockHeader) : ChainDb W D :=
  ((addHeader store env header).run c).1

/-- The cache of a run is the run of the cache. -/
theorem run_headercache (store : BitcoinAdaptor W D) (env : HeaderEnv W) (c : ChainDb W D)
    (hs : List BlockHeader) :
    (run (step store env) c hs).headercache = run (HeaderCache.step env) c.headercache hs :=
  run_map (addHeader_headercache store env) c hs

/-- What a run from the genesis header with hash `root` may rely on. -/
structure RunChecked (store : BitcoinAdaptor W D) (env : HeaderEnv W) (root : Sha256dHash)
    (c₀ : ChainDb W D) (hs : List BlockHeader) : Prop where
  /-- Every accepted header but the genesis has a known parent and passed its
  check against the target required when it came. -/
  accepted : ∀ k x, (run (step store env) c₀ hs).getHeader k = some x → k ≠ root →
    (∃ p, (run (step store env) c₀ hs).getHeader x.stored.header.prevBlockhash = some p) ∧
    ∃ pre post, hs = pre ++ x.stored.header :: post ∧
      (run (step store env) c₀ pre).headercache.Checked env x.stored.header
  /-- The tip has the most work of all accepted headers. -/
  heaviest : ∃ t, (run (step store env) c₀ hs).headerTip = some t ∧
    ∀ k x, (run (step store env) c₀ hs).getHeader k = some x →
      x.stored.log2work ≤ t.stored.log2work
  /-- The work of the tip never decreases. -/
  monotone : ∀ pre post t t', hs = pre ++ post →
    (run (step store env) c₀ pre).headerTip = some t →
    (run (step store env) c₀ hs).headerTip = some t' → t.stored.log2work ≤ t'.stored.log2work

/-- **Checked headers and the heaviest tip.** In a run from the genesis header in
which no header takes the unchecked genesis path, every accepted header was
checked, and the tip is the heaviest header and never loses work. -/
theorem runChecked_of_guarded (store : BitcoinAdaptor W D) (env : HeaderEnv W)
    (network : Network) (genesisTxid : Sha256dHash) (fuel : Nat) {d : D} {c₀ : ChainDb W D}
    (hempty : store.getKeyedDecodable d headerTipKey = .ok none)
    (hinit : (init store env genesisTxid fuel).run (new d network) = (c₀, .ok ()))
    {hs : List BlockHeader}
    (hok : Guarded (step store env) (fun c x => c.headercache.NoGenesis env x) c₀ hs) :
    RunChecked store env (env.bitcoinHash (genesisHeader genesisTxid network)) c₀ hs := by
  obtain ⟨added, hgen⟩ := init_headercache hempty hinit
  have h0 := genesisHeader_prevBlockhash genesisTxid network
  have hinv := HeaderCache.WorkInv.init h0 hgen
  have honly := (HeaderCache.new_addHeader hgen).2.2.2.2.2
  have hcache : Guarded (HeaderCache.step env) (fun c x => c.NoGenesis env x) c₀.headercache hs :=
    (guarded_map (addHeader_headercache store env)).mp hok
  refine ⟨?_, ?_, ?_⟩
  · intro k x hx hroot
    rw [getHeader, run_headercache] at hx
    have hnew : ¬ c₀.headercache.headers k = some x := fun hold => hroot (honly k x hold).1
    obtain ⟨pre, post, hsplit, hchk⟩ := (hinv.run_checked hcache hx).resolve_left hnew
    refine ⟨?_, pre, post, hsplit, by rwa [run_headercache]⟩
    -- the parent was known when the header was checked, so it is known at the end
    obtain ⟨prev, _, hparent, _, _⟩ := hchk
    rw [hsplit] at hcache
    obtain ⟨hpre, hpost⟩ := guarded_append.mp hcache
    refine ⟨prev, ?_⟩
    rw [getHeader, run_headercache, hsplit, run_append]
    exact (hinv.run hpre).run_known hpost hparent
  · obtain ⟨t, ht, hmax⟩ := (hinv.run hcache).tip
    refine ⟨t, ?_, ?_⟩
    · rw [headerTip, run_headercache, ht]
    · intro k x hx
      rw [getHeader, run_headercache] at hx
      exact hmax k x hx
  · intro pre post t t' hsplit ht ht'
    rw [headerTip, run_headercache] at ht ht'
    rw [hsplit] at hcache ht'
    obtain ⟨hpre, hpost⟩ := guarded_append.mp hcache
    rw [run_append] at ht'
    -- the old tip is still known, and the new tip is the heaviest
    obtain ⟨k, t₁, hlast, ht₁, _⟩ := (hinv.run hpre).heaviest
    have htk : (run (HeaderCache.step env) c₀.headercache pre).headers k = some t := by
      simp only [HeaderCache.tip, hlast, HeaderCache.getHeader] at ht
      exact ht
    obtain ⟨t₂, ht₂, hmax⟩ := ((hinv.run hpre).run hpost).tip
    rw [ht'] at ht₂
    cases ht₂
    exact hmax k t ((hinv.run hpre).run_known hpost htk)

/-! ## A run on each side of the condition -/

/-- A store that keeps nothing and never fails. -/
def nullStore : BitcoinAdaptor Nat Unit where
  putHashKeyed _ := pure ()
  putKeyedEncodable _ _ := pure ()
  batch := pure ()
  getHashKeyed _ _ := .ok none
  getKeyedDecodable _ _ := .ok none

/-- The database over `nullStore` after the regtest genesis header. -/
def unitDb : ChainDb Nat Unit :=
  ((init nullStore HeaderCache.unitEnv 0 0).run (new () .regtest)).1

theorem unitDb_eq : (init nullStore HeaderCache.unitEnv 0 0).run (new () .regtest) =
    (unitDb, .ok ()) :=
  Prod.ext rfl (by decide +kernel)

open HeaderCache in
/-- A branch that overtakes the trunk meets the condition. -/
theorem runChecked_of_guarded_branch :
    RunChecked nullStore unitEnv (unitEnv.bitcoinHash (genesisHeader 0 .regtest)) unitDb
      [unitHeader 2 3, unitHeader 2 4, unitHeader 4 5] := by
  have hok : Guarded (step nullStore unitEnv) (fun c x => c.headercache.NoGenesis unitEnv x)
      unitDb [unitHeader 2 3, unitHeader 2 4, unitHeader 4 5] := by decide +kernel
  exact runChecked_of_guarded nullStore unitEnv .regtest 0 0 rfl unitDb_eq hok

/-- A header with a zero previous hash and the target of difficulty one, which its hash
exceeds. -/
def unworkedHeader : BlockHeader :=
  { version := 1, prevBlockhash := 0, merkleRoot := 1 <<< 255, time := 1296688602,
    bits := 0x1d00ffff, nonce := 7 }

open HeaderCache in
/-- A header with a zero previous hash and no proof of work is accepted, and it has no known
parent. -/
theorem not_runChecked_of_zero_prev :
    unworkedHeader.target < unitEnv.bitcoinHash unworkedHeader ∧
      ¬ RunChecked nullStore unitEnv (unitEnv.bitcoinHash (genesisHeader 0 .regtest)) unitDb
        [unworkedHeader] := by
  refine ⟨by decide +kernel, fun h => ?_⟩
  obtain ⟨⟨p, hp⟩, _⟩ := h.accepted (unitEnv.bitcoinHash unworkedHeader)
    ⟨⟨unworkedHeader, 0, 4295032833⟩, unitEnv.bitcoinHash unworkedHeader⟩
    (by decide +kernel) (by decide +kernel)
  have hnone : (run (step nullStore unitEnv) unitDb [unworkedHeader]).getHeader
      unworkedHeader.prevBlockhash = none := by decide +kernel
  exact nomatch hnone.symm.trans hp

end ChainDb

end Cashbox.Btc
