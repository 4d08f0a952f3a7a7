import Cashbox.Btc.HeaviestTip

/-!
# A header that fails

`add_header` of the database changes the cache first and the store afterwards, and the
cache stores a header before it looks for the way to its tip. Where anything after the
first insert fails, the header stays known: it is never stored, and a retry is answered
as for a known header.
-/

namespace Cashbox.Btc

open Cashbox.Lib

variable {W D : Type}

namespace HeaderCache

/-! ## What the cache stores -/

section Cache

variable [LinearOrder W] (env : HeaderEnv W)

/-- The header as `addHeader` puts it in the cache, with its parent: an unknown header
with a zero previous hash, or one that passes the check below a known parent. -/
inductive StoredAs (c : HeaderCache W) (header : BlockHeader) :
    Option (CachedHeader W) → CachedHeader W → Prop where
  | genesis (log2work : W) (hk : c.headers (env.bitcoinHash header) = none)
      (hprev : header.prevBlockhash = 0) (hwork : env.genesisWork header = some log2work) :
      StoredAs c header none ⟨⟨header, 0, log2work⟩, env.bitcoinHash header⟩
  | below (prev cached : CachedHeader W) (hk : c.headers (env.bitcoinHash header) = none)
      (hprev : header.prevBlockhash ≠ 0) (hparent : c.headers header.prevBlockhash = some prev)
      (hchk : c.checkHeader env prev header = some cached) :
      StoredAs c header (some prev) cached

/-- With the header stored, the tip is known and has at least its work, or the way from
its parent back to the trunk is found. -/
def Connected (c : HeaderCache W) (prev cached : CachedHeader W) : Prop :=
  ∃ tip, (c.insert cached.id cached).tip = some tip ∧
    (tip.stored.log2work < cached.stored.log2work → ∃ r,
      (c.insert cached.id cached).pathToNewTip (prev.stored.height + 2)
        cached.stored.header.prevBlockhash [] = .ok r)

/-- The header becomes the tip. -/
def BecomesTip (c : HeaderCache W) (parent : Option (CachedHeader W)) (cached : CachedHeader W) :
    Prop :=
  parent = none ∨ ∃ tip, (c.insert cached.id cached).tip = some tip ∧
    tip.stored.log2work < cached.stored.log2work

variable {env} {c : HeaderCache W}

omit [LinearOrder W] in
theorem mem_of_posOnTrunk {k : Sha256dHash} (h : ¬ (c.posOnTrunk k).isNone) : k ∈ c.trunk := by
  by_contra hmem
  rw [posOnTrunk_eq_none.mpr hmem] at h
  exact h rfl

omit [LinearOrder W] in
/-- The search ends on the trunk, and what it collects on the way is known or on the
trunk. -/
theorem pathToNewTip_known {fuel : Nat} {k forksAt : Sha256dHash} {path path' : List Sha256dHash}
    (h : c.pathToNewTip fuel k path = .ok (forksAt, path'))
    (hpath : ∀ a ∈ path, a = k ∨ a ∈ c.trunk ∨ (c.headers a).isSome) :
    forksAt ∈ c.trunk ∧ ∀ a ∈ path', a ∈ c.trunk ∨ (c.headers a).isSome := by
  have hdone : k ∈ c.trunk → ∀ a ∈ path, a ∈ c.trunk ∨ (c.headers a).isSome := by
    intro hk a ha
    rcases hpath a ha with rfl | hrest
    · exact .inl hk
    · exact hrest
  induction fuel generalizing k path with
  | zero =>
    rw [pathToNewTip] at h
    split_ifs at h with hpos
    obtain ⟨rfl, rfl⟩ := Prod.mk.inj (Outcome.ok.inj h)
    exact ⟨mem_of_posOnTrunk hpos, hdone (mem_of_posOnTrunk hpos)⟩
  | succ fuel ih =>
    rw [pathToNewTip] at h
    split_ifs at h with hpos
    · cases hx : c.headers k with
      | none => simp [hx] at h
      | some x =>
        simp only [hx] at h
        -- the hash that the search leaves is known
        have hold : ∀ a ∈ path, a ∈ c.trunk ∨ (c.headers a).isSome := by
          intro a ha
          rcases hpath a ha with rfl | hrest
          · exact .inr (by simp [hx])
          · exact hrest
        refine ih h ?_ ?_
        · intro a ha
          rcases List.mem_append.mp ha with ha | ha
          · exact .inr (hold a ha)
          · exact .inl (List.mem_singleton.mp ha)
        · intro hk a ha
          rcases List.mem_append.mp ha with ha | ha
          · exact hold a ha
          · exact .inl (List.mem_singleton.mp ha ▸ hk)
    · obtain ⟨rfl, rfl⟩ := Prod.mk.inj (Outcome.ok.inj h)
      exact ⟨mem_of_posOnTrunk hpos, hdone (mem_of_posOnTrunk hpos)⟩

/-- A move of the tip succeeds exactly if the search does; it changes only the trunk, by
hashes that are known. -/
inductive MoveCase (c : HeaderCache W) (prev cached : CachedHeader W) :
    HeaderCache W × Outcome Error (Added W) → Prop where
  | moved (trunk : List Sha256dHash) (added : Added W)
      (hpath : ∃ r, c.pathToNewTip (prev.stored.height + 2)
        cached.stored.header.prevBlockhash [] = .ok r)
      (hcached : added.cached = cached)
      (hforwards : added.forwards.bind List.getLast? = some cached.id)
      (htrunk : ∀ a ∈ trunk, a = cached.id ∨ a ∈ c.trunk ∨ (c.headers a).isSome) :
      MoveCase c prev cached ({ c with trunk := trunk }, .ok added)
  | lost (result : Outcome Error (Added W))
      (hpath : ¬ ∃ r, c.pathToNewTip (prev.stored.height + 2)
        cached.stored.header.prevBlockhash [] = .ok r)
      (hres : ∀ added, result ≠ .ok added) : MoveCase c prev cached (c, result)

omit [LinearOrder W] in
theorem moveTip_cases (prev cached : CachedHeader W) :
    MoveCase c prev cached (c.moveTip prev cached) := by
  simp only [moveTip]
  cases hpath : c.pathToNewTip (prev.stored.height + 2) cached.stored.header.prevBlockhash [] with
  | err e => exact .lost _ (by simp [hpath]) (by simp)
  | panic p => exact .lost _ (by simp [hpath]) (by simp)
  | ok r =>
    obtain ⟨forksAt, path⟩ := r
    obtain ⟨hfork, hknown⟩ := pathToNewTip_known hpath (by simp)
    have hpart : ∀ kept, kept ⊆ c.trunk → ∀ a ∈ kept ++ (path.reverse ++ [cached.id]),
        a = cached.id ∨ a ∈ c.trunk ∨ (c.headers a).isSome := by
      intro kept hkept a ha
      simp only [List.mem_append, List.mem_reverse, List.mem_singleton] at ha
      rcases ha with ha | ha | ha
      · exact .inr (.inl (hkept ha))
      · exact .inr (hknown a ha)
      · exact .inl ha
    by_cases hne : forksAt ≠ cached.stored.header.prevBlockhash
    · obtain ⟨pos, hpos⟩ := rposition_of_mem hfork
      simp only [if_pos hne, hpos]
      exact .moved _ _ ⟨_, hpath⟩ rfl (by simp) (hpart _ (List.take_subset _ _))
    · simp only [if_neg hne]
      exact .moved _ _ ⟨_, hpath⟩ rfl (by simp) (hpart _ (List.Subset.refl _))

/-- What becomes of a header that the cache stores. -/
inductive StoreCase (c : HeaderCache W) (prev cached : CachedHeader W) :
    HeaderCache W × Outcome Error (Added W) → Prop where
  | added (trunk : List Sha256dHash) (added : Added W) (hconn : c.Connected prev cached)
      (hcached : added.cached = cached)
      (htip : added.forwards.bind List.getLast? = some cached.id ∧ c.BecomesTip (some prev) cached ∨
        added.forwards.bind List.getLast? = none ∧ ¬ c.BecomesTip (some prev) cached)
      (htrunk : ∀ a ∈ trunk, a = cached.id ∨ a ∈ c.trunk ∨ (c.headers a).isSome) :
      StoreCase c prev cached ({ c.insert cached.id cached with trunk := trunk }, .ok added)
  | failed (trunk : List Sha256dHash) (result : Outcome Error (Added W))
      (hconn : ¬ c.Connected prev cached) (hres : ∀ added, result ≠ .ok added) :
      StoreCase c prev cached ({ c.insert cached.id cached with trunk := trunk }, result)

theorem storeHeader_cases (prev cached : CachedHeader W) :
    StoreCase c prev cached (c.storeHeader prev cached) := by
  simp only [storeHeader]
  cases htip : (c.insert cached.id cached).tip with
  | none => exact .failed c.trunk _ (by simp [Connected, htip]) (by simp)
  | some tip =>
    by_cases hlt : tip.stored.log2work < cached.stored.log2work
    · simp only [if_pos hlt]
      have hbecomes : c.BecomesTip (some prev) cached := .inr ⟨tip, htip, hlt⟩
      have hcase := moveTip_cases (c := c.insert cached.id cached) prev cached
      -- the trunk moves along a path, or the path is lost and nothing is reported
      generalize (c.insert cached.id cached).moveTip prev cached = r at hcase
      cases hcase with
      | moved trunk added hpath hcached hforwards htrunk =>
        refine .added trunk added ⟨tip, htip, fun _ => hpath⟩ hcached
          (.inl ⟨hforwards, hbecomes⟩) ?_
        intro a ha
        rcases htrunk a ha with ha | ha | ha
        · exact .inl ha
        · exact .inr (.inl ha)
        · rw [insert_headers] at ha
          split_ifs at ha with hid
          · exact .inl hid
          · exact .inr (.inr ha)
      | lost result hpath hres =>
        refine .failed c.trunk result ?_ hres
        rintro ⟨tip', htip', hfound⟩
        rw [htip] at htip'
        cases htip'
        exact hpath (hfound hlt)
    · -- the tip stays, and the header is on a branch
      simp only [if_neg hlt]
      refine .added c.trunk ⟨cached, none, none⟩ ⟨tip, htip, fun h => absurd h hlt⟩ rfl
        (.inr ⟨rfl, ?_⟩) (fun a ha => .inr (.inl ha))
      rintro (hnone | ⟨tip', htip', hlt'⟩)
      · cases hnone
      · rw [htip] at htip'
        cases htip'
        exact hlt hlt'

omit [LinearOrder W] in
/-- The header as the cache stores it is determined. -/
theorem StoredAs.unique {cache : HeaderCache W} {header : BlockHeader}
    {parent parent' : Option (CachedHeader W)} {cached cached' : CachedHeader W}
    (h : StoredAs env cache header parent cached) (h' : StoredAs env cache header parent' cached') :
    parent' = parent ∧ cached' = cached := by
  cases h with
  | genesis log2work hk hprev hwork =>
    cases h' with
    | genesis log2work' _ _ hwork' =>
      rw [hwork] at hwork'
      cases hwork'
      exact ⟨rfl, rfl⟩
    | below prev' cached' _ hprev' => exact absurd hprev hprev'
  | below prev cached hk hprev hparent hchk =>
    cases h' with
    | genesis log2work' _ hprev' => exact absurd hprev' hprev
    | below prev' cached' _ _ hparent' hchk' =>
      rw [hparent] at hparent'
      cases hparent'
      rw [hchk] at hchk'
      cases hchk'
      exact ⟨rfl, rfl⟩

omit [LinearOrder W] in
theorem StoredAs.id_eq {cache : HeaderCache W} {header : BlockHeader}
    {parent : Option (CachedHeader W)} {cached : CachedHeader W}
    (h : StoredAs env cache header parent cached) :
    cached.id = env.bitcoinHash cached.stored.header ∧ cache.headers cached.id = none := by
  cases h with
  | genesis log2work hk hprev hwork => exact ⟨rfl, hk⟩
  | below prev cached hk hprev hparent hchk =>
    obtain ⟨_, hheader, hid, _, _⟩ := checkHeader_eq_some hchk
    exact ⟨by rw [hid, hheader], by rw [hid, hk]⟩

end Cache

end HeaderCache

/-! ## What was handed to the store -/

namespace ChainDb

open HeaderCache

/-- A store that also records the headers that it took. -/
def recording (store : BitcoinAdaptor W D) : BitcoinAdaptor W (D × List (StoredHeader W)) where
  putHashKeyed stored := ⟨fun d =>
    let (d', r) := (store.putHashKeyed stored).run d.1
    ((d', if r.isOk then d.2 ++ [stored] else d.2), r)⟩
  putKeyedEncodable key hash :=
    (store.putKeyedEncodable key hash).on Prod.fst fun d d' => (d', d.2)
  batch := store.batch.on Prod.fst fun d d' => (d', d.2)
  getHashKeyed d k := store.getHashKeyed d.1 k
  getKeyedDecodable d key := store.getKeyedDecodable d.1 key

section Calls

variable [LinearOrder W] (store : BitcoinAdaptor W D) (env : HeaderEnv W)

/-- A call that does not return `Ok` leaves the cache as it was. -/
def NoTrace (c : ChainDb W (D × List (StoredHeader W))) (header : BlockHeader) : Prop :=
  ¬ ((addHeader (recording store) env header).run c).2.isOk →
    ((addHeader (recording store) env header).run c).1.headercache = c.headercache

/-- Every header on the trunk was handed to the store, which took it. -/
def TrunkHanded (c : ChainDb W (D × List (StoredHeader W))) : Prop :=
  ∀ k ∈ c.headercache.trunk, ∃ stored ∈ c.db.2, env.bitcoinHash stored.header = k

/-- What is asked of a call. -/
def LeavesNoTrace (c : ChainDb W (D × List (StoredHeader W))) (header : BlockHeader) : Prop :=
  NoTrace store env c header ∧ TrunkHanded env (step (recording store) env c header)

/-- The condition on a call: when the cache stores the header, it also finds the way to
it, and the store takes the header and the new tip. -/
def TakesAll (c : ChainDb W (D × List (StoredHeader W))) (header : BlockHeader) : Prop :=
  ∀ parent cached, StoredAs env c.headercache header parent cached →
    (∀ prev, parent = some prev → c.headercache.Connected prev cached) ∧
    ∃ d, (store.putHashKeyed cached.stored).run c.db.1 = (d, .ok ()) ∧
      (c.headercache.BecomesTip parent cached →
        ((store.putKeyedEncodable headerTipKey cached.id).run d).2.isOk)

/-- Every known header was handed to the store, and the trunk is known. -/
structure AllHanded (c : ChainDb W (D × List (StoredHeader W))) : Prop where
  handed : ∀ k x, c.headercache.headers k = some x →
    x.stored ∈ c.db.2 ∧ env.bitcoinHash x.stored.header = k
  known : ∀ k ∈ c.headercache.trunk, ∃ x, c.headercache.headers k = some x

variable {store env} {c : ChainDb W (D × List (StoredHeader W))}

omit [LinearOrder W] in
theorem AllHanded.trunkHanded (h : AllHanded env c) : TrunkHanded env c := by
  intro k hk
  obtain ⟨x, hx⟩ := h.known k hk
  obtain ⟨hmem, hhash⟩ := h.handed k x hx
  exact ⟨x.stored, hmem, hhash⟩

omit [LinearOrder W] in
/-- A header that was stored and handed. -/
theorem AllHanded.insert (h : AllHanded env c) {cached : CachedHeader W} {d : D}
    {trunk : List Sha256dHash} (hid : cached.id = env.bitcoinHash cached.stored.header)
    (htrunk : ∀ a ∈ trunk, a = cached.id ∨ a ∈ c.headercache.trunk ∨
      (c.headercache.headers a).isSome) :
    AllHanded env { c with
      headercache := { c.headercache.insert cached.id cached with trunk := trunk },
      db := (d, c.db.2 ++ [cached.stored]) } where
  handed := by
    intro k x hx
    have hx' : (c.headercache.insert cached.id cached).headers k = some x := hx
    rw [insert_headers] at hx'
    split_ifs at hx' with hkid
    · cases hx'
      exact ⟨by simp, by rw [hkid, hid]⟩
    · obtain ⟨hmem, hhash⟩ := h.handed k x hx'
      exact ⟨List.mem_append_left _ hmem, hhash⟩
  known := by
    intro k hmem
    show ∃ x, (c.headercache.insert cached.id cached).headers k = some x
    by_cases hkid : k = cached.id
    · exact ⟨cached, by rw [hkid, insert_headers_self]⟩
    · rw [insert_headers_ne _ _ hkid]
      rcases htrunk k hmem with rfl | hold | hold
      · exact absurd rfl hkid
      · exact h.known k hold
      · exact Option.isSome_iff_exists.mp hold

/-! ## One call -/

omit [LinearOrder W] in
/-- The calls of the store after the cache added a header. -/
theorem storeAdded_isOk_iff {added : Added W} :
    ((storeAdded (recording store) added).run c).2.isOk ↔
      ∃ d, (store.putHashKeyed added.cached.stored).run c.db.1 = (d, .ok ()) ∧
        ∀ last, added.forwards.bind List.getLast? = some last →
          ((store.putKeyedEncodable headerTipKey last).run d).2.isOk := by
  unfold storeAdded
  rcases hput : (store.putHashKeyed added.cached.stored).run c.db.1 with ⟨d, u | e | p⟩
  · have hrun : (onDb ((recording store).putHashKeyed added.cached.stored)).run c =
        ({ c with db := (d, c.db.2 ++ [added.cached.stored]) }, .ok ()) := by
      simp [onDb, recording, hput, Outcome.isOk]
    rw [Method.run_bind_of_ok hrun]
    cases hlast : added.forwards.bind List.getLast? with
    | none => simp [Outcome.isOk]
    | some last => simp [storeHeaderTip, onDb, recording]
  · have hrun : (onDb ((recording store).putHashKeyed added.cached.stored)).run c =
        ({ c with db := (d, c.db.2) }, .err e) := by
      simp [onDb, recording, hput, Outcome.isOk]
    rw [Method.run_bind_of_err hrun]
    simp [Outcome.isOk]
  · have hrun : (onDb ((recording store).putHashKeyed added.cached.stored)).run c =
        ({ c with db := (d, c.db.2) }, .panic p) := by
      simp [onDb, recording, hput, Outcome.isOk]
    rw [Method.run_bind_of_panic hrun]
    simp [Outcome.isOk]

omit [LinearOrder W] in
/-- A header that the store took is recorded. -/
theorem storeAdded_run {added : Added W}
    (hok : ((storeAdded (recording store) added).run c).2.isOk) :
    ∃ d, ((storeAdded (recording store) added).run c).1 =
      { c with db := (d, c.db.2 ++ [added.cached.stored]) } := by
  obtain ⟨d, hput, _⟩ := storeAdded_isOk_iff.mp hok
  have hrun : (onDb ((recording store).putHashKeyed added.cached.stored)).run c =
      ({ c with db := (d, c.db.2 ++ [added.cached.stored]) }, .ok ()) := by
    simp [onDb, recording, hput, Outcome.isOk]
  unfold storeAdded
  rw [Method.run_bind_of_ok hrun]
  cases added.forwards.bind List.getLast? with
  | none => exact ⟨d, rfl⟩
  | some last => exact ⟨_, rfl⟩

/-- After the cache added a header, the call is that of the store. -/
theorem run_addHeader_of_cache (store : BitcoinAdaptor W D) {header : BlockHeader}
    {cache : HeaderCache W} {added : Added W}
    (hcache : c.headercache.addHeader env header = (cache, .ok (some added))) :
    ((addHeader (recording store) env header).run c).1 =
        ((storeAdded (recording store) added).run { c with headercache := cache }).1 ∧
      ((addHeader (recording store) env header).run c).2.isOk =
        ((storeAdded (recording store) added).run { c with headercache := cache }).2.isOk := by
  have hrun : (onCache ⟨fun cache => cache.addHeader env header⟩ :
      Method (ChainDb W (D × List (StoredHeader W))) Error _).run c =
      ({ c with headercache := cache }, .ok (some added)) := by
    show ({ c with headercache := (c.headercache.addHeader env header).1 },
      (c.headercache.addHeader env header).2) = _
    rw [hcache]
  unfold addHeader
  rw [Method.run_bind_of_ok hrun]
  rcases hadded : (storeAdded (recording store) added).run { c with headercache := cache } with
    ⟨c', u | e | p⟩
  · rw [Method.run_bind_of_ok hadded]
    exact ⟨rfl, rfl⟩
  · rw [Method.run_bind_of_err hadded]
    exact ⟨rfl, rfl⟩
  · rw [Method.run_bind_of_panic hadded]
    exact ⟨rfl, rfl⟩

/-- A call whose header the cache adds. -/
theorem leavesNoTrace_of_added (h : AllHanded env c) {header : BlockHeader}
    {parent : Option (CachedHeader W)} {cached : CachedHeader W} {added : Added W}
    {trunk : List Sha256dHash} (hstored : StoredAs env c.headercache header parent cached)
    (hcache : c.headercache.addHeader env header =
      ({ c.headercache.insert cached.id cached with trunk := trunk }, .ok (some added)))
    (hcached : added.cached = cached)
    (htip : added.forwards.bind List.getLast? = some cached.id ∧
        c.headercache.BecomesTip parent cached ∨
      added.forwards.bind List.getLast? = none ∧ ¬ c.headercache.BecomesTip parent cached)
    (hconn : ∀ prev, parent = some prev → c.headercache.Connected prev cached)
    (htrunk : ∀ a ∈ trunk, a = cached.id ∨ a ∈ c.headercache.trunk ∨
      (c.headercache.headers a).isSome) :
    (LeavesNoTrace store env c header ↔ TakesAll store env c header) ∧
      (TakesAll store env c header → AllHanded env (step (recording store) env c header)) := by
  obtain ⟨hid, hk⟩ := hstored.id_eq
  obtain ⟨hrun, hisOk⟩ := run_addHeader_of_cache store hcache
  -- the call succeeds exactly if the store takes the header and the tip
  have htakes : TakesAll store env c header ↔
      ((addHeader (recording store) env header).run c).2.isOk := by
    rw [hisOk, storeAdded_isOk_iff, hcached]
    have hlast : ∀ d, (∀ last, added.forwards.bind List.getLast? = some last →
          ((store.putKeyedEncodable headerTipKey last).run d).2.isOk) ↔
        (c.headercache.BecomesTip parent cached →
          ((store.putKeyedEncodable headerTipKey cached.id).run d).2.isOk) := by
      intro d
      rcases htip with ⟨hsome, hbecomes⟩ | ⟨hnone, hbecomes⟩
      · simp [hsome, hbecomes]
      · simp [hnone, hbecomes]
    constructor
    · intro hall
      obtain ⟨_, d, hput, hmoves⟩ := hall parent cached hstored
      exact ⟨d, hput, (hlast d).mpr hmoves⟩
    · rintro ⟨d, hput, hmoves⟩ parent' cached' hstored'
      obtain ⟨rfl, rfl⟩ := hstored.unique hstored'
      exact ⟨hconn, d, hput, (hlast d).mp hmoves⟩
  have hkeeps : TakesAll store env c header →
      AllHanded env (step (recording store) env c header) := by
    intro hall
    have hok := htakes.mp hall
    rw [hisOk] at hok
    obtain ⟨d, hdb⟩ := storeAdded_run hok
    unfold step
    rw [hrun, hdb, hcached]
    exact h.insert hid htrunk
  refine ⟨⟨?_, ?_⟩, hkeeps⟩
  · rintro ⟨hnotrace, _⟩
    rw [htakes]
    by_contra hfail
    -- a header that was not known is known now
    have hsame := hnotrace hfail
    rw [addHeader_headercache, hcache] at hsame
    have hknown : (c.headercache.insert cached.id cached).headers cached.id = none := by
      rw [← hk]
      exact congrArg (fun cache => cache.headers cached.id) hsame
    rw [insert_headers_self] at hknown
    cases hknown
  · intro hall
    exact ⟨fun hfail => absurd (htakes.mp hall) hfail, (hkeeps hall).trunkHanded⟩

/-- **One call.** It leaves no trace exactly if everything after the first insert
succeeds; then all that is known was handed to the store. -/
theorem leavesNoTrace_iff (h : AllHanded env c) (header : BlockHeader) :
    (LeavesNoTrace store env c header ↔ TakesAll store env c header) ∧
      (TakesAll store env c header → AllHanded env (step (recording store) env c header)) := by
  have hcase := addHeader_cases env c.headercache header
  -- a call that does not reach the cache changes nothing
  have hnothing : (c.headercache.addHeader env header).1 = c.headercache →
      (∀ added, (c.headercache.addHeader env header).2 ≠ .ok (some added)) →
      (∀ parent cached, ¬ StoredAs env c.headercache header parent cached) →
      (LeavesNoTrace store env c header ↔ TakesAll store env c header) ∧
        (TakesAll store env c header →
          AllHanded env (step (recording store) env c header)) := by
    intro hsame hres hnone
    have hrun : ((addHeader (recording store) env header).run c).1 = c := by
      rw [run_addHeader_of_not_added hres, hsame]
    have hstep : step (recording store) env c header = c := hrun
    refine ⟨iff_of_true ⟨fun _ => by rw [hrun], ?_⟩ ?_, fun _ => by rwa [hstep]⟩
    · rw [hstep]
      exact h.trunkHanded
    · intro parent cached hstored
      exact absurd hstored (hnone parent cached)
  generalize hr : c.headercache.addHeader env header = r at hcase hnothing
  cases hcase with
  | known hk =>
    refine hnothing rfl (by simp) ?_
    intro parent cached hstored
    cases hstored with
    | genesis log2work hk' hprev hwork => simp [hk'] at hk
    | below prev cached hk' hprev hparent hchk => simp [hk'] at hk
  | refused result hk hres hchk hgen =>
    refine hnothing rfl (fun added => hres _) ?_
    intro parent cached hstored
    cases hstored with
    | genesis log2work _ hprev hwork => simp [hgen hprev] at hwork
    | below prev cached _ hprev hparent hsome => simp [hchk prev hprev hparent] at hsome
  | genesis log2work hk hprev hwork =>
    refine leavesNoTrace_of_added h (.genesis log2work hk hprev hwork) hr rfl
      (.inl ⟨rfl, .inl rfl⟩) (by simp) ?_
    intro a ha
    rcases List.mem_append.mp ha with ha | ha
    · exact .inr (.inl ha)
    · exact .inl (List.mem_singleton.mp ha)
  | stored prev cached hk hprev hparent hchk =>
    have hstored := StoredAs.below prev cached hk hprev hparent hchk
    have hstore := storeHeader_cases (c := c.headercache) prev cached
    generalize c.headercache.storeHeader prev cached = s at hr hstore
    cases hstore with
    | added trunk added hconn hcached htip htrunk =>
      refine leavesNoTrace_of_added h hstored hr hcached htip ?_ htrunk
      intro prev' hprev'
      cases hprev'
      exact hconn
    | failed trunk result hconn hres =>
      -- the cache fails after the insert
      have hfail : ¬ TakesAll store env c header := by
        intro hall
        exact hconn ((hall _ _ hstored).1 prev rfl)
      have hnotOk : ∀ r, (c.headercache.addHeader env header).2 ≠ .ok r := by
        intro r hok
        rw [hr] at hok
        obtain ⟨added, hadded, _⟩ := Outcome.bind_eq_ok.mp hok
        exact hres added hadded
      refine ⟨iff_of_false ?_ hfail, fun hall => absurd hall hfail⟩
      rintro ⟨hnotrace, _⟩
      obtain ⟨_, hnew⟩ := hstored.id_eq
      have hsame := hnotrace (by
        rw [run_addHeader_of_not_added fun added => hnotOk _]
        intro hok
        obtain ⟨r, hr'⟩ := Outcome.isOk_iff.mp hok
        exact hnotOk r hr')
      rw [addHeader_headercache, hr] at hsame
      have hknown : (c.headercache.insert cached.id cached).headers cached.id = none := by
        rw [← hnew]
        exact congrArg (fun cache => cache.headers cached.id) hsame
      rw [insert_headers_self] at hknown
      cases hknown

/-! ## Runs -/

omit [LinearOrder W] in
/-- Reading headers that the store took before. -/
theorem AllHanded.readHeaders {fuel : Nat} {k : Sha256dHash} (h : AllHanded env c)
    (hheld : ∀ k stored, store.getHashKeyed c.db.1 k = .ok (some stored) →
      stored ∈ c.db.2 ∧ env.bitcoinHash stored.header = k) :
    AllHanded env ((readHeaders (recording store) fuel k).run c).1 := by
  -- on the fuel: what was fetched is in the store, and the loop goes on with its parent
  induction fuel generalizing k c with
  | zero => exact h
  | succ fuel ih =>
    have hfetch : (fetchHeader (recording store) k).run c =
        (c, store.getHashKeyed c.db.1 k) := rfl
    cases hget : store.getHashKeyed c.db.1 k with
    | err e =>
      rw [ChainDb.readHeaders, Method.run_bind_of_err (hfetch.trans (by rw [hget]))]
      exact h
    | panic p =>
      rw [ChainDb.readHeaders, Method.run_bind_of_panic (hfetch.trans (by rw [hget]))]
      exact h
    | ok r =>
      rw [ChainDb.readHeaders, Method.run_bind_of_ok (hfetch.trans (by rw [hget]))]
      cases r with
      | none => exact h
      | some stored =>
        obtain ⟨hmem, hhash⟩ := hheld k stored hget
        have hput : (onCache (Method.modify fun cache => cache.addHeaderUnchecked k stored) :
            Method (ChainDb W (D × List (StoredHeader W))) Error Unit).run c =
            ({ c with headercache := c.headercache.addHeaderUnchecked k stored }, .ok ()) := rfl
        simp only [Method.run_bind_of_ok hput]
        have hnext : AllHanded env
            { c with headercache := c.headercache.addHeaderUnchecked k stored } := by
          constructor
          · intro k' x hx
            simp only [addHeaderUnchecked, insert_headers] at hx
            split_ifs at hx with hk'
            · cases hx
              exact ⟨hmem, hhash.trans hk'.symm⟩
            · exact h.handed k' x hx
          · intro k' hk'
            show ∃ x, (c.headercache.insert k ⟨stored, k⟩).headers k' = some x
            rw [insert_headers]
            split_ifs with hkk
            · exact ⟨_, rfl⟩
            · rcases List.mem_append.mp hk' with hk' | hk'
              · exact h.known k' hk'
              · exact absurd (List.mem_singleton.mp hk') hkk
        split_ifs
        · exact ih hnext hheld
        · exact hnext

/-- After `init` all that is known was handed to the store, now or in an earlier
session. -/
theorem AllHanded.init {genesisTxid : Sha256dHash} {network : Network} {fuel : Nat} {d : D}
    {log : List (StoredHeader W)} {c₀ : ChainDb W (D × List (StoredHeader W))}
    (hheld : ∀ k stored, store.getHashKeyed d k = .ok (some stored) →
      stored ∈ log ∧ env.bitcoinHash stored.header = k)
    (hinit : (init (recording store) env genesisTxid fuel).run (new (d, log) network) =
      (c₀, .ok ())) : AllHanded env c₀ := by
  have hnew : AllHanded env (new (d, log) network : ChainDb W (D × List (StoredHeader W))) :=
    ⟨fun k x hx => (nomatch hx), fun k hk => (nomatch hk)⟩
  have hfetch : (fetchHeaderTip (recording store)).run
      (new (d, log) network : ChainDb W (D × List (StoredHeader W))) =
      (new (d, log) network, store.getKeyedDecodable d headerTipKey) := rfl
  cases hkey : store.getKeyedDecodable d headerTipKey with
  | err e =>
    rw [ChainDb.init, Method.run_bind_of_err (hfetch.trans (by rw [hkey]))] at hinit
    cases hinit
  | panic p =>
    rw [ChainDb.init, Method.run_bind_of_panic (hfetch.trans (by rw [hkey]))] at hinit
    cases hinit
  | ok r =>
    cases r with
    | some tip =>
      rw [ChainDb.init, Method.run_bind_of_ok (hfetch.trans (by rw [hkey]))] at hinit
      obtain ⟨c₁, _, hread, hreverse⟩ := Method.run_bind_eq_ok.mp hinit
      have hc₁ : AllHanded env c₁ := by
        rw [show c₁ = _ from (congrArg Prod.fst hread).symm]
        exact hnew.readHeaders hheld
      rw [show c₀ = _ from (congrArg Prod.fst hreverse).symm]
      exact ⟨hc₁.handed, fun k hk => hc₁.known k (List.mem_reverse.mp hk)⟩
    | none =>
      have hempty : (recording store).getKeyedDecodable (d, log) headerTipKey = .ok none := hkey
      obtain ⟨added, hgen⟩ := init_headercache hempty hinit
      rw [ChainDb.init, Method.run_bind_of_ok (hfetch.trans (by rw [hkey])),
        Method.run_bind_of_ok (Method.run_get _)] at hinit
      have hcache : (onCache
          ⟨fun cache => cache.addHeader env (genesisHeader genesisTxid network)⟩ :
          Method (ChainDb W (D × List (StoredHeader W))) Error _).run (new (d, log) network) =
          (⟨(d, log), ((HeaderCache.new network).addHeader env
            (genesisHeader genesisTxid network)).1, network⟩,
            ((HeaderCache.new network).addHeader env (genesisHeader genesisTxid network)).2) := rfl
      rw [hgen] at hcache
      rw [show (new (d, log) network : ChainDb W (D × List (StoredHeader W))).network = network
        from rfl, Method.run_bind_of_ok hcache] at hinit
      obtain ⟨c₂, _, hput, hrest⟩ := Method.run_bind_eq_ok.mp hinit
      -- what follows the put leaves the record as it is
      have hkeep : (do
          batch (recording store)
          storeHeaderTip (recording store) added.cached.id
          batch (recording store) :
            Method (ChainDb W (D × List (StoredHeader W))) Error Unit).Keeps fun c => c.db.2 :=
        Method.Keeps.bind (fun _ => rfl) fun _ => Method.Keeps.bind (fun _ => rfl) fun _ _ => rfl
      have hlog : c₀.db.2 = log ++ [added.cached.stored] := by
        have hlast : c₀.db.2 = c₂.db.2 := by
          rw [show c₀ = _ from (congrArg Prod.fst hrest).symm]
          exact hkeep c₂
        rw [hlast]
        have hok := congrArg Prod.snd hput
        rw [show c₂ = _ from (congrArg Prod.fst hput).symm]
        simp only [onDb, recording, Method.run_on] at hok ⊢
        rw [hok]
        rfl
      obtain ⟨htrunk, hroot, hid, hheader, _, honly⟩ := new_addHeader hgen
      constructor
      · intro k x hx
        obtain ⟨rfl, rfl⟩ := honly k x hx
        exact ⟨by simp [hlog], by rw [hheader]⟩
      · intro k hk
        rw [htrunk, List.mem_singleton] at hk
        exact ⟨_, hk ▸ hroot⟩

/-- **Failures leave no trace** exactly in the runs in which everything succeeds that
follows the insert of a header into the cache. -/
theorem leavesNoTrace_run_iff (store : BitcoinAdaptor W D) (env : HeaderEnv W)
    (genesisTxid : Sha256dHash) (network : Network) (fuel : Nat) {d : D}
    {log : List (StoredHeader W)} {c₀ : ChainDb W (D × List (StoredHeader W))}
    (hheld : ∀ k stored, store.getHashKeyed d k = .ok (some stored) →
      stored ∈ log ∧ env.bitcoinHash stored.header = k)
    (hinit : (init (recording store) env genesisTxid fuel).run (new (d, log) network) =
      (c₀, .ok ())) (hs : List BlockHeader) :
    TrunkHanded env c₀ ∧
        Guarded (step (recording store) env) (LeavesNoTrace store env) c₀ hs ↔
      Guarded (step (recording store) env) (TakesAll store env) c₀ hs := by
  have hinv := AllHanded.init hheld hinit
  rw [and_iff_right hinv.trunkHanded]
  have hiff : ∀ c header, AllHanded env c →
      (LeavesNoTrace store env c header ↔ TakesAll store env c header) :=
    fun c header hc => (leavesNoTrace_iff hc header).1
  have hstep : ∀ c header, AllHanded env c → TakesAll store env c header →
      AllHanded env (step (recording store) env c header) :=
    fun c header hc => (leavesNoTrace_iff hc header).2
  exact guarded_iff_of_invariant hiff hstep hinv

end Calls

/-! ## A run on each side of the condition -/

/-- A store with room for one header. -/
def fullStore : BitcoinAdaptor Nat Bool where
  putHashKeyed _ := ⟨fun full => (true, if full then .err .hammersbald else .ok ())⟩
  putKeyedEncodable _ _ := pure ()
  batch := pure ()
  getHashKeyed _ _ := .ok none
  getKeyedDecodable _ _ := .ok none

/-- The database over a store that records, after the regtest genesis header. -/
def recordedDb (store : BitcoinAdaptor Nat D) (d : D) : ChainDb Nat (D × List (StoredHeader Nat)) :=
  ((init (recording store) unitEnv 0 0).run (new (d, []) .regtest)).1

/-- A header that moves the tip, over a store that never fails, and then the same header
again and one without a parent. -/
theorem leavesNoTrace_run_moves :
    TrunkHanded unitEnv (recordedDb nullStore ()) ∧
      Guarded (step (recording nullStore) unitEnv) (LeavesNoTrace nullStore unitEnv)
        (recordedDb nullStore ()) [unitHeader 2 3, unitHeader 2 3, unitHeader 9 4] := by
  have hinit : (init (recording nullStore) unitEnv 0 0).run (new ((), []) .regtest) =
      (recordedDb nullStore (), .ok ()) := rfl
  refine (leavesNoTrace_run_iff nullStore unitEnv 0 .regtest 0 (by simp [nullStore]) hinit _).mpr ?_
  refine ⟨?_, ?_, ?_, trivial⟩
  · intro parent cached hstored
    obtain ⟨rfl, rfl⟩ := StoredAs.unique
      (.below ⟨⟨genesisHeader 0 .regtest, 0, 2⟩, 2⟩ ⟨⟨unitHeader 2 3, 1, 4⟩, 3⟩
        (by decide +kernel) (by decide) (by decide +kernel) (by decide +kernel)) hstored
    refine ⟨?_, (), rfl, fun _ => rfl⟩
    intro prev hprev
    cases hprev
    exact ⟨⟨⟨genesisHeader 0 .regtest, 0, 2⟩, 2⟩, by decide +kernel,
      fun _ => ⟨(2, []), by decide +kernel⟩⟩
  · intro parent cached hstored
    cases hstored with
    | genesis log2work hk => exact absurd hk (by decide +kernel)
    | below prev cached hk => exact absurd hk (by decide +kernel)
  · intro parent cached hstored
    have hnone : (run (step (recording nullStore) unitEnv) (recordedDb nullStore ())
        [unitHeader 2 3, unitHeader 2 3]).headercache.headers (unitHeader 9 4).prevBlockhash =
        none := by decide +kernel
    cases hstored with
    | genesis log2work hk hprev => exact absurd hprev (by decide)
    | below prev cached hk hprev hparent => exact nomatch hnone.symm.trans hparent

/-- A header for which the store has no room is on the trunk after the error, the store
did not take it, and a retry takes it for known. -/
theorem not_leavesNoTrace_of_put_fails :
    ¬ (TrunkHanded unitEnv (recordedDb fullStore false) ∧
      Guarded (step (recording fullStore) unitEnv) (LeavesNoTrace fullStore unitEnv)
        (recordedDb fullStore false)
        [unitHeader 2 3]) ∧
    ((addHeader (recording fullStore) unitEnv (unitHeader 2 3)).run
      (recordedDb fullStore false)).2 =
      .err .hammersbald ∧
    ((addHeader (recording fullStore) unitEnv (unitHeader 2 3)).run
      (step (recording fullStore) unitEnv (recordedDb fullStore false)
        (unitHeader 2 3))).2.isOk := by
  have herr : ((addHeader (recording fullStore) unitEnv (unitHeader 2 3)).run
      (recordedDb fullStore false)).2 =
      .err .hammersbald := by decide +kernel
  refine ⟨?_, herr, by decide +kernel⟩
  rintro ⟨_, ⟨hnotrace, _⟩, _⟩
  have hsame := congrArg HeaderCache.trunk (hnotrace (by rw [herr]; decide))
  revert hsame
  decide +kernel

end ChainDb

end Cashbox.Btc
