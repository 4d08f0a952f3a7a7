import Cashbox.Btc.StoredChain
import Cashbox.Btc.TrunkOnly

/-!
# A restart of the chain database

Batch, open the same store again, `init`. The trunk that is read back is the trunk of
the instance that wrote the store as long as each header that moves the tip extends it
and none is taken for a second genesis. The first other header ends this: the store
holds the chain of its previous hashes, which is not what is on the trunk.
-/

namespace Cashbox.Btc

open Cashbox.Lib

variable {W D : Type}

namespace ChainDb

open HeaderCache

section Restart

variable [LinearOrder W] (store : BitcoinAdaptor W D) (env : HeaderEnv W)
  (genesisTxid : Sha256dHash)

/-- The store is closed after a batch and opened by a new instance. -/
def restart (fuel : Nat) : Method (ChainDb W D) Error Unit := do
  batch store
  Method.modify fun c => new c.db c.network
  init store env genesisTxid fuel

/-- The instance after a restart is as good as the one before it. -/
structure RestartOk (c c' : ChainDb W D) : Prop where
  trunk : c'.headercache.trunk = c.headercache.trunk
  tip : c'.headerTip = c.headerTip
  forHeight : ∀ height, c'.headercache.getHeaderForHeight height =
    c.headercache.getHeaderForHeight height
  /-- A header below the trunk is accepted by both or refused by both. It is no other
  header than the one known by its hash. -/
  accepts : ∀ header, header.prevBlockhash ∈ c.headercache.trunk →
    (∀ x, c.getHeader (env.bitcoinHash header) = some x → x.stored.header = header) →
    ((addHeader store env header).run c').2.isOk = ((addHeader store env header).run c).2.isOk
  /-- One that was not known is answered in the same way. -/
  answers : ∀ header, header.prevBlockhash ∈ c.headercache.trunk →
    c.getHeader (env.bitcoinHash header) = none →
    ((addHeader store env header).run c').2 = ((addHeader store env header).run c).2

/-- A restart with enough rounds of the loop succeeds and loses nothing. -/
def Survives (c : ChainDb W D) : Prop :=
  ∀ fuel, c.headercache.trunk.length ≤ fuel →
    ∃ c', (restart store env genesisTxid fuel).run c = (c', .ok ()) ∧ RestartOk store env c c'

/-- What happens to a database: a header, or a restart. -/
inductive Call where
  | addHeader (header : BlockHeader)
  | restart

def Call.step (c : ChainDb W D) : Call → ChainDb W D
  | .addHeader header => ChainDb.step store env c header
  | .restart => ((ChainDb.restart store env genesisTxid c.headercache.trunk.length).run c).1

/-- The condition on a call. -/
def Call.Ok (c : ChainDb W D) : Call → Prop
  | .addHeader header => c.headercache.KeepsTrunk env header
  | .restart => True

instance [DecidableEq W] (c : ChainDb W D) : (call : Call) → Decidable (call.Ok env c)
  | .addHeader header => inferInstanceAs (Decidable (c.headercache.KeepsTrunk env header))
  | .restart => inferInstanceAs (Decidable True)

/-! ## The store and the cache -/

/-- The cache is a chain, and the store holds its headers and its tip. -/
structure Consistent (root : Sha256dHash) (c : ChainDb W D) : Prop where
  chain : ChainInv env root c.headercache
  sides : SidesChecked env c.headercache
  network : c.headercache.network = c.network
  tip : store.getKeyedDecodable c.db headerTipKey = .ok c.headercache.tipHash
  stored : ∀ k x, c.headercache.headers k = some x →
    store.getHashKeyed c.db k = .ok (some x.stored)

end Restart

section Proofs

variable [LinearOrder W] {store : BitcoinAdaptor W D} {env : HeaderEnv W}
  {genesisTxid : Sha256dHash} {root : Sha256dHash} {c : ChainDb W D}

/-- A header that the cache stores is put in the store, and its tip with it. -/
theorem run_addHeader_of_added (hstore : Faithful store env.bitcoinHash) {c : ChainDb W D}
    {header : BlockHeader} {cache : HeaderCache W} {added : Added W}
    (hadd : c.headercache.addHeader env header = (cache, .ok (some added))) :
    ∃ d, (addHeader store env header).run c =
        ({ c with headercache := cache, db := d }, .ok (some added)) ∧
      (∀ k, store.getHashKeyed d k =
        if k = env.bitcoinHash added.cached.stored.header then .ok (some added.cached.stored)
        else store.getHashKeyed c.db k) ∧
      store.getKeyedDecodable d headerTipKey =
        match added.forwards.bind List.getLast? with
        | some last => .ok (some last)
        | none => store.getKeyedDecodable c.db headerTipKey := by
  -- the cache takes the header, the store its record, and then the tip if there is a new one
  have hcache : (onCache ⟨fun cache => cache.addHeader env header⟩ :
      Method (ChainDb W D) Error _).run c =
      ({ c with headercache := cache }, .ok (some added)) := by
    show ({ c with headercache := (c.headercache.addHeader env header).1 },
      (c.headercache.addHeader env header).2) = _
    rw [hadd]
  obtain ⟨d₁, hput, hget₁, hkeyed₁⟩ := hstore.putHashKeyed added.cached.stored c.db
  have hput' : (onDb (store.putHashKeyed added.cached.stored) :
      Method (ChainDb W D) Error Unit).run { c with headercache := cache } =
      ({ c with headercache := cache, db := d₁ }, .ok ()) := by
    show ({ c with headercache := cache, db := ((store.putHashKeyed _).run c.db).1 },
      ((store.putHashKeyed _).run c.db).2) = _
    rw [hput]
  unfold addHeader
  rw [Method.run_bind_of_ok hcache]
  simp only [storeAdded]
  cases hlast : added.forwards.bind List.getLast? with
  | none =>
    refine ⟨d₁, ?_, hget₁, hkeyed₁ _⟩
    rw [Method.run_bind_of_ok (Method.run_bind_of_ok hput')]
    rfl
  | some last =>
    obtain ⟨d₂, htip, hget₂, hkeyed₂⟩ := hstore.putKeyedEncodable headerTipKey last d₁
    have htip' : (storeHeaderTip store last : Method (ChainDb W D) Error Unit).run
        { c with headercache := cache, db := d₁ } =
        ({ c with headercache := cache, db := d₂ }, .ok ()) := by
      show ({ c with headercache := cache, db := ((store.putKeyedEncodable _ _).run d₁).1 },
        ((store.putKeyedEncodable _ _).run d₁).2) = _
      rw [htip]
    refine ⟨d₂, ?_, ?_, ?_⟩
    · rw [Method.run_bind_of_ok (Method.run_bind_of_ok hput' |>.trans htip')]
      rfl
    · intro k
      rw [hget₂, hget₁]
    · rw [hkeyed₂, if_pos rfl]

theorem run_addHeader_result (hstore : Faithful store env.bitcoinHash) (c : ChainDb W D)
    (header : BlockHeader) :
    ((addHeader store env header).run c).2 = (c.headercache.addHeader env header).2 := by
  by_cases hres : ∀ added, (c.headercache.addHeader env header).2 ≠ .ok (some added)
  · rw [run_addHeader_of_not_added hres]
  · obtain ⟨added, hres⟩ := not_forall_not.mp hres
    obtain ⟨d, hrun, _, _⟩ := run_addHeader_of_added hstore (c := c) (Prod.ext rfl hres)
    rw [hrun, hres]

/-- A header that keeps the trunk a chain keeps store and cache together. -/
theorem Consistent.step_addHeader (h : Consistent store env root c)
    (hstore : Faithful store env.bitcoinHash) {header : BlockHeader}
    (hok : c.headercache.KeepsTrunk env header) :
    Consistent store env root (step store env c header) := by
  have hchain := h.chain.step_of_keeps hok
  have hsides := h.sides.step h.chain hok
  unfold step
  -- what the store holds of the cache after an insert
  have hinsert : ∀ {d : D} {cached : CachedHeader W},
      cached.id = env.bitcoinHash cached.stored.header →
      (∀ k, store.getHashKeyed d k = if k = env.bitcoinHash cached.stored.header
        then .ok (some cached.stored) else store.getHashKeyed c.db k) →
      ∀ k x, (c.headercache.insert cached.id cached).headers k = some x →
        store.getHashKeyed d k = .ok (some x.stored) := by
    intro d cached hid hget k x hx
    rw [insert_headers] at hx
    rw [hget, ← hid]
    split_ifs at hx ⊢ with hk
    · rw [Option.some.inj hx]
    · exact h.stored k x hx
  cases h.chain.keepsCase hok with
  | nothing hsame hres =>
    rw [run_addHeader_of_not_added hres, hsame]
    exact h
  | side prev cached hk hid hparent hchk hadd =>
    obtain ⟨d, hrun, hget, hkeyed⟩ := run_addHeader_of_added hstore hadd
    rw [hadd] at hchain hsides
    rw [hrun]
    exact ⟨hchain, hsides, h.network, hkeyed.trans h.tip, hinsert hid hget⟩
  | tip cached hk hid hadd =>
    obtain ⟨d, hrun, hget, hkeyed⟩ := run_addHeader_of_added hstore hadd
    rw [hadd] at hchain hsides
    rw [hrun]
    refine ⟨hchain, hsides, h.network, hkeyed.trans ?_, hinsert hid hget⟩
    simp [tipHash]

/-- Over a consistent store, a restart reads the trunk back. -/
theorem Consistent.run_restart (h : Consistent store env root c)
    (hstore : Faithful store env.bitcoinHash) {fuel : Nat}
    (hfuel : c.headercache.trunk.length ≤ fuel) :
    ∃ c', (restart store env genesisTxid fuel).run c = (c', .ok ()) ∧
      OnlyTrunk c.headercache c'.headercache ∧ Consistent store env root c' := by
  obtain ⟨d, hbatch, hget, hkeyed⟩ := hstore.batch c.db
  obtain ⟨tip, t, hlast, _, _⟩ := h.chain.tip_known
  obtain ⟨r, hr, hr0⟩ := h.chain.tree.root_known
  let stored : Sha256dHash → StoredHeader W :=
    fun k => ((c.headercache.headers k).getD r).stored
  have hknown : ∀ k x, c.headercache.headers k = some x → stored k = x.stored := by
    intro k x hx
    simp [stored, hx]
  -- the trunk is a chain of the stored headers, and the root ends it
  have htrunk : IsTrunk (parentIn stored) root c.headercache.trunk := by
    refine h.chain.chain.congr ?_
    intro k hk
    obtain ⟨x, hx⟩ := h.chain.known hk
    simp only [parentIn, parentOf, hknown k x hx, hx]
  have hroot : (stored root).header.prevBlockhash = 0 := by
    by_contra hne
    rw [hknown root r hr] at hne
    obtain ⟨p, _, hp⟩ := h.chain.tree.parent root r hr hne
    omega
  let c₁ : ChainDb W D := new d c.network
  have hstored : ∀ k ∈ c.headercache.trunk, store.getHashKeyed c₁.db k = .ok (some (stored k)) := by
    intro k hk
    obtain ⟨x, hx⟩ := h.chain.known hk
    rw [show c₁.db = d from rfl, hget, h.stored k x hx, hknown k x hx]
  have hread := run_readHeaders htrunk hroot hfuel hlast c₁ hstored
  let c' : ChainDb W D :=
    { c₁ with headercache := (c₁.headercache.readBack stored c.headercache.trunk).reverseTrunk }
  have hinit : (init store env genesisTxid fuel).run c₁ = (c', .ok ()) := by
    have hfetch : (fetchHeaderTip store).run c₁ = (c₁, .ok (some tip)) := by
      rw [run_fetchHeaderTip, show c₁.db = d from rfl, hkeyed, h.tip, ← hlast]
    unfold init
    rw [Method.run_bind_of_ok hfetch]
    simp only [Method.run_bind_of_ok hread]
    rfl
  have ho : OnlyTrunk c.headercache c'.headercache := by
    refine ⟨?_, ?_, ?_⟩
    · show (c₁.headercache.readBack stored c.headercache.trunk).network = _
      rw [readBack_network, h.network]
      rfl
    · show (c₁.headercache.readBack stored c.headercache.trunk).trunk.reverse = _
      rw [readBack_trunk, List.reverse_append, List.reverse_reverse]
      simp [c₁, new, HeaderCache.new]
    · intro k
      show (c₁.headercache.readBack stored c.headercache.trunk).headers k = _
      rw [readBack_headers]
      split_ifs with hk
      · obtain ⟨x, hx⟩ := h.chain.known hk
        rw [hknown k x hx, hx, ← (h.chain.tree.filed k x hx).1]
      · rfl
  have hrun : (restart store env genesisTxid fuel).run c = (c', .ok ()) := by
    have hb : (batch store).run c = ({ c with db := d }, .ok ()) := by
      show ({ c with db := (store.batch.run c.db).1 }, (store.batch.run c.db).2) = _
      rw [hbatch]
    unfold restart
    rw [Method.run_bind_of_ok hb]
    exact hinit
  refine ⟨c', hrun, ho, ho.chainInv h.chain, ho.sidesChecked, ho.network.trans h.network, ?_, ?_⟩
  · show store.getKeyedDecodable d headerTipKey = .ok (c'.headercache.trunk.getLast?)
    rw [ho.trunk, hkeyed, h.tip]
    rfl
  · intro k x hx
    show store.getHashKeyed d k = _
    rw [hget, h.stored k x (ho.of_headers hx).2]

theorem restartOk_of_onlyTrunk (h : Consistent store env root c)
    (hstore : Faithful store env.bitcoinHash) {c' : ChainDb W D}
    (ho : OnlyTrunk c.headercache c'.headercache) : RestartOk store env c c' where
  trunk := ho.trunk
  tip := ho.tip
  forHeight := ho.getHeaderForHeight
  accepts := by
    intro header hmem hhash
    rw [run_addHeader_result hstore, run_addHeader_result hstore]
    exact ho.addHeader_isOk h.chain h.sides hmem hhash
  answers := by
    intro header hmem hnew
    rw [run_addHeader_result hstore, run_addHeader_result hstore]
    exact ho.addHeader_of_new h.chain hnew hmem

theorem Consistent.survives (h : Consistent store env root c)
    (hstore : Faithful store env.bitcoinHash) : Survives store env genesisTxid c := by
  intro fuel hfuel
  obtain ⟨c', hrun, ho, _⟩ := h.run_restart hstore hfuel
  exact ⟨c', hrun, restartOk_of_onlyTrunk h hstore ho⟩

/-! ## A trunk that does not come back -/

/-- What a restart reads ends with the tip of the store, and before it with the parent
that the tip names. -/
theorem trunk_of_restart {fuel : Nat} {c' : ChainDb W D} {tip : Sha256dHash}
    {stored : StoredHeader W} (hstore : Faithful store env.bitcoinHash)
    (hrun : (restart store env genesisTxid (fuel + 2)).run c = (c', .ok ()))
    (htip : store.getKeyedDecodable c.db headerTipKey = .ok (some tip))
    (hget : store.getHashKeyed c.db tip = .ok (some stored)) :
    (stored.header.prevBlockhash = 0 → c'.headercache.trunk = [tip]) ∧
      ∀ prev, stored.header.prevBlockhash ≠ 0 →
        store.getHashKeyed c.db stored.header.prevBlockhash = .ok (some prev) →
        ∃ rest, c'.headercache.trunk = rest ++ [stored.header.prevBlockhash, tip] := by
  obtain ⟨d, hbatch, hsame, hkeyed⟩ := hstore.batch c.db
  let c₁ : ChainDb W D := new d c.network
  have hb : (batch store).run c = ({ c with db := d }, .ok ()) := by
    show ({ c with db := (store.batch.run c.db).1 }, (store.batch.run c.db).2) = _
    rw [hbatch]
  have hfetch : (fetchHeaderTip store).run c₁ = (c₁, .ok (some tip)) := by
    rw [run_fetchHeaderTip, show c₁.db = d from rfl, hkeyed, htip]
  have hinit : (init store env genesisTxid (fuel + 2)).run c₁ = (c', .ok ()) := by
    unfold restart at hrun
    rw [Method.run_bind_of_ok hb] at hrun
    exact hrun
  unfold init at hinit
  rw [Method.run_bind_of_ok hfetch] at hinit
  obtain ⟨c₂, _, hread, hreverse⟩ := Method.run_bind_eq_ok.mp hinit
  have hc' : c'.headercache.trunk = c₂.headercache.trunk.reverse :=
    congrArg (fun r => r.1.headercache.trunk) hreverse.symm
  rw [run_readHeaders_succ (by rw [show c₁.db = d from rfl, hsame, hget])] at hread
  constructor
  · intro h0
    rw [if_neg (not_not.mpr h0)] at hread
    rw [hc', show c₂ = _ from (congrArg Prod.fst hread).symm]
    rfl
  · intro prev h0 hprev
    rw [if_pos h0, run_readHeaders_succ (by rw [show c₁.db = d from rfl, hsame, hprev])] at hread
    -- the first two headers read are the last two of the trunk
    have htwo : [tip, stored.header.prevBlockhash] <+: c₂.headercache.trunk := by
      rw [show c₂ = _ from (congrArg Prod.fst hread).symm]
      split_ifs
      · refine List.IsPrefix.trans ?_ (readHeaders_trunk _ _ _)
        exact List.prefix_rfl
      · exact List.prefix_rfl
    obtain ⟨rest, hrest⟩ := htwo
    exact ⟨rest.reverse, by rw [hc', ← hrest]; simp⟩

/-- A header that does not keep the trunk a chain leaves a trunk that a restart does not
give back. -/
theorem Consistent.not_survives (h : Consistent store env root c)
    (hstore : Faithful store env.bitcoinHash) {header : BlockHeader}
    (hbad : ¬ c.headercache.KeepsTrunk env header) :
    ¬ Survives store env genesisTxid (step store env c header) := by
  obtain ⟨cached, front, added, hadd, hcached, hforwards, hid, hnew, hne, hparent⟩ :=
    h.chain.addHeader_of_not_keeps hbad
  -- the record and the tip of the header are in the store, as for a good one
  obtain ⟨d, hrun, hget, hkeyed⟩ := run_addHeader_of_added hstore hadd
  rw [hcached, ← hid] at hget
  rw [hforwards] at hkeyed
  unfold step
  rw [hrun]
  intro hs
  obtain ⟨c', hrestart, hok⟩ := hs ((front ++ [cached.id]).length + 2) (Nat.le_add_right _ _)
  obtain ⟨hgenesis, hbranch⟩ := trunk_of_restart hstore hrestart hkeyed
    (by rw [hget, if_pos rfl])
  have htrunk : c'.headercache.trunk = front ++ [cached.id] := hok.trunk
  by_cases h0 : cached.stored.header.prevBlockhash = 0
  · -- a second genesis: only it is read
    rw [hgenesis h0] at htrunk
    have hlen := congrArg List.length htrunk
    simp only [List.length_append, List.length_singleton] at hlen
    exact hne (List.length_eq_zero_iff.mp (by omega))
  · -- a branch: its parent is read before it
    obtain ⟨⟨prev, hprev⟩, hfront⟩ := hparent.resolve_left h0
    have hprevne : cached.stored.header.prevBlockhash ≠ cached.id := by
      intro he
      rw [he, hnew] at hprev
      cases hprev
    obtain ⟨rest, hrest⟩ := hbranch prev.stored h0
      (by rw [hget, if_neg hprevne, h.stored _ _ hprev])
    rw [hrest] at htrunk
    have hlast : rest ++ [cached.stored.header.prevBlockhash] = front := by
      have hcut : (rest ++ [cached.stored.header.prevBlockhash]) ++ [cached.id] =
          front ++ [cached.id] := by simpa using htrunk
      exact List.append_cancel_right hcut
    rw [← hlast] at hfront
    simp at hfront

/-! ## From an empty store -/

/-- The first `init` stores the genesis header and its hash as the tip. -/
theorem Consistent.init (hstore : Faithful store env.bitcoinHash) {network : Network}
    {fuel : Nat} {d : D} {c₀ : ChainDb W D}
    (hempty : store.getKeyedDecodable d headerTipKey = .ok none)
    (hinit : (init store env genesisTxid fuel).run (new d network) = (c₀, .ok ())) :
    Consistent store env (env.bitcoinHash (genesisHeader genesisTxid network)) c₀ := by
  obtain ⟨added, hgen⟩ := init_headercache hempty hinit
  obtain ⟨htrunk, _, hid, hheader, _, honly⟩ := new_addHeader hgen
  have htip : c₀.headercache.tipHash = some added.cached.id := by
    rw [tipHash, htrunk, hid]
    rfl
  -- the four calls of the store
  obtain ⟨d₁, hput, hget₁, _⟩ := hstore.putHashKeyed added.cached.stored d
  obtain ⟨d₂, hbatch₂, hget₂, _⟩ := hstore.batch d₁
  obtain ⟨d₃, hkey, hget₃, hkeyed₃⟩ := hstore.putKeyedEncodable headerTipKey added.cached.id d₂
  obtain ⟨d₄, hbatch₄, hget₄, hkeyed₄⟩ := hstore.batch d₃
  have hrun : (ChainDb.init store env genesisTxid fuel).run (new d network) =
      (⟨d₄, c₀.headercache, network⟩, .ok ()) := by
    have hfetch : (fetchHeaderTip store : Method (ChainDb W D) Error _).run (new d network) =
        (new d network, .ok none) := by
      rw [run_fetchHeaderTip]
      exact congrArg (Prod.mk _) hempty
    have hcache : (onCache ⟨fun cache => cache.addHeader env (genesisHeader genesisTxid network)⟩ :
        Method (ChainDb W D) Error _).run (new d network) =
        (⟨d, c₀.headercache, network⟩, .ok (some added)) := by
      have hnew : (onCache ⟨fun cache => cache.addHeader env (genesisHeader genesisTxid network)⟩ :
          Method (ChainDb W D) Error _).run (new d network) =
          (⟨d, ((HeaderCache.new network).addHeader env (genesisHeader genesisTxid network)).1,
            network⟩,
            ((HeaderCache.new network).addHeader env (genesisHeader genesisTxid network)).2) := rfl
      rw [hnew, hgen]
    have hdb : ∀ {m : Method D Error Unit} {e e' : D}, m.run e = (e', .ok ()) →
        (onDb m).run (⟨e, c₀.headercache, network⟩ : ChainDb W D) =
          (⟨e', c₀.headercache, network⟩, .ok ()) := by
      intro m e e' hm
      show ((⟨(m.run e).1, c₀.headercache, network⟩ : ChainDb W D), (m.run e).2) = _
      rw [hm]
    unfold ChainDb.init
    rw [Method.run_bind_of_ok hfetch, Method.run_bind_of_ok (Method.run_get _)]
    rw [show (new d network : ChainDb W D).network = network from rfl,
      Method.run_bind_of_ok hcache]
    simp only [batch, storeHeaderTip]
    rw [Method.run_bind_of_ok (hdb hput), Method.run_bind_of_ok (hdb hbatch₂),
      Method.run_bind_of_ok (hdb hkey), hdb hbatch₄]
  have hc₀ : c₀ = ⟨d₄, c₀.headercache, network⟩ := by
    rw [hinit] at hrun
    exact congrArg Prod.fst hrun
  have hdb₀ : c₀.db = d₄ := by rw [hc₀]
  refine ⟨(TrunkInv.init (genesisHeader_prevBlockhash genesisTxid network) hgen).chainInv,
    ?_, ?_, ?_, ?_⟩
  · intro k x p hx hside
    rw [htrunk, (honly k x hx).1] at hside
    exact absurd (List.mem_singleton.mpr rfl) hside
  · have hcase := addHeader_cases env (HeaderCache.new network) (genesisHeader genesisTxid network)
    rw [hgen] at hcase
    rw [show c₀.network = network by rw [hc₀]]
    generalize c₀.headercache = cache at hcase ⊢
    cases hcase with
    | refused result hk hres hchk hgen => exact absurd rfl (hres _)
    | genesis log2work hk hprev hwork => rfl
  · rw [hdb₀, hkeyed₄, hkeyed₃, if_pos rfl, htip]
  · intro k x hx
    obtain ⟨rfl, rfl⟩ := honly k x hx
    rw [hdb₀, hget₄, hget₃, hget₂, hget₁, hheader, if_pos rfl]

/-- **Restarts.** In a run of headers and restarts from an empty store, over a faithful
key-value store, the database survives a restart at every moment exactly if every header
keeps the trunk a chain: it is known, refused, no second genesis, and extends the tip
when it moves it. -/
theorem survives_iff (hstore : Faithful store env.bitcoinHash) (network : Network) {fuel : Nat}
    {d : D} {c₀ : ChainDb W D} (hempty : store.getKeyedDecodable d headerTipKey = .ok none)
    (hinit : (init store env genesisTxid fuel).run (new d network) = (c₀, .ok ()))
    (calls : List Call) :
    (∀ pre, pre <+: calls →
      Survives store env genesisTxid (run (Call.step store env genesisTxid) c₀ pre)) ↔
      Guarded (Call.step store env genesisTxid) (Call.Ok env) c₀ calls := by
  refine forall_prefix_iff_guarded (fun c hc => hc.survives hstore) ?_ ?_
    (Consistent.init hstore hempty hinit) calls
  · intro c call hc hok
    cases call with
    | addHeader header => exact hc.step_addHeader hstore hok
    | restart =>
      obtain ⟨c', hrun, _, hc'⟩ := hc.run_restart hstore (Nat.le_refl _)
      rw [Call.step, hrun]
      exact hc'
  · intro c call hc hbad
    cases call with
    | addHeader header => exact hc.not_survives hstore hbad
    | restart => exact absurd trivial hbad

end Proofs

/-! ## A run on each side of the condition -/

/-- The contents of a store: headers by their hashes, and hashes by their keys. -/
abbrev Maps := (Sha256dHash → Option (StoredHeader Nat)) × (List UInt8 → Option Sha256dHash)

/-- A store of two maps. -/
def mapStore : BitcoinAdaptor Nat Maps where
  putHashKeyed stored := Method.modify fun d =>
    (fun k => if k = unitEnv.bitcoinHash stored.header then some stored else d.1 k, d.2)
  putKeyedEncodable key hash := Method.modify fun d =>
    (d.1, fun k => if k = key then some hash else d.2 k)
  batch := pure ()
  getHashKeyed d k := .ok (d.1 k)
  getKeyedDecodable d k := .ok (d.2 k)

theorem faithful_mapStore : Faithful mapStore unitEnv.bitcoinHash where
  putHashKeyed stored d := by
    refine ⟨_, rfl, ?_, fun _ => rfl⟩
    intro k
    simp only [mapStore]
    split_ifs <;> rfl
  putKeyedEncodable key hash d := by
    refine ⟨_, rfl, fun _ => rfl, ?_⟩
    intro k
    simp only [mapStore]
    split_ifs <;> rfl
  batch d := ⟨d, rfl, fun _ => rfl, fun _ => rfl⟩

/-- The database over an empty `mapStore` after the regtest genesis header. -/
def mapDb : ChainDb Nat Maps :=
  ((init mapStore unitEnv 0 0).run (new (fun _ => none, fun _ => none) .regtest)).1

/-- A trunk with a header besides it survives, also a second time. -/
theorem survives_iff_side :
    Guarded (Call.step mapStore unitEnv 0) (Call.Ok unitEnv) mapDb
        [.addHeader (unitHeader 2 3), .addHeader (unitHeader 2 4), .restart,
          .addHeader (unitHeader 3 5)] ∧
      ∀ pre, pre <+: [Call.addHeader (unitHeader 2 3), .addHeader (unitHeader 2 4), .restart,
          .addHeader (unitHeader 3 5)] →
        Survives mapStore unitEnv 0 (run (Call.step mapStore unitEnv 0) mapDb pre) := by
  have hok : Guarded (Call.step mapStore unitEnv 0) (Call.Ok unitEnv) mapDb
      [.addHeader (unitHeader 2 3), .addHeader (unitHeader 2 4), .restart,
        .addHeader (unitHeader 3 5)] := by decide +kernel
  have hinit : (init mapStore unitEnv 0 0).run
      (new ((fun _ => none, fun _ => none) : Maps) .regtest) = (mapDb, .ok ()) := rfl
  exact ⟨hok, (survives_iff faithful_mapStore .regtest rfl hinit _).mpr hok⟩

/-- A branch of two headers that overtakes a trunk of one does not come back as the
trunk that the running instance has. -/
theorem not_survives_branch :
    ¬ ∀ pre, pre <+: [Call.addHeader (unitHeader 2 3), .addHeader (unitHeader 2 4),
        .addHeader (unitHeader 4 5)] →
      Survives mapStore unitEnv 0 (run (Call.step mapStore unitEnv 0) mapDb pre) := by
  intro h
  obtain ⟨c', hrun, hok⟩ := h _ List.prefix_rfl 8 (by decide +kernel)
  have hbefore : (run (Call.step mapStore unitEnv 0) mapDb [.addHeader (unitHeader 2 3),
      .addHeader (unitHeader 2 4), .addHeader (unitHeader 4 5)]).headercache.trunk =
      [2, 2, 5] := by decide +kernel
  have hafter : ((restart mapStore unitEnv 0 8).run (run (Call.step mapStore unitEnv 0) mapDb
      [.addHeader (unitHeader 2 3), .addHeader (unitHeader 2 4),
        .addHeader (unitHeader 4 5)])).1.headercache.trunk = [2, 4, 5] := by decide +kernel
  rw [hrun] at hafter
  have htrunk := hok.trunk
  rw [hafter, hbefore] at htrunk
  revert htrunk
  decide

end ChainDb

end Cashbox.Btc
