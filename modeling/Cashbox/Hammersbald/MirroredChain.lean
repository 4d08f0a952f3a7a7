import Cashbox.Hammersbald.BlockStore
import Cashbox.Btc.StoredChain

/-!
# The chain database over its store

The chain database writes each header that its cache takes, and the new tip, to the store. In every
run of calls that return, whatever branches the headers make, the store holds exactly the headers of
the cache and its tip.
-/

namespace Cashbox.Btc

open Cashbox.Lib

/-! ## What the cache hands over -/

namespace HeaderCache

variable {W : Type} {c cache : HeaderCache W} {prev cached : CachedHeader W} {added : Added W}

/-- A moved trunk ends with the header that is handed over as the new tip. -/
theorem moveTip_added (h : c.moveTip prev cached = (cache, .ok added)) :
    added.cached = cached ∧ cache.headers = c.headers ∧
      added.forwards.bind List.getLast? = some cached.id ∧ cache.tipHash = some cached.id := by
  simp only [moveTip] at h
  cases hpath : c.pathToNewTip (prev.stored.height + 2) cached.stored.header.prevBlockhash [] with
  | err e => simp [hpath] at h
  | panic p => simp [hpath] at h
  | ok r =>
    obtain ⟨forksAt, path⟩ := r
    simp only [hpath] at h
    by_cases hne : forksAt ≠ cached.stored.header.prevBlockhash
    · rw [if_pos hne] at h
      cases hpos : c.rposition forksAt with
      | none => simp [hpos] at h
      | some pos =>
        simp only [hpos] at h
        cases h
        simp [tipHash]
    · rw [if_neg hne] at h
      cases h
      simp [tipHash]

variable [LinearOrder W] {env : HeaderEnv W} {header : BlockHeader}

theorem storeHeader_added (h : c.storeHeader prev cached = (cache, .ok added)) :
    added.cached = cached ∧ cache.headers = (c.insert cached.id cached).headers ∧
      cache.tipHash = (added.forwards.bind List.getLast?).or c.tipHash := by
  simp only [storeHeader] at h
  cases htip : (c.insert cached.id cached).tip with
  | none => simp [htip] at h
  | some tip =>
    simp only [htip] at h
    by_cases hlt : tip.stored.log2work < cached.stored.log2work
    · rw [if_pos hlt] at h
      obtain ⟨hcached, hheaders, hforwards, hlast⟩ := moveTip_added h
      refine ⟨hcached, hheaders, ?_⟩
      rw [hforwards, hlast]
      rfl
    · rw [if_neg hlt] at h
      cases h
      exact ⟨rfl, rfl, rfl⟩

/-- **An added header** is filed under its hash, and the tip is the last hash handed over, if there
is one. -/
theorem addHeader_added (h : c.addHeader env header = (cache, .ok (some added))) :
    added.cached.id = env.bitcoinHash added.cached.stored.header ∧
      cache.headers = (c.insert added.cached.id added.cached).headers ∧
      cache.tipHash = (added.forwards.bind List.getLast?).or c.tipHash := by
  have hcase := addHeader_cases env c header
  rw [h] at hcase
  generalize hresult : (cache, (Outcome.ok (some added) : Outcome Error _)) = result at hcase
  cases hcase with
  | known hk => cases hresult
  | refused result hk hres hchk hgen => cases hresult; exact absurd rfl (hres _)
  | genesis log2work hk hprev hwork =>
    cases hresult
    refine ⟨rfl, rfl, ?_⟩
    simp [tipHash]
  | stored prev cached hk hprev hparent hchk =>
    obtain ⟨_, hheader, hid, _⟩ := checkHeader_eq_some hchk
    obtain ⟨hcache, hok⟩ := Prod.mk.inj hresult
    cases hstore : (c.storeHeader prev cached).2 with
    | err e => rw [hstore] at hok; cases hok
    | panic p => rw [hstore] at hok; cases hok
    | ok a =>
      rw [hstore] at hok
      cases hok
      obtain ⟨hcached, hheaders, htip⟩ := storeHeader_added (Prod.ext hcache.symm hstore)
      rw [hcached]
      exact ⟨by rw [hid, hheader], hheaders, htip⟩

/-- A header that is not added leaves the cache as it was. -/
theorem addHeader_ignored (h : c.addHeader env header = (cache, .ok none)) : cache = c := by
  have hcase := addHeader_cases env c header
  rw [h] at hcase
  generalize hresult : (cache, (Outcome.ok none : Outcome Error (Option (Added W)))) = result
    at hcase
  cases hcase with
  | known hk => exact congrArg Prod.fst hresult
  | refused result hk hres hchk hgen => exact congrArg Prod.fst hresult
  | genesis log2work hk hprev hwork => cases hresult
  | stored prev cached hk hprev hparent hchk =>
    have hok := congrArg Prod.snd hresult
    cases hstore : (c.storeHeader prev cached).2 with
    | err e => rw [hstore] at hok; cases hok
    | panic p => rw [hstore] at hok; cases hok
    | ok a => rw [hstore] at hok; cases hok

omit [LinearOrder W] in
theorem insert_headers_eq_update (c : HeaderCache W) (id : Sha256dHash) (x : CachedHeader W) :
    (c.insert id x).headers = Function.update c.headers id (some x) := by
  funext k
  rw [insert_headers, Function.update_apply]

end HeaderCache

/-! ## Runs -/

namespace ChainDb

open Hammersbald Hammersbald.BitcoinAdaptor

section Steps

variable {W : Type} [LinearOrder W] (siphash : UInt64 → UInt64 → Bytes → UInt64)
  (order : List (Nat × List Slot) → List (Nat × List Slot)) (debugAssertions : Bool)
  (boxed : Hammersbald.Error → Error) (headers : Serde Error (StoredHeader W))
  (hashes : Serde Error Sha256dHash) (env : HeaderEnv W)

/-- The chain database over a store with new files, after some calls that returned. Each call stores
two objects at most. -/
inductive MirroredRun : Nat → ChainDb W Hammersbald.Hammersbald → Prop
  | new {db : Hammersbald.Hammersbald} (network : Network) :
      Hammersbald.Run siphash debugAssertions [] (fun _ => none) db → MirroredRun 0 (new db network)
  | init {db : Hammersbald.Hammersbald} {network : Network} {genesisTxid : Sha256dHash} {fuel : Nat}
      {c : ChainDb W Hammersbald.Hammersbald} :
      Hammersbald.Run siphash debugAssertions [] (fun _ => none) db →
      (init (chainStore siphash order debugAssertions boxed headers hashes env.bitcoinHash) env
        genesisTxid fuel).run (ChainDb.new db network) = (c, .ok ()) → MirroredRun 2 c
  | addHeader {n : Nat} {c c' : ChainDb W Hammersbald.Hammersbald} {header : BlockHeader}
      {added : Option (Added W)} : MirroredRun n c →
      (addHeader (chainStore siphash order debugAssertions boxed headers hashes env.bitcoinHash) env
        header).run c = (c', .ok added) → MirroredRun (n + 2) c'
  | batch {n : Nat} {c c' : ChainDb W Hammersbald.Hammersbald} : MirroredRun n c →
      (batch (chainStore siphash order debugAssertions boxed headers hashes
        env.bitcoinHash)).run c = (c', .ok ()) → MirroredRun n c'
  | getKeyed {n : Nat} {c : ChainDb W Hammersbald.Hammersbald} {db : Hammersbald.Hammersbald}
      {key : Bytes} {found : Option (Nat × Bytes)} : MirroredRun n c →
      (Hammersbald.getKeyed siphash key).run c.db = (db, .ok found) →
      MirroredRun n { c with db := db }
  | backgroundData {n : Nat} {c : ChainDb W Hammersbald.Hammersbald}
      {db : Hammersbald.Hammersbald} : MirroredRun n c →
      (Hammersbald.background MemTable.onData).run c.db = (db, .ok ()) →
      MirroredRun n { c with db := db }
  | backgroundLink {n : Nat} {c : ChainDb W Hammersbald.Hammersbald}
      {db : Hammersbald.Hammersbald} : MirroredRun n c →
      (Hammersbald.background MemTable.onLink).run c.db = (db, .ok ()) →
      MirroredRun n { c with db := db }

/-- The store holds the known headers and the tip, after at most `n` records. -/
def Mirrors (n : Nat) (known : Sha256dHash → Option (CachedHeader W)) (tip : Option Sha256dHash)
    (db : Hammersbald.Hammersbald) : Prop :=
  ∃ m ≤ n, ∃ stored kept, StoreRun siphash order debugAssertions boxed headers hashes
    env.bitcoinHash m stored kept db ∧ (∀ id, stored id = (known id).map CachedHeader.stored) ∧
      kept headerTipKey = tip

end Steps

section Runs

variable {W : Type} {siphash : UInt64 → UInt64 → Bytes → UInt64}
  {order : List (Nat × List Slot) → List (Nat × List Slot)} {debugAssertions : Bool}
  {boxed : Hammersbald.Error → Error} {headers : Serde Error (StoredHeader W)}
  {hashes : Serde Error Sha256dHash} {env : HeaderEnv W} {n : Nat}
  {known : Sha256dHash → Option (CachedHeader W)} {tip : Option Sha256dHash}
  {c c' : ChainDb W Hammersbald.Hammersbald} {db db' : Hammersbald.Hammersbald}

theorem run_onDb_eq_ok {D α : Type} {m : Method D Error α} {c c' : ChainDb W D} {a : α}
    (h : (onDb m).run c = (c', .ok a)) :
    m.run c.db = (c'.db, .ok a) ∧ c'.headercache = c.headercache := by
  unfold onDb at h
  rw [Method.run_on] at h
  obtain ⟨rfl, hresult⟩ := Prod.mk.inj h
  exact ⟨Prod.ext rfl hresult, rfl⟩

theorem run_onCache_eq_ok {D α : Type} {m : Method (HeaderCache W) Error α} {c c' : ChainDb W D}
    {a : α} (h : (onCache m).run c = (c', .ok a)) :
    m.run c.headercache = (c'.headercache, .ok a) ∧ c'.db = c.db := by
  unfold onCache at h
  rw [Method.run_on] at h
  obtain ⟨rfl, hresult⟩ := Prod.mk.inj h
  exact ⟨Prod.ext rfl hresult, rfl⟩

/-! ### One call of the store -/

theorem Mirrors.new (h : Hammersbald.Run siphash debugAssertions [] (fun _ => none) db) :
    Mirrors siphash order debugAssertions boxed headers hashes env 0 (fun _ => none) none db :=
  ⟨0, le_rfl, _, _, .new h, fun _ => rfl, rfl⟩

/-- A header more, under its hash. -/
theorem Mirrors.putHashKeyed
    (h : Mirrors siphash order debugAssertions boxed headers hashes env n known tip db)
    {cached : CachedHeader W} (hreads : headers.Reads cached.stored)
    (hid : cached.id = env.bitcoinHash cached.stored.header)
    (hrun : ((chainStore siphash order debugAssertions boxed headers hashes
      env.bitcoinHash).putHashKeyed cached.stored).run db = (db', .ok ())) :
    Mirrors siphash order debugAssertions boxed headers hashes env (n + 1)
      (Function.update known cached.id (some cached)) tip db' := by
  obtain ⟨m, hm, stored, kept, hstore, hstored, htip⟩ := h
  refine ⟨m + 1, by omega, _, kept, .putHashKeyed hstore hreads hrun, ?_, htip⟩
  intro id
  rw [← hid]
  by_cases heq : id = cached.id
  · subst heq
    rw [Function.update_self, Function.update_self]
    rfl
  · rw [Function.update_of_ne heq, Function.update_of_ne heq]
    exact hstored id

/-- Another tip. -/
theorem Mirrors.putTip
    (h : Mirrors siphash order debugAssertions boxed headers hashes env n known tip db)
    {last : Sha256dHash} (hreads : hashes.Reads last)
    (hrun : ((chainStore siphash order debugAssertions boxed headers hashes
      env.bitcoinHash).putKeyedEncodable headerTipKey last).run db = (db', .ok ())) :
    Mirrors siphash order debugAssertions boxed headers hashes env (n + 1) known (some last)
      db' := by
  obtain ⟨m, hm, stored, kept, hstore, hstored, _⟩ := h
  refine ⟨m + 1, by omega, stored, _, .putKeyedEncodable hstore hreads (by decide) hrun,
    hstored, ?_⟩
  rw [Function.update_self]

theorem Mirrors.batch
    (h : Mirrors siphash order debugAssertions boxed headers hashes env n known tip db)
    (hrun : (chainStore siphash order debugAssertions boxed headers hashes
      env.bitcoinHash).batch.run db = (db', .ok ())) :
    Mirrors siphash order debugAssertions boxed headers hashes env n known tip db' := by
  obtain ⟨m, hm, stored, kept, hstore, hrest⟩ := h
  exact ⟨m, hm, stored, kept, .batch hstore hrun, hrest⟩

/-- The store answers as the cache does. -/
theorem Mirrors.reads (horder : ∀ moves, (order moves).Perm moves)
    (h : Mirrors siphash order debugAssertions boxed headers hashes env n known tip db)
    (hcount : n < 2 ^ 27) :
    (∀ id, (chainStore siphash order debugAssertions boxed headers hashes
      env.bitcoinHash).getHashKeyed db id = .ok ((known id).map CachedHeader.stored)) ∧
    (chainStore siphash order debugAssertions boxed headers hashes
      env.bitcoinHash).getKeyedDecodable db headerTipKey = .ok tip := by
  obtain ⟨m, hm, stored, kept, hstore, hstored, rfl⟩ := h
  obtain ⟨hheaders, hhashes⟩ := hstore.readsBlocks horder (by omega)
  constructor
  · intro id
    rw [hheaders, hstored]
  · exact hhashes headerTipKey (by decide)

/-! ### One call of the chain database -/

/-- What follows an added header in the cache. -/
theorem Mirrors.storeAdded {added : Added W} (hheaders : ∀ stored, headers.Reads stored)
    (hhashes : ∀ hash, hashes.Reads hash)
    (h : Mirrors siphash order debugAssertions boxed headers hashes env n known tip c.db)
    (hid : added.cached.id = env.bitcoinHash added.cached.stored.header)
    (hrun : (storeAdded (chainStore siphash order debugAssertions boxed headers hashes
      env.bitcoinHash) added).run c = (c', .ok ())) :
    Mirrors siphash order debugAssertions boxed headers hashes env (n + 2)
      (Function.update known added.cached.id (some added.cached))
      ((added.forwards.bind List.getLast?).or tip) c'.db := by
  unfold ChainDb.storeAdded at hrun
  obtain ⟨c₁, _, hput, hrest⟩ := Method.run_bind_eq_ok.mp hrun
  have hstored := h.putHashKeyed (hheaders _) hid (run_onDb_eq_ok hput).1
  cases hlast : added.forwards.bind List.getLast? with
  | some last =>
    rw [hlast] at hrest
    exact hstored.putTip (hhashes last) (run_onDb_eq_ok hrest).1
  | none =>
    rw [hlast] at hrest
    cases hrest
    obtain ⟨m, hm, hstore⟩ := hstored
    exact ⟨m, by omega, hstore⟩

variable [LinearOrder W]

/-- A header that is added, or one that is known. -/
theorem Mirrors.addHeader {header : BlockHeader} {result : Option (Added W)}
    (hheaders : ∀ stored, headers.Reads stored) (hhashes : ∀ hash, hashes.Reads hash)
    (h : Mirrors siphash order debugAssertions boxed headers hashes env n c.headercache.headers
      c.headercache.tipHash c.db)
    (hrun : (addHeader (chainStore siphash order debugAssertions boxed headers hashes
      env.bitcoinHash) env header).run c = (c', .ok result)) :
    Mirrors siphash order debugAssertions boxed headers hashes env (n + 2) c'.headercache.headers
      c'.headercache.tipHash c'.db := by
  unfold ChainDb.addHeader at hrun
  obtain ⟨c₁, added, hcache, hrest⟩ := Method.run_bind_eq_ok.mp hrun
  obtain ⟨hadd, hdb⟩ := run_onCache_eq_ok hcache
  rw [← hdb] at h
  cases added with
  | none =>
    cases hrest
    rw [HeaderCache.addHeader_ignored hadd]
    obtain ⟨m, hm, hstore⟩ := h
    exact ⟨m, by omega, hstore⟩
  | some added =>
    obtain ⟨hid, hknown, htip⟩ := HeaderCache.addHeader_added hadd
    obtain ⟨c₂, _, hstore, hpure⟩ := Method.run_bind_eq_ok.mp hrest
    cases hpure
    have hkeep : c'.headercache = c₁.headercache := by
      rw [← storeAdded_keeps added c₁, hstore]
    rw [hkeep, hknown, htip, HeaderCache.insert_headers_eq_update]
    exact h.storeAdded hheaders hhashes hid hstore

/-- The genesis header in a store without a tip. -/
theorem Mirrors.init {network : Network} {genesisTxid : Sha256dHash} {fuel : Nat}
    (horder : ∀ moves, (order moves).Perm moves)
    (hheaders : ∀ stored, headers.Reads stored) (hhashes : ∀ hash, hashes.Reads hash)
    (h : Hammersbald.Run siphash debugAssertions [] (fun _ => none) db)
    (hrun : (init (chainStore siphash order debugAssertions boxed headers hashes
      env.bitcoinHash) env genesisTxid fuel).run (ChainDb.new db network) = (c, .ok ())) :
    Mirrors siphash order debugAssertions boxed headers hashes env 2 c.headercache.headers
      c.headercache.tipHash c.db := by
  have hnew : Mirrors siphash order debugAssertions boxed headers hashes env 0 (fun _ => none) none
      db := .new h
  -- there is no tip, so that the genesis header is added
  have hempty := (hnew.reads horder (by decide)).2
  have hfetch : (fetchHeaderTip (chainStore siphash order debugAssertions boxed headers hashes
      env.bitcoinHash)).run (ChainDb.new db network) = (ChainDb.new db network, .ok none) := by
    rw [run_fetchHeaderTip]
    exact congrArg (Prod.mk _) hempty
  unfold ChainDb.init at hrun
  rw [Method.run_bind_of_ok hfetch, Method.run_bind_of_ok (Method.run_get _)] at hrun
  obtain ⟨c₁, added, hcache, hrest⟩ := Method.run_bind_eq_ok.mp hrun
  obtain ⟨hadd, hdb⟩ := run_onCache_eq_ok hcache
  cases added with
  | none => cases hrest
  | some added =>
    have hadd : (HeaderCache.new network).addHeader env (genesisHeader genesisTxid network) =
        (c₁.headercache, .ok (some added)) := hadd
    obtain ⟨hid, hknown, _⟩ := HeaderCache.addHeader_added hadd
    obtain ⟨htrunk, _, hgenesis, _, _, _⟩ := HeaderCache.new_addHeader hadd
    -- header, batch, tip, batch: the cache stays as it is
    obtain ⟨c₂, _, hput, hrest⟩ := Method.run_bind_eq_ok.mp hrest
    obtain ⟨c₃, _, hbatch, hrest⟩ := Method.run_bind_eq_ok.mp hrest
    obtain ⟨c₄, _, htip, hrest⟩ := Method.run_bind_eq_ok.mp hrest
    obtain ⟨hput, hcache₂⟩ := run_onDb_eq_ok hput
    obtain ⟨hbatch, hcache₃⟩ := run_onDb_eq_ok hbatch
    obtain ⟨htip, hcache₄⟩ := run_onDb_eq_ok htip
    obtain ⟨hlast, hcache₅⟩ := run_onDb_eq_ok hrest
    rw [hdb] at hput
    have hkeep : c.headercache = c₁.headercache :=
      hcache₅.trans (hcache₄.trans (hcache₃.trans hcache₂))
    have htipHash : c₁.headercache.tipHash = some added.cached.id := by
      rw [HeaderCache.tipHash, htrunk, hgenesis]
      rfl
    rw [hkeep, hknown, htipHash, HeaderCache.insert_headers_eq_update]
    have hstored := (hnew.putHashKeyed (hheaders _) hid hput).batch hbatch
    exact (hstored.putTip (hhashes _) htip).batch hlast

/-- **Every run** keeps the store a mirror of the cache. -/
theorem MirroredRun.mirrors (horder : ∀ moves, (order moves).Perm moves)
    (hheaders : ∀ stored, headers.Reads stored) (hhashes : ∀ hash, hashes.Reads hash)
    (h : MirroredRun siphash order debugAssertions boxed headers hashes env n c) :
    Mirrors siphash order debugAssertions boxed headers hashes env n c.headercache.headers
      c.headercache.tipHash c.db := by
  induction h with
  | new network hrun => exact .new hrun
  | init hrun hinit => exact .init horder hheaders hhashes hrun hinit
  | addHeader _ hrun ih => exact ih.addHeader hheaders hhashes hrun
  | batch _ hrun ih =>
    obtain ⟨hbatch, hkeep⟩ := run_onDb_eq_ok hrun
    rw [hkeep]
    exact ih.batch hbatch
  | getKeyed _ hrun ih =>
    obtain ⟨m, hm, stored, kept, hstore, hrest⟩ := ih
    exact ⟨m, hm, stored, kept, .getKeyed hstore hrun, hrest⟩
  | backgroundData _ hrun ih =>
    obtain ⟨m, hm, stored, kept, hstore, hrest⟩ := ih
    exact ⟨m, hm, stored, kept, .backgroundData hstore hrun, hrest⟩
  | backgroundLink _ hrun ih =>
    obtain ⟨m, hm, stored, kept, hstore, hrest⟩ := ih
    exact ⟨m, hm, stored, kept, .backgroundLink hstore hrun, hrest⟩

/-- **The chain database** fetches from its store exactly the headers of its cache, and its tip. -/
theorem MirroredRun.fetches (horder : ∀ moves, (order moves).Perm moves)
    (hheaders : ∀ stored, headers.Reads stored) (hhashes : ∀ hash, hashes.Reads hash)
    (h : MirroredRun siphash order debugAssertions boxed headers hashes env n c)
    (hcount : n < 2 ^ 27) :
    (∀ id, (fetchHeader (chainStore siphash order debugAssertions boxed headers hashes
      env.bitcoinHash) id).run c = (c, .ok ((c.getHeader id).map CachedHeader.stored))) ∧
    (fetchHeaderTip (chainStore siphash order debugAssertions boxed headers hashes
      env.bitcoinHash)).run c = (c, .ok c.headercache.tipHash) := by
  obtain ⟨hknown, htip⟩ := (h.mirrors horder hheaders hhashes).reads horder hcount
  constructor
  · intro id
    rw [run_fetchHeader, hknown]
    rfl
  · rw [run_fetchHeaderTip, htip]

end Runs

/-! ### Runs with a side branch -/

/-- The store of the database, over the hashes of `unitEnv`. -/
abbrev unitStore : BitcoinAdaptor Nat Hammersbald.Hammersbald :=
  packedStore HeaderCache.unitEnv.bitcoinHash

/-- A header is added where the store takes what is handed over. -/
theorem run_addHeader_of_storeAdded {W D : Type} [LinearOrder W] {store : BitcoinAdaptor W D}
    {env : HeaderEnv W} {header : BlockHeader} {c c' : ChainDb W D} {cache : HeaderCache W}
    {added : Added W} (hadd : c.headercache.addHeader env header = (cache, .ok (some added)))
    (hstored : (storeAdded store added).run { c with headercache := cache } = (c', .ok ())) :
    (addHeader store env header).run c = (c', .ok (some added)) := by
  have hcache : (onCache ⟨fun cache => cache.addHeader env header⟩ :
      Method (ChainDb W D) Error _).run c =
        ({ c with headercache := cache }, .ok (some added)) := by
    unfold onCache
    rw [Method.run_on]
    dsimp only
    rw [hadd]
  unfold addHeader
  rw [Method.run_bind_of_ok hcache]
  exact Method.run_bind_of_ok hstored

/-- A run of the chain database over a store that has room for more. -/
structure Begun (n : Nat) (c : ChainDb Nat Hammersbald.Hammersbald) : Prop where
  run : MirroredRun (fun _ _ _ => 0) id true (fun _ => .hammersbald) packed hashCbor
    HeaderCache.unitEnv n c
  store : ∃ records entries pos, Hammersbald.Begun (fun _ _ _ => 0) records entries c.db pos ∧
    records.length ≤ n ∧ pos ≤ 132 * n

/-- A header is added to the cache, and the store takes it and the tip. -/
theorem Begun.addHeader {n : Nat} {c : ChainDb Nat Hammersbald.Hammersbald}
    {header : BlockHeader} {cache : HeaderCache Nat} {added : Added Nat} (h : Begun n c)
    (hn : n + 1 < 2 ^ 8) (hadd : c.headercache.addHeader HeaderCache.unitEnv header =
      (cache, .ok (some added)))
    (hheight : added.cached.stored.height < 2 ^ 32)
    (hwork : added.cached.stored.log2work < 2 ^ 64) :
    ∃ c', Begun (n + 2) c' ∧ c'.headercache = cache := by
  obtain ⟨records, entries, pos, hbegun, hcount, hpos⟩ := h.store
  obtain ⟨db₁, _, _, hput, hbegun₁⟩ := @putHeader_ok HeaderCache.unitEnv.bitcoinHash _ _ _ _ _
    hbegun (by omega) (by omega) _ hheight hwork rfl
  cases hlast : added.forwards.bind List.getLast? with
  | none =>
    have hstored : (storeAdded unitStore added).run { c with headercache := cache } =
        ({ c with headercache := cache, db := db₁ }, .ok ()) := by
      unfold storeAdded
      simp only [onDb, hlast, Method.run_bind, Method.run_on, hput]
      rfl
    refine ⟨_, ⟨.addHeader h.run (run_addHeader_of_storeAdded hadd hstored), _, _, _, hbegun₁, ?_,
      ?_⟩, rfl⟩
    · rw [List.length_append, List.length_singleton]
      omega
    · omega
  | some last =>
    obtain ⟨db₂, _, _, htip, hbegun₂⟩ := @putTip_ok HeaderCache.unitEnv.bitcoinHash _ _ _ _ _
      hbegun₁ (by rw [List.length_append, List.length_singleton]; omega) (by omega) last rfl
    have hstored : (storeAdded unitStore added).run { c with headercache := cache } =
        ({ c with headercache := cache, db := db₂ }, .ok ()) := by
      unfold storeAdded
      simp only [onDb, storeHeaderTip, hlast, Method.run_bind, Method.run_on, hput, htip]
    have hkey : headerTipKey.length = 1 := by decide
    refine ⟨_, ⟨.addHeader h.run (run_addHeader_of_storeAdded hadd hstored), _, _, _, hbegun₂, ?_,
      ?_⟩, rfl⟩
    · simp only [List.length_append, List.length_singleton]
      omega
    · omega

/-- A batch ends what was added. -/
theorem Begun.batch {n : Nat} {c : ChainDb Nat Hammersbald.Hammersbald} (h : Begun n c)
    (hn : n < 2 ^ 8) : ∃ c', MirroredRun (fun _ _ _ => 0) id true (fun _ => .hammersbald) packed
      hashCbor HeaderCache.unitEnv n c' ∧ c'.headercache = c.headercache := by
  obtain ⟨records, entries, pos, hbegun, hcount, hpos⟩ := h.store
  obtain ⟨db, hbatch, _⟩ := hbegun.batch (by omega) (by omega)
  have hrun : (ChainDb.batch unitStore).run c = ({ c with db := db }, .ok ()) := by
    have hcall : unitStore.batch.run c.db = (db, .ok ()) := by
      show (call _ Hammersbald.batch).run c.db = _
      rw [run_call, hbatch]
      rfl
    unfold ChainDb.batch onDb
    rw [Method.run_on, hcall]
  exact ⟨_, .batch h.run hrun, rfl⟩

/-- A side header and a header above it overtake a header on the genesis header, and a batch ends
them all. -/
theorem fetches_genesis : ∃ c : ChainDb Nat Hammersbald.Hammersbald,
    c.headercache = run (HeaderCache.step HeaderCache.unitEnv) HeaderCache.unitCache
      [HeaderCache.unitHeader 2 3, HeaderCache.unitHeader 2 4, HeaderCache.unitHeader 4 5] ∧
    (∀ hash, (fetchHeader unitStore hash).run c =
      (c, .ok ((c.getHeader hash).map CachedHeader.stored))) ∧
    (fetchHeaderTip unitStore).run c = (c, .ok c.headercache.tipHash) := by
  have hnew : Begun 0 (ChainDb.new Hammersbald.newDb .regtest) :=
    ⟨.new .regtest (Hammersbald.begun_newDb _).run, _, _, _, Hammersbald.begun_newDb _, le_refl _,
      le_refl _⟩
  obtain ⟨c₁, h₁, hcache₁⟩ := hnew.addHeader (by decide) HeaderCache.unitCache_eq (by decide)
    (by decide)
  obtain ⟨c₂, h₂, hcache₂⟩ := @Begun.addHeader _ _ (HeaderCache.unitHeader 2 3) _
    ⟨⟨⟨HeaderCache.unitHeader 2 3, 1, 4⟩, 3⟩, none, some [3]⟩ h₁ (by decide)
    (by rw [hcache₁]; exact Prod.ext rfl (by decide +kernel)) (by decide) (by decide)
  obtain ⟨c₃, h₃, hcache₃⟩ := @Begun.addHeader _ _ (HeaderCache.unitHeader 2 4) _
    ⟨⟨⟨HeaderCache.unitHeader 2 4, 1, 4⟩, 4⟩, none, none⟩ h₂ (by decide)
    (by rw [hcache₂]; exact Prod.ext rfl (by decide +kernel)) (by decide) (by decide)
  obtain ⟨c₄, h₄, hcache₄⟩ := @Begun.addHeader _ _ (HeaderCache.unitHeader 4 5) _
    ⟨⟨⟨HeaderCache.unitHeader 4 5, 2, 6⟩, 5⟩, some [3], some [2, 5]⟩ h₃ (by decide)
    (by rw [hcache₃]; exact Prod.ext rfl (by decide +kernel)) (by decide) (by decide)
  obtain ⟨c, hrun, hcache⟩ := h₄.batch (by decide)
  exact ⟨c, hcache.trans hcache₄, MirroredRun.fetches (fun _ => .refl _) packed_reads
    hashCbor_reads hrun (by decide)⟩

end ChainDb

end Cashbox.Btc
