import Cashbox.Lib.Method
import Cashbox.Btc.Trunk

/-!
# The chain database

The header cache together with the block store it is written to. The store is a
parameter: its calls may fail at any time, after the cache has changed. A peer
may send any headers; what the database accepts from it was checked against the
proof of work required at its height, unless the header has a zero previous
hash, which `addHeader` takes for a genesis.
-/

namespace Cashbox.Btc

open Cashbox.Lib

variable {W D : Type}

/-! ## Data model -/

/-- `BitcoinAdaptor`: the calls of the block store, over contents of type `D`. -/
structure BitcoinAdaptor (W D : Type) where
  putHashKeyed : StoredHeader W → Method D Error Unit
  putKeyedEncodable : List UInt8 → Sha256dHash → Method D Error Unit
  batch : Method D Error Unit
  getHashKeyed : D → Sha256dHash → Outcome Error (Option (StoredHeader W))
  getKeyedDecodable : D → List UInt8 → Outcome Error (Option Sha256dHash)

/-- `ChainDB`: database storing the block chain. -/
structure ChainDb (W D : Type) where
  db : D
  headercache : HeaderCache W
  network : Network

def headerTipKey : List UInt8 := [0]

namespace ChainDb

def onDb {α : Type} (m : Method D Error α) : Method (ChainDb W D) Error α :=
  m.on ChainDb.db fun c db => { c with db := db }

def onCache {α : Type} (m : Method (HeaderCache W) Error α) : Method (ChainDb W D) Error α :=
  m.on ChainDb.headercache fun c cache => { c with headercache := cache }

def new (db : D) (network : Network) : ChainDb W D where
  db := db
  headercache := HeaderCache.new network
  network := network

section Calls

variable (store : BitcoinAdaptor W D)

/-- Batch updates. Updates are permanent after finishing a batch. -/
def batch : Method (ChainDb W D) Error Unit := onDb store.batch

/-- Store the header id with most work. -/
def storeHeaderTip (tip : Sha256dHash) : Method (ChainDb W D) Error Unit :=
  onDb (store.putKeyedEncodable headerTipKey tip)

/-- Find header id with most work. -/
def fetchHeaderTip : Method (ChainDb W D) Error (Option Sha256dHash) := do
  let c ← Method.get
  Method.lift (store.getKeyedDecodable c.db headerTipKey)

/-- Read header from the DB. -/
def fetchHeader (id : Sha256dHash) : Method (ChainDb W D) Error (Option (StoredHeader W)) := do
  let c ← Method.get
  Method.lift (store.getHashKeyed c.db id)

/-- The loop that reads the stored chain from its tip down. -/
def readHeaders : Nat → Sha256dHash → Method (ChainDb W D) Error Unit
  | 0, _ => Method.lift (.panic .loopBound)
  | fuel + 1, h => do
    match ← fetchHeader store h with
    | some stored =>
      onCache (Method.modify fun cache => cache.addHeaderUnchecked h stored)
      if stored.header.prevBlockhash ≠ 0 then readHeaders fuel stored.header.prevBlockhash
      else pure ()
    | none => pure ()

variable [LinearOrder W] (env : HeaderEnv W)

/-- Initialize caches: from the stored tip, or with the genesis header. -/
def init (genesisTxid : Sha256dHash) (fuel : Nat) : Method (ChainDb W D) Error Unit := do
  match ← fetchHeaderTip store with
  | some tip =>
    readHeaders store fuel tip
    onCache (Method.modify HeaderCache.reverseTrunk)
  | none =>
    let c ← Method.get
    let genesis := genesisHeader genesisTxid c.network
    match ← onCache ⟨fun cache => cache.addHeader env genesis⟩ with
    | some added =>
      onDb (store.putHashKeyed added.cached.stored)
      batch store
      storeHeaderTip store added.cached.id
      batch store
    | none => Method.lift (.err .noTip)

/-- What follows the cache in `add_header`: the header is stored and, when the
tip moved, the id of the new tip. -/
def storeAdded (added : Added W) : Method (ChainDb W D) Error Unit := do
  onDb (store.putHashKeyed added.cached.stored)
  match added.forwards.bind List.getLast? with
  | some last => storeHeaderTip store last
  | none => pure ()

/-- Store a header. -/
def addHeader (header : BlockHeader) : Method (ChainDb W D) Error (Option (Added W)) := do
  match ← onCache ⟨fun cache => cache.addHeader env header⟩ with
  | some added =>
    storeAdded store added
    return some added
  | none => return none

end Calls

/-- Retrieve the id of the block with most work. -/
def headerTip (c : ChainDb W D) : Option (CachedHeader W) := c.headercache.tip

def getHeader (c : ChainDb W D) (id : Sha256dHash) : Option (CachedHeader W) :=
  c.headercache.getHeader id

/-! ## The store does not change the cache -/

section Frame

variable {store : BitcoinAdaptor W D}

theorem onDb_keeps {α : Type} (m : Method D Error α) :
    (onDb m : Method (ChainDb W D) Error α).Keeps ChainDb.headercache := fun _ => rfl

theorem storeAdded_keeps (added : Added W) :
    (storeAdded store added).Keeps ChainDb.headercache := by
  apply (onDb_keeps _).bind
  intro _
  cases added.forwards.bind List.getLast? with
  | some last => exact onDb_keeps _
  | none => exact Method.Keeps.pure ()

variable [LinearOrder W] {env : HeaderEnv W}

/-- Whatever the store does, the cache after `addHeader` is that of
`HeaderCache.addHeader`. -/
theorem addHeader_headercache (store : BitcoinAdaptor W D) (env : HeaderEnv W)
    (c : ChainDb W D) (header : BlockHeader) :
    ((addHeader store env header).run c).1.headercache =
      (c.headercache.addHeader env header).1 := by
  refine Method.Keeps.view_bind ?_ c
  intro added
  cases added with
  | none => exact Method.Keeps.pure none
  | some added => exact (storeAdded_keeps added).bind fun _ => Method.Keeps.pure _

/-- What the database returns for a header is what its cache returns, unless the
store fails. -/
theorem addHeader_eq_ok {c c' : ChainDb W D} {header : BlockHeader} {r : Option (Added W)}
    (h : (addHeader store env header).run c = (c', .ok r)) :
    (c.headercache.addHeader env header).2 = .ok r := by
  unfold addHeader at h
  obtain ⟨c₁, added, hcache, hrest⟩ := Method.run_bind_eq_ok.mp h
  have hres : (c.headercache.addHeader env header).2 = .ok added := congrArg Prod.snd hcache
  cases added with
  | none =>
    rw [hres]
    exact congrArg Prod.snd hrest
  | some added =>
    obtain ⟨_, _, _, hret⟩ := Method.run_bind_eq_ok.mp hrest
    rw [hres]
    exact congrArg Prod.snd hret

/-- A header that the cache does not store does not reach the store. -/
theorem run_addHeader_of_not_added {c : ChainDb W D} {header : BlockHeader}
    (hres : ∀ added, (c.headercache.addHeader env header).2 ≠ .ok (some added)) :
    (addHeader store env header).run c =
      ({ c with headercache := (c.headercache.addHeader env header).1 },
        (c.headercache.addHeader env header).2) := by
  have hcache : (onCache ⟨fun cache => cache.addHeader env header⟩ :
      Method (ChainDb W D) Error _).run c =
      ({ c with headercache := (c.headercache.addHeader env header).1 },
        (c.headercache.addHeader env header).2) := rfl
  unfold addHeader
  cases hr : (c.headercache.addHeader env header).2 with
  | ok r =>
    cases r with
    | some added => exact absurd hr (hres added)
    | none =>
      rw [hr] at hcache
      rw [Method.run_bind_of_ok hcache]
      rfl
  | err e =>
    rw [hr] at hcache
    exact Method.run_bind_of_err hcache
  | panic p =>
    rw [hr] at hcache
    exact Method.run_bind_of_panic hcache

/-- A known header changes nothing. -/
theorem addHeader_of_known {c : ChainDb W D} {header : BlockHeader}
    (hk : (c.headercache.headers (env.bitcoinHash header)).isSome) :
    (addHeader store env header).run c = (c, .ok none) := by
  have hcache : c.headercache.addHeader env header = (c.headercache, .ok none) := if_pos hk
  have hrun : (onCache ⟨fun cache => cache.addHeader env header⟩ :
      Method (ChainDb W D) Error _).run c = (c, .ok none) := by
    unfold onCache
    rw [Method.run_on]
    show ({ c with headercache := (c.headercache.addHeader env header).1 },
      (c.headercache.addHeader env header).2) = _
    rw [hcache]
  unfold addHeader
  rw [Method.run_bind_of_ok hrun]
  rfl

/-- Initialisation of an empty store leaves the genesis header in the cache. -/
theorem init_headercache {genesisTxid : Sha256dHash} {network : Network} {fuel : Nat} {d : D}
    {c₀ : ChainDb W D} (hempty : store.getKeyedDecodable d headerTipKey = .ok none)
    (hinit : (init store env genesisTxid fuel).run (new d network) = (c₀, .ok ())) :
    ∃ added, (HeaderCache.new network : HeaderCache W).addHeader env
      (genesisHeader genesisTxid network) = (c₀.headercache, .ok (some added)) := by
  have hfetch : (fetchHeaderTip store : Method (ChainDb W D) Error _).run (new d network) =
      (new d network, .ok none) := by
    unfold fetchHeaderTip
    rw [Method.run_bind, Method.run_get]
    show (new d network, store.getKeyedDecodable d headerTipKey) = _
    rw [hempty]
  unfold init at hinit
  rw [Method.run_bind_of_ok hfetch, Method.run_bind_of_ok (Method.run_get _)] at hinit
  obtain ⟨c, added, hcache, hrest⟩ := Method.run_bind_eq_ok.mp hinit
  cases added with
  | none => cases hrest
  | some added =>
    -- what is stored after the genesis header does not touch the cache
    have hkeep : (do
        onDb (store.putHashKeyed added.cached.stored)
        batch store
        storeHeaderTip store added.cached.id
        batch store : Method (ChainDb W D) Error Unit).Keeps ChainDb.headercache :=
      (onDb_keeps _).bind fun _ => (onDb_keeps _).bind fun _ =>
        (onDb_keeps _).bind fun _ => onDb_keeps _
    have hc : c₀.headercache = c.headercache := by
      rw [← hkeep c]
      exact congrArg (fun r => r.1.headercache) hrest.symm
    refine ⟨added, ?_⟩
    rw [hc]
    exact congrArg (fun r => (r.1.headercache, r.2)) hcache

end Frame

end ChainDb

end Cashbox.Btc
