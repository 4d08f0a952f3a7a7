import Cashbox.Btc.HeaviestTip

/-!
# The chain in the store

What the store keeps of the header chain: every header under its hash, and the hash
of the tip. `init` walks back from the tip along the previous hashes and reverses
what it read. Over a faithful store this gives the trunk of the cache that wrote the
store, and of the known headers those on the trunk.
-/

namespace Cashbox.Btc

open Cashbox.Lib

variable {W D : Type}

/-! ## A faithful store -/

/-- The store is a faithful key-value store: what is put is read back, under its own
key only, and a batch changes nothing that is read. -/
structure Faithful (store : BitcoinAdaptor W D) (bitcoinHash : BlockHeader → Sha256dHash) :
    Prop where
  putHashKeyed : ∀ stored d, ∃ d', (store.putHashKeyed stored).run d = (d', .ok ()) ∧
    (∀ k, store.getHashKeyed d' k =
      if k = bitcoinHash stored.header then .ok (some stored) else store.getHashKeyed d k) ∧
    ∀ key, store.getKeyedDecodable d' key = store.getKeyedDecodable d key
  putKeyedEncodable : ∀ key hash d, ∃ d', (store.putKeyedEncodable key hash).run d = (d', .ok ()) ∧
    (∀ k, store.getHashKeyed d' k = store.getHashKeyed d k) ∧
    ∀ key', store.getKeyedDecodable d' key' =
      if key' = key then .ok (some hash) else store.getKeyedDecodable d key'
  batch : ∀ d, ∃ d', store.batch.run d = (d', .ok ()) ∧
    (∀ k, store.getHashKeyed d' k = store.getHashKeyed d k) ∧
    ∀ key, store.getKeyedDecodable d' key = store.getKeyedDecodable d key

/-! ## Reading the chain back -/

namespace HeaderCache

/-- The cache after reading back the headers of a trunk, the last first. -/
def readBack (stored : Sha256dHash → StoredHeader W) (c : HeaderCache W) (xs : List Sha256dHash) :
    HeaderCache W :=
  xs.reverse.foldl (fun c k => c.addHeaderUnchecked k (stored k)) c

variable {stored : Sha256dHash → StoredHeader W}

theorem readBack_concat (c : HeaderCache W) (xs : List Sha256dHash) (k : Sha256dHash) :
    c.readBack stored (xs ++ [k]) = (c.addHeaderUnchecked k (stored k)).readBack stored xs := by
  simp [readBack]

theorem readBack_trunk (c : HeaderCache W) (xs : List Sha256dHash) :
    (c.readBack stored xs).trunk = c.trunk ++ xs.reverse := by
  induction xs using List.reverseRecOn generalizing c with
  | nil => simp [readBack]
  | append_singleton xs k ih =>
    rw [readBack_concat, ih]
    simp [addHeaderUnchecked]

theorem readBack_network (c : HeaderCache W) (xs : List Sha256dHash) :
    (c.readBack stored xs).network = c.network := by
  induction xs using List.reverseRecOn generalizing c with
  | nil => rfl
  | append_singleton xs k ih =>
    rw [readBack_concat, ih]
    rfl

theorem readBack_headers (c : HeaderCache W) (xs : List Sha256dHash) (k : Sha256dHash) :
    (c.readBack stored xs).headers k =
      if k ∈ xs then some ⟨stored k, k⟩ else c.headers k := by
  induction xs using List.reverseRecOn generalizing c with
  | nil => simp [readBack]
  | append_singleton xs k' ih =>
    rw [readBack_concat, ih]
    simp only [addHeaderUnchecked, insert_headers, List.mem_append, List.mem_singleton]
    by_cases hk : k ∈ xs
    · simp [hk]
    · by_cases hk' : k = k'
      · simp [hk']
      · simp [hk, hk']

end HeaderCache

namespace ChainDb

variable {store : BitcoinAdaptor W D}

theorem run_fetchHeader (c : ChainDb W D) (id : Sha256dHash) :
    (fetchHeader store id).run c = (c, store.getHashKeyed c.db id) := rfl

theorem run_fetchHeaderTip (c : ChainDb W D) :
    (fetchHeaderTip store).run c = (c, store.getKeyedDecodable c.db headerTipKey) := rfl

/-- One round of the loop that finds a header. -/
theorem run_readHeaders_succ {c : ChainDb W D} {h : Sha256dHash} {stored : StoredHeader W}
    (hget : store.getHashKeyed c.db h = .ok (some stored)) (fuel : Nat) :
    (readHeaders store (fuel + 1) h).run c =
      (if stored.header.prevBlockhash ≠ 0 then
        readHeaders store fuel stored.header.prevBlockhash else pure ()).run
        { c with headercache := c.headercache.addHeaderUnchecked h stored } := by
  have hput : (onCache (Method.modify fun cache => cache.addHeaderUnchecked h stored) :
      Method (ChainDb W D) Error Unit).run c =
      ({ c with headercache := c.headercache.addHeaderUnchecked h stored }, .ok ()) := rfl
  rw [readHeaders, Method.run_bind_of_ok (by rw [run_fetchHeader, hget])]
  simp only [Method.run_bind_of_ok hput]

/-- Whatever the store holds, the loop only adds to what was read before. -/
theorem readHeaders_trunk (fuel : Nat) (h : Sha256dHash) (c : ChainDb W D) :
    c.headercache.trunk <+: ((readHeaders store fuel h).run c).1.headercache.trunk := by
  induction fuel generalizing h c with
  | zero => exact List.prefix_rfl
  | succ fuel ih =>
    cases hget : store.getHashKeyed c.db h with
    | err e =>
      rw [readHeaders, Method.run_bind_of_err (by rw [run_fetchHeader, hget])]
    | panic p =>
      rw [readHeaders, Method.run_bind_of_panic (by rw [run_fetchHeader, hget])]
    | ok r =>
      cases r with
      | none =>
        rw [readHeaders, Method.run_bind_of_ok (by rw [run_fetchHeader, hget])]
        exact List.prefix_rfl
      | some stored =>
        rw [run_readHeaders_succ hget]
        have hadded : c.headercache.trunk <+:
            (c.headercache.addHeaderUnchecked h stored).trunk := List.prefix_append _ _
        split_ifs
        · exact hadded.trans
            (ih _ { c with headercache := c.headercache.addHeaderUnchecked h stored })
        · exact hadded

/-- The parent that a stored header names. -/
def parentIn (stored : Sha256dHash → StoredHeader W) (k : Sha256dHash) : Option Sha256dHash :=
  if (stored k).header.prevBlockhash = 0 then none else some (stored k).header.prevBlockhash

/-- The loop reads a stored trunk from its last entry to the root and stops there. -/
theorem run_readHeaders {stored : Sha256dHash → StoredHeader W} {root : Sha256dHash}
    {xs : List Sha256dHash} (hxs : IsTrunk (parentIn stored) root xs)
    (hroot : (stored root).header.prevBlockhash = 0) {fuel : Nat} (hfuel : xs.length ≤ fuel)
    {tip : Sha256dHash} (htip : xs.getLast? = some tip) (c : ChainDb W D)
    (hstored : ∀ k ∈ xs, store.getHashKeyed c.db k = .ok (some (stored k))) :
    (readHeaders store fuel tip).run c =
      ({ c with headercache := c.headercache.readBack stored xs }, .ok ()) := by
  induction xs using List.reverseRecOn generalizing fuel tip c with
  | nil => simp at htip
  | append_singleton xs k ih =>
    obtain rfl : k = tip := by simpa using htip
    obtain ⟨fuel, rfl⟩ : ∃ n, fuel = n + 1 := ⟨fuel - 1, by simp at hfuel; omega⟩
    rw [run_readHeaders_succ (hstored k (by simp)), HeaderCache.readBack_concat]
    by_cases hnil : xs = []
    · -- the root is the only header left
      subst hnil
      obtain rfl : k = root := by simpa using hxs.head
      rw [if_neg (not_not.mpr hroot)]
      rfl
    · obtain ⟨hrest, prev, hprev, hlink⟩ := hxs.of_concat hnil
      have hne : (stored k).header.prevBlockhash ≠ 0 ∧ (stored k).header.prevBlockhash = prev := by
        unfold parentIn at hlink
        split_ifs at hlink with h0
        exact ⟨h0, Option.some.inj hlink⟩
      rw [if_pos hne.1, hne.2]
      exact ih hrest (by simp at hfuel; omega) hprev _ fun k' hk' => hstored k' (by simp [hk'])

end ChainDb

end Cashbox.Btc
