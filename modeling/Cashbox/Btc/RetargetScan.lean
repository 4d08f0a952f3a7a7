import Cashbox.Btc.FailedAdd
import Cashbox.Btc.Retarget

/-!
# The header a retarget measures from

The timespan of a retarget runs from the header 2015 parents below the one before the
retarget. When the parent of that one is the tip, the code reads it off the trunk by an
index, which lies three entries too low: the shortcut is never right on a trunk that is a
chain. Everywhere else the walk finds the header in every reachable tree, and the target
follows Bitcoin's rule as long as time did not run backwards and the product of target and
timespan is in range.
-/

namespace Cashbox.Btc

open Cashbox.Lib

variable {W : Type}

namespace HeaderCache

/-! ## Ancestors -/

/-- The header `n` parents below. -/
def ancestor (c : HeaderCache W) : Nat → CachedHeader W → Option (CachedHeader W)
  | 0, h => some h
  | n + 1, h =>
    match c.headers h.stored.header.prevBlockhash with
    | some p => c.ancestor n p
    | none => none

theorem ancestor_succ {c : HeaderCache W} {h p : CachedHeader W} (n : Nat)
    (hp : c.headers h.stored.header.prevBlockhash = some p) :
    c.ancestor (n + 1) h = c.ancestor n p := by
  simp only [ancestor, hp]

/-- The scan loop walks to the ancestor. -/
theorem scanBack_eq (c : HeaderCache W) (n : Nat) (h : CachedHeader W) :
    c.scanBack n h = Outcome.okOr .unconnectedHeader (c.ancestor n h) := by
  induction n generalizing h with
  | zero => rfl
  | succ n ih =>
    simp only [scanBack, ancestor]
    cases c.headers h.stored.header.prevBlockhash with
    | none => rfl
    | some p => exact ih p

theorem scanBack_eq_ok {c : HeaderCache W} {n : Nat} {h first : CachedHeader W} :
    c.scanBack n h = .ok first ↔ c.ancestor n h = some first := by
  rw [scanBack_eq]
  cases c.ancestor n h <;> simp [Outcome.okOr]

/-! ## The invariant of every tree -/

/-- Every known header has a known parent one height below, or is one of the headers taken
for a genesis; heights fit their word. -/
structure Rooted (c : HeaderCache W) : Prop where
  genesis : ∀ k h, c.headers k = some h → h.stored.header.prevBlockhash = 0 → h.stored.height = 0
  parent : ∀ k h, c.headers k = some h → h.stored.header.prevBlockhash ≠ 0 →
    ∃ p, c.headers h.stored.header.prevBlockhash = some p ∧
      h.stored.height = p.stored.height + 1
  short : ∀ k h, c.headers k = some h → h.stored.height < 2 ^ 32

/-- The invariant does not depend on the trunk. -/
theorem Rooted.of_headers {c c' : HeaderCache W} (h : Rooted c) (heq : c'.headers = c.headers) :
    Rooted c' := by
  obtain ⟨hgenesis, hparent, hshort⟩ := h
  exact ⟨heq ▸ hgenesis, heq ▸ hparent, heq ▸ hshort⟩

/-- A new header with a known parent, or at height zero, keeps the invariant. -/
theorem Rooted.insert {c : HeaderCache W} (h : Rooted c) {id : Sha256dHash} {x : CachedHeader W}
    (hid : c.headers id = none)
    (hgenesis : x.stored.header.prevBlockhash = 0 → x.stored.height = 0)
    (hparent : x.stored.header.prevBlockhash ≠ 0 →
      ∃ p, c.headers x.stored.header.prevBlockhash = some p ∧
        x.stored.height = p.stored.height + 1)
    (hshort : x.stored.height < 2 ^ 32) : Rooted (c.insert id x) := by
  have hold : ∀ k y, c.headers k = some y → (c.insert id x).headers k = some y := by
    intro k y hy
    rw [insert_headers_ne c x (fun he => by rw [he, hid] at hy; cases hy), hy]
  have hcases : ∀ k y, (c.insert id x).headers k = some y → y = x ∨ c.headers k = some y := by
    intro k y hy
    rw [insert_headers] at hy
    split_ifs at hy with hk
    · exact .inl (Option.some.inj hy).symm
    · exact .inr hy
  refine ⟨?_, ?_, ?_⟩
  · intro k y hy h0
    rcases hcases k y hy with rfl | hy
    · exact hgenesis h0
    · exact h.genesis k y hy h0
  · intro k y hy hne
    have hbelow : ∃ p, c.headers y.stored.header.prevBlockhash = some p ∧
        y.stored.height = p.stored.height + 1 := by
      rcases hcases k y hy with rfl | hy
      · exact hparent hne
      · exact h.parent k y hy hne
    obtain ⟨p, hp, hheight⟩ := hbelow
    exact ⟨p, hold _ _ hp, hheight⟩
  · intro k y hy
    rcases hcases k y hy with rfl | hy
    · exact hshort
    · exact h.short k y hy

/-- Below a known header there are as many ancestors as its height says. -/
theorem Rooted.ancestor {c : HeaderCache W} (h : Rooted c) {n : Nat} {k : Sha256dHash}
    {x : CachedHeader W} (hx : c.headers k = some x) (hn : n ≤ x.stored.height) :
    ∃ first, c.ancestor n x = some first ∧ first.stored.height + n = x.stored.height := by
  induction n generalizing k x with
  | zero => exact ⟨x, rfl, rfl⟩
  | succ n ih =>
    have hne : x.stored.header.prevBlockhash ≠ 0 := by
      intro h0
      have hzero := h.genesis k x hx h0
      omega
    obtain ⟨p, hp, hheight⟩ := h.parent k x hx hne
    obtain ⟨first, hfirst, hdepth⟩ := ih hp (by omega)
    exact ⟨first, (ancestor_succ n hp).trans hfirst, by omega⟩

section Step

variable [LinearOrder W] {env : HeaderEnv W} {c : HeaderCache W}

theorem storeHeader_headers (c : HeaderCache W) (prev cached : CachedHeader W) :
    (c.storeHeader prev cached).1.headers = (c.insert cached.id cached).headers := by
  have hcase := storeHeader_cases (c := c) prev cached
  generalize c.storeHeader prev cached = r at hcase
  cases hcase with
  | added => rfl
  | failed => rfl

/-- One header, whatever becomes of it. -/
theorem Rooted.step (h : Rooted c) (header : BlockHeader) : Rooted (c.step env header) := by
  unfold HeaderCache.step
  have hcase := addHeader_cases env c header
  generalize c.addHeader env header = r at hcase
  cases hcase with
  | known hk => exact h
  | refused result hk hres hchk hgen => exact h
  | genesis log2work hk hprev hwork =>
    have hins : Rooted (c.insert (env.bitcoinHash header)
        ⟨⟨header, 0, log2work⟩, env.bitcoinHash header⟩) :=
      h.insert hk (fun _ => rfl) (fun hne => absurd hprev hne) (by norm_num)
    exact hins.of_headers rfl
  | stored prev cached hk hprev hparent hchk =>
    obtain ⟨⟨required, hreq, _⟩, hheader, hid, hheight, _⟩ := checkHeader_eq_some hchk
    -- the height was computed in its word
    have hshort : prev.stored.height + 1 < 2 ^ 32 := by
      by_contra hle
      unfold requiredWork at hreq
      rw [checkedAdd_of_le (not_lt.mp hle)] at hreq
      cases hreq
    have hins : Rooted (c.insert cached.id cached) := by
      apply h.insert (hid ▸ hk)
      · intro h0
        exact absurd (hheader ▸ h0) hprev
      · intro _
        exact ⟨prev, hheader ▸ hparent, hheight⟩
      · omega
    exact hins.of_headers (storeHeader_headers c prev cached)

theorem Rooted.init {network : Network} {genesis : BlockHeader} (h0 : genesis.prevBlockhash = 0)
    {c₀ : HeaderCache W} {added : Added W}
    (hinit : (new network : HeaderCache W).addHeader env genesis = (c₀, .ok (some added))) :
    Rooted c₀ := by
  obtain ⟨_, _, _, hheader, hheight, honly⟩ := new_addHeader hinit
  refine ⟨?_, ?_, ?_⟩
  · intro k x hx _
    rw [(honly k x hx).2, hheight]
  · intro k x hx hne
    rw [(honly k x hx).2, hheader] at hne
    exact absurd h0 hne
  · intro k x hx
    rw [(honly k x hx).2, hheight]
    norm_num

end Step

/-! ## What a retarget computes -/

/-- What is asked of a retarget that measures from `first`. -/
structure RetargetsFrom (c : HeaderCache W) (prev first : CachedHeader W) : Prop where
  /-- The code picks this header, by the index or by the walk. -/
  picked : c.retargetScan prev = .ok first
  /-- The difference of the times is not below zero. -/
  forward : first.stored.header.time.toNat ≤ prev.stored.header.time.toNat
  /-- The target required of any child is that of Bitcoin's rule. -/
  rule : ∀ next, ∃ target, c.requiredWork prev next = .ok target ∧
    IsRetarget prev.stored.header.target.toNat
      ((prev.stored.header.time.toNat : Int) - first.stored.header.time.toNat) target.toNat

/-- The retarget above `prev` measures from the header 2015 parents below it. -/
def Retargets (c : HeaderCache W) (prev : CachedHeader W) : Prop :=
  ∃ first, c.ancestor (diffchangeInterval - 1) prev = some first ∧ c.RetargetsFrom prev first

/-- The condition on the tree before the header: the shortcut is not taken, time went
forward and the product is in range. -/
structure RetargetOk (c : HeaderCache W) (prev : CachedHeader W) : Prop where
  walked : c.tipHash ≠ some prev.stored.header.prevBlockhash
  forward : ∀ first, c.ancestor (diffchangeInterval - 1) prev = some first →
    first.stored.header.time.toNat ≤ prev.stored.header.time.toNat
  inRange : ∀ first, c.ancestor (diffchangeInterval - 1) prev = some first →
    InRange prev.stored.header.target.toNat
      (clamped ((prev.stored.header.time.toNat : Int) - first.stored.header.time.toNat))

section Retarget

variable {c : HeaderCache W} {prev first : CachedHeader W}

/-- The height above fits its word: no retarget is at height 2^32. -/
theorem height_lt (hheight : (prev.stored.height + 1) % diffchangeInterval = 0)
    (hshort : prev.stored.height < 2 ^ 32) : prev.stored.height + 1 < 2 ^ 32 := by
  simp only [diffchangeInterval] at hheight
  omega

theorem requiredWork_of_picked (hheight : (prev.stored.height + 1) % diffchangeInterval = 0)
    (hshort : prev.stored.height < 2 ^ 32) (hpick : c.retargetScan prev = .ok first)
    (hforward : first.stored.header.time.toNat ≤ prev.stored.header.time.toNat)
    (next : BlockHeader) :
    c.requiredWork prev next = retarget prev.stored.header.target
      (clampTimespan (prev.stored.header.time.toNat - first.stored.header.time.toNat)) := by
  unfold requiredWork
  rw [checkedAdd_of_lt (height_lt hheight hshort), Outcome.ok_bind, if_pos hheight, hpick,
    Outcome.ok_bind, checkedSub_of_le hforward, Outcome.ok_bind]

/-- Once the right header is picked and time went forward, the target is right exactly if
the product is in range. -/
theorem retargetsFrom_iff (hheight : (prev.stored.height + 1) % diffchangeInterval = 0)
    (hshort : prev.stored.height < 2 ^ 32) (hpick : c.retargetScan prev = .ok first)
    (hforward : first.stored.header.time.toNat ≤ prev.stored.header.time.toNat) :
    c.RetargetsFrom prev first ↔ InRange prev.stored.header.target.toNat
      (clamped ((prev.stored.header.time.toNat : Int) - first.stored.header.time.toNat)) := by
  have hclamp := clamped_eq hforward
  rw [hclamp, ← retarget_iff _ (clampTimespan_le _), ← hclamp]
  constructor
  · intro h
    obtain ⟨target, hreq, hrule⟩ := h.rule prev.stored.header
    rw [requiredWork_of_picked hheight hshort hpick hforward, ← hclamp] at hreq
    exact ⟨target, hreq, hrule⟩
  · rintro ⟨target, hret, hrule⟩
    refine ⟨hpick, hforward, fun next => ⟨target, ?_, hrule⟩⟩
    rw [requiredWork_of_picked hheight hshort hpick hforward, ← hclamp, hret]

/-- On a trunk that is a chain the shortcut picks another header: it reads the entry three
below. -/
theorem not_picked_of_shortcut (h : Rooted c) {root : Sha256dHash} (htrunk : TrunkOk root c)
    {k : Sha256dHash} (hk : c.headers k = some prev)
    (hheight : (prev.stored.height + 1) % diffchangeInterval = 0)
    (hshortcut : c.tipHash = some prev.stored.header.prevBlockhash)
    (hfirst : c.ancestor (diffchangeInterval - 1) prev = some first) :
    c.retargetScan prev ≠ .ok first := by
  intro hpick
  have hlow : diffchangeInterval - 1 ≤ prev.stored.height := by
    simp only [diffchangeInterval] at hheight ⊢
    omega
  -- the depth of the ancestor
  obtain ⟨a, ha, hdepth⟩ := h.ancestor hk hlow
  cases hfirst.symm.trans ha
  -- the height of the tip, which is the parent
  have hne : prev.stored.header.prevBlockhash ≠ 0 := by
    intro h0
    rw [h.genesis k prev hk h0] at hlow
    exact absurd hlow (by decide)
  obtain ⟨t, ht, htip⟩ := h.parent k prev hk hne
  unfold tipHash at hshortcut
  have hlast := hshortcut
  rw [List.getLast?_eq_getElem?] at hlast
  obtain ⟨t', ht', hlen, _⟩ := htrunk.height _ _ hlast
  cases ht.symm.trans ht'
  -- the entry that the index reads
  unfold retargetScan at hpick
  rw [tipHash, if_pos hshortcut] at hpick
  obtain ⟨i, hi, hpick⟩ := Outcome.bind_eq_ok.mp hpick
  obtain ⟨j, hj, hpick⟩ := Outcome.bind_eq_ok.mp hpick
  have hij : c.trunk.length = j + 2018 := by
    unfold checkedSub at hi hj
    split_ifs at hi hj with hle hle'
    have hi' := Outcome.ok.inj hi
    have hj' := Outcome.ok.inj hj
    simp only [diffchangeInterval] at hle hi'
    omega
  cases hget : c.trunk[j]? with
  | none => simp [hget] at hpick
  | some id =>
    obtain ⟨x, hx, hxj, _⟩ := htrunk.height _ _ hget
    simp only [hget, hx, Outcome.ofSome] at hpick
    cases hpick
    simp only [diffchangeInterval] at hdepth
    omega

end Retarget

/-! ## Every tree of a run -/

section Runs

variable [LinearOrder W]

/-- The invariant holds after any headers, accepted or not. -/
theorem Rooted.run {env : HeaderEnv W} {c : HeaderCache W} (h : Rooted c)
    (hs : List BlockHeader) : Rooted (Lib.run (HeaderCache.step env) c hs) := by
  induction hs generalizing c with
  | nil => exact h
  | cons header hs ih => exact ih (h.step header)

/-- **Retargets in every tree.** In every tree that any headers build over the genesis
header, and above every known header before a retarget height, the target follows Bitcoin's
rule when the condition holds; on a trunk that is a chain it does so in no other case. -/
theorem retargets_iff_of_run (env : HeaderEnv W) (network : Network) (genesisTxid : Sha256dHash)
    {c₀ : HeaderCache W} {added₀ : Added W}
    (hinit : (new network : HeaderCache W).addHeader env (genesisHeader genesisTxid network) =
      (c₀, .ok (some added₀)))
    (hs : List BlockHeader) {k : Sha256dHash} {prev : CachedHeader W}
    (hk : (run (step env) c₀ hs).headers k = some prev)
    (hheight : (prev.stored.height + 1) % diffchangeInterval = 0) :
    ((run (step env) c₀ hs).RetargetOk prev → (run (step env) c₀ hs).Retargets prev) ∧
      ∀ root, TrunkOk root (run (step env) c₀ hs) →
        ((run (step env) c₀ hs).Retargets prev ↔ (run (step env) c₀ hs).RetargetOk prev) := by
  -- a run keeps the genesis header below every header
  have hrooted : Rooted (run (step env) c₀ hs) :=
    (Rooted.init (genesisHeader_prevBlockhash genesisTxid network) hinit).run hs
  generalize run (step env) c₀ hs = c at hk hrooted ⊢
  have hshort := hrooted.short k prev hk
  have hlow : diffchangeInterval - 1 ≤ prev.stored.height := by
    simp only [diffchangeInterval] at hheight ⊢
    omega
  obtain ⟨first, hfirst, _⟩ := hrooted.ancestor hk hlow
  have henough : c.RetargetOk prev → c.Retargets prev := by
    intro hok
    have hpick : c.retargetScan prev = .ok first := by
      unfold retargetScan
      rw [if_neg hok.walked]
      exact scanBack_eq_ok.mpr hfirst
    refine ⟨first, hfirst, ?_⟩
    exact (retargetsFrom_iff hheight hshort hpick (hok.forward first hfirst)).mpr
      (hok.inRange first hfirst)
  -- on a chain the other direction: the picked header is the right one only by the walk
  refine ⟨henough, fun root htrunk => ⟨?_, henough⟩⟩
  rintro ⟨first', hfirst', hfrom⟩
  cases hfirst.symm.trans hfirst'
  refine ⟨?_, ?_, ?_⟩
  · intro hshortcut
    exact not_picked_of_shortcut hrooted htrunk hk hheight hshortcut hfirst hfrom.picked
  · intro x hx
    cases hfirst.symm.trans hx
    exact hfrom.forward
  · intro x hx
    cases hfirst.symm.trans hx
    exact (retargetsFrom_iff hheight hshort hfrom.picked hfrom.forward).mp hfrom

end Runs

/-! ## A run on each side of the condition -/

/-- The times of a chain of blocks, ten minutes apart. -/
def stamp (n : Nat) : Nat := 1231006505 + 600 * n

/-- An environment for concrete runs: the hash of a header is its time. -/
def towerEnv : HeaderEnv Nat := exactEnv fun header => BitVec.ofNat 256 header.time.toNat

def towerHeader : Nat → BlockHeader
  | 0 => genesisHeader 0 .bitcoin
  | n + 1 =>
    { version := 1, prevBlockhash := BitVec.ofNat 256 (stamp n), merkleRoot := 0,
      time := UInt32.ofNat (stamp (n + 1)), bits := 0x1d00ffff, nonce := 0 }

/-- The work of a header of difficulty one. -/
def unitWork : Nat := 4295032833

/-- A header of difficulty one, as it is stored at a height above as many of them. -/
def cachedAt (height : Nat) (header : BlockHeader) : CachedHeader Nat :=
  ⟨⟨header, height, (height + 1) * unitWork⟩, BitVec.ofNat 256 header.time.toNat⟩

def towerCached (n : Nat) : CachedHeader Nat :=
  ⟨⟨towerHeader n, n, (n + 1) * unitWork⟩, BitVec.ofNat 256 (stamp n)⟩

/-- The cache after `n` of the headers, each of which extends the tip. -/
def tower : Nat → HeaderCache Nat
  | 0 => ((new .bitcoin).addHeader towerEnv (genesisHeader 0 .bitcoin)).1
  | n + 1 =>
    { (tower n).insert (BitVec.ofNat 256 (stamp (n + 1))) (towerCached (n + 1)) with
      trunk := (tower n).trunk ++ [BitVec.ofNat 256 (stamp (n + 1))] }

def towerHeaders (n : Nat) : List BlockHeader := (List.range n).map fun i => towerHeader (i + 1)

theorem stamp_toNat {n : Nat} (hn : n < 2 ^ 16) : (BitVec.ofNat 256 (stamp n)).toNat = stamp n := by
  rw [BitVec.toNat_ofNat]
  unfold stamp
  omega

theorem towerHeader_time {n : Nat} (hn : n < 2 ^ 16) :
    (towerHeader n).time.toNat = stamp n := by
  cases n with
  | zero => rfl
  | succ n =>
    simp only [towerHeader, UInt32.toNat_ofNat']
    unfold stamp
    omega

theorem cachedAt_towerHeader {n : Nat} (hn : n < 2 ^ 16) :
    cachedAt n (towerHeader n) = towerCached n := by
  rw [cachedAt, towerHeader_time hn, towerCached]

theorem towerHeader_bits (n : Nat) : (towerHeader n).bits = 0x1d00ffff := by
  cases n <;> rfl

theorem target_of_bits {header : BlockHeader} (hbits : header.bits = 0x1d00ffff) :
    header.target = maxTarget := by
  unfold BlockHeader.target
  rw [hbits]
  decide

theorem work_of_bits {header : BlockHeader} (hbits : header.bits = 0x1d00ffff) :
    header.work = some (BitVec.ofNat 256 unitWork) := by
  unfold BlockHeader.work
  rw [target_of_bits hbits]
  decide +kernel

theorem stamp_inj {i j : Nat} (hi : i < 2 ^ 16) (hj : j < 2 ^ 16)
    (h : BitVec.ofNat 256 (stamp i) = BitVec.ofNat 256 (stamp j)) : i = j := by
  have hnat := congrArg BitVec.toNat h
  rw [stamp_toNat hi, stamp_toNat hj] at hnat
  unfold stamp at hnat
  omega

theorem tower_zero : (new .bitcoin).addHeader towerEnv (genesisHeader 0 .bitcoin) =
    (tower 0, .ok (some ⟨towerCached 0, none, some [BitVec.ofNat 256 (stamp 0)]⟩)) :=
  Prod.ext rfl (by decide +kernel)

/-- The headers known to a tower are its own. -/
theorem tower_known {n : Nat} {k : Sha256dHash} {x : CachedHeader Nat}
    (hx : (tower n).headers k = some x) :
    ∃ i ≤ n, k = BitVec.ofNat 256 (stamp i) ∧ x = towerCached i := by
  induction n with
  | zero =>
    obtain ⟨_, _, _, _, _, honly⟩ := new_addHeader tower_zero
    exact ⟨0, le_refl 0, honly k x hx⟩
  | succ n ih =>
    have hins : ((tower n).insert (BitVec.ofNat 256 (stamp (n + 1)))
      (towerCached (n + 1))).headers k = some x := hx
    rw [insert_headers] at hins
    split_ifs at hins with hk
    · exact ⟨n + 1, le_refl _, hk, (Option.some.inj hins).symm⟩
    · obtain ⟨i, hi, hki, hxi⟩ := ih hins
      exact ⟨i, by omega, hki, hxi⟩

theorem tower_headers {n i : Nat} (hn : n < 2 ^ 16) (hi : i ≤ n) :
    (tower n).headers (BitVec.ofNat 256 (stamp i)) = some (towerCached i) := by
  induction n with
  | zero =>
    obtain rfl : i = 0 := by omega
    exact (new_addHeader tower_zero).2.1
  | succ n ih =>
    show ((tower n).insert (BitVec.ofNat 256 (stamp (n + 1)))
      (towerCached (n + 1))).headers _ = _
    by_cases hin : i = n + 1
    · rw [hin, insert_headers_self]
    · rw [insert_headers_ne _ _ (fun h => hin (stamp_inj (by omega) hn h)),
        ih (by omega) (by omega)]

theorem tower_trunk (n : Nat) :
    (tower n).trunk.length = n + 1 ∧ (tower n).tipHash = some (BitVec.ofNat 256 (stamp n)) := by
  have hzero : (tower 0).trunk = [BitVec.ofNat 256 (stamp 0)] := (new_addHeader tower_zero).1
  have hlen : (tower n).trunk.length = n + 1 := by
    induction n with
    | zero => rw [hzero, List.length_singleton]
    | succ n ih => simp [tower, ih]
  refine ⟨hlen, ?_⟩
  cases n with
  | zero => rw [tipHash, hzero, List.getLast?_singleton]
  | succ n => simp [tower, tipHash]

theorem tower_network (n : Nat) : (tower n).network = .bitcoin := by
  induction n with
  | zero => decide +kernel
  | succ n ih => exact ih

theorem tower_chainWork {n : Nat} (hn : n + 1 < diffchangeInterval) {header : BlockHeader}
    (hbits : header.bits = 0x1d00ffff) :
    towerEnv.chainWork header ((n + 1) * unitWork) = some ((n + 2) * unitWork) := by
  have hsum : (BitVec.ofNat 256 unitWork).toNat + (n + 1) * unitWork = (n + 2) * unitWork := by
    rw [BitVec.toNat_ofNat, Nat.mod_eq_of_lt (by decide)]
    ring
  show header.work.bind (fun work => checkedWork (work.toNat + (n + 1) * unitWork)) = _
  rw [work_of_bits hbits, Option.bind_some, hsum, checkedWork, if_pos]
  simp only [diffchangeInterval] at hn
  unfold unitWork
  omega

/-- A header of difficulty one above the tip of a tower passes its check, up to the first
retarget. -/
theorem tower_check {n : Nat} (hn : n + 1 < diffchangeInterval) {header : BlockHeader}
    (hbits : header.bits = 0x1d00ffff) :
    (tower n).checkHeader towerEnv (towerCached n) header = some (cachedAt (n + 1) header) := by
  have hwork := tower_chainWork hn hbits
  simp only [diffchangeInterval] at hn
  have hreq : (tower n).requiredWork (towerCached n) header = .ok maxTarget := by
    unfold requiredWork
    rw [checkedAdd_of_lt (by simp only [towerCached]; omega), Outcome.ok_bind,
      if_neg (by simp only [towerCached, diffchangeInterval]; omega), tower_network,
      if_neg (by simp)]
    simp only [towerCached, target_of_bits (towerHeader_bits n), Outcome.pure_eq_ok]
  have htime : header.time.toNat < 2 ^ 32 := header.time.toNat_lt
  have hspv : spvValidate (BitVec.ofNat 256 header.time.toNat) header maxTarget = .ok () := by
    rw [spvValidate_eq_ok, BitVec.le_def, BitVec.toNat_ofNat, maxTarget_toNat]
    exact ⟨target_of_bits hbits, by omega⟩
  have hspv' : spvValidate (towerEnv.bitcoinHash header) header maxTarget = .ok () := hspv
  have hbelow : towerEnv.chainWork header (towerCached n).stored.log2work =
      some ((n + 2) * unitWork) := hwork
  simp only [checkHeader, hreq, hbelow, if_pos hspv']
  rfl

/-- It extends the tower. -/
theorem tower_extended {n : Nat} (hn : n + 1 < diffchangeInterval) {header : BlockHeader}
    (hprev : header.prevBlockhash = BitVec.ofNat 256 (stamp n))
    (hbits : header.bits = 0x1d00ffff)
    (hnew : (tower n).headers (cachedAt (n + 1) header).id = none) :
    (tower n).step towerEnv header =
      { (tower n).insert (cachedAt (n + 1) header).id (cachedAt (n + 1) header) with
        trunk := (tower n).trunk ++ [(cachedAt (n + 1) header).id] } := by
  have hchk := tower_check hn hbits
  simp only [diffchangeInterval] at hn
  have hhash : towerEnv.bitcoinHash header = (cachedAt (n + 1) header).id := rfl
  have hne : BitVec.ofNat 256 (stamp n) ≠ 0 := by
    intro h0
    have hnat := congrArg BitVec.toNat h0
    rw [stamp_toNat (by omega)] at hnat
    simp [stamp] at hnat
  have hparent := tower_headers (by omega : n < 2 ^ 16) (le_refl n)
  have htip : ((tower n).insert (cachedAt (n + 1) header).id (cachedAt (n + 1) header)).tip =
      some (towerCached n) := tip_insert (tower_trunk n).2 hparent hnew
  have hmem : (cachedAt (n + 1) header).stored.header.prevBlockhash ∈
      ((tower n).insert (cachedAt (n + 1) header).id (cachedAt (n + 1) header)).trunk :=
    List.mem_of_getLast? (hprev ▸ (tower_trunk n).2)
  have hlt : (towerCached n).stored.log2work < (cachedAt (n + 1) header).stored.log2work := by
    simp only [towerCached, cachedAt, unitWork]
    omega
  unfold HeaderCache.step HeaderCache.addHeader
  rw [hhash, if_neg (by simp [hnew]), hprev, if_pos hne]
  simp only [hparent, addHeaderToTree_of_checked hchk, storeHeader, htip, if_pos hlt,
    moveTip_of_mem hmem]
  rfl

theorem tower_step {n : Nat} (hn : n + 1 < diffchangeInterval) :
    (tower n).step towerEnv (towerHeader (n + 1)) = tower (n + 1) := by
  have hshort : n + 1 < 2 ^ 16 := by
    simp only [diffchangeInterval] at hn
    omega
  have hcached := cachedAt_towerHeader hshort
  have hnew : (tower n).headers (cachedAt (n + 1) (towerHeader (n + 1))).id = none := by
    rw [hcached]
    cases hx : (tower n).headers (towerCached (n + 1)).id with
    | none => rfl
    | some x =>
      obtain ⟨i, hi, hki, _⟩ := tower_known hx
      have := stamp_inj hshort (by omega) hki
      omega
  rw [tower_extended hn rfl (towerHeader_bits _) hnew, hcached]
  rfl

theorem run_tower {n : Nat} (hn : n < diffchangeInterval) :
    run (step towerEnv) (tower 0) (towerHeaders n) = tower n := by
  induction n with
  | zero => rfl
  | succ n ih =>
    rw [towerHeaders, List.range_succ, List.map_append, ← towerHeaders, run_append,
      ih (by omega)]
    exact tower_step hn

/-- The ancestors where the headers of a tower are known, walked from the last to the first. -/
theorem ancestor_of_tower {c : HeaderCache Nat} {n m i j : Nat}
    (hc : ∀ i ≤ n, c.headers (BitVec.ofNat 256 (stamp i)) = some (towerCached i))
    (hj : j = m + i) (hjn : j ≤ n) :
    c.ancestor m (towerCached j) = some (towerCached i) := by
  induction m generalizing j with
  | zero =>
    obtain rfl : j = i := by omega
    rfl
  | succ m ih =>
    obtain rfl : j = m + i + 1 := by omega
    have hprev : c.headers (towerCached (m + i + 1)).stored.header.prevBlockhash =
        some (towerCached (m + i)) := hc (m + i) (by omega)
    rw [ancestor_succ m hprev]
    exact ih rfl (by omega)

/-- A tower of 2015 headers meets the condition: the first retarget above it measures from
the genesis header. -/
theorem retargets_iff_of_run_tower :
    (run (step towerEnv) (tower 0) (towerHeaders 2015)).Retargets (towerCached 2015) := by
  have hrun : run (step towerEnv) (tower 0) (towerHeaders 2015) = tower 2015 :=
    run_tower (by decide)
  have hknown : (run (step towerEnv) (tower 0) (towerHeaders 2015)).headers
      (BitVec.ofNat 256 (stamp 2015)) = some (towerCached 2015) := by
    rw [hrun, tower_headers (by norm_num) (le_refl _)]
  have hgenesis : (tower 2015).ancestor (diffchangeInterval - 1) (towerCached 2015) =
      some (towerCached 0) :=
    ancestor_of_tower (fun i hi => tower_headers (by norm_num) hi) rfl (le_refl _)
  have hok : (tower 2015).RetargetOk (towerCached 2015) := by
    refine ⟨?_, ?_, ?_⟩
    · rw [(tower_trunk 2015).2]
      intro h
      exact absurd (stamp_inj (by norm_num) (by norm_num) (Option.some.inj h))
        (by norm_num : (2015 : Nat) ≠ 2014)
    · intro first hfirst
      rw [← Option.some.inj (hgenesis.symm.trans hfirst)]
      decide
    · intro first hfirst
      rw [← Option.some.inj (hgenesis.symm.trans hfirst)]
      decide
  apply (retargets_iff_of_run towerEnv .bitcoin 0 tower_zero (towerHeaders 2015) hknown
    (by decide)).1
  rw [hrun]
  exact hok

/-- A header that extends a tower and is dated before its genesis header is known, and the
timespan of the retarget above it is subtracted below zero. -/
theorem not_retargets_of_backward {n : Nat} (hn : n + 2 = diffchangeInterval)
    {header : BlockHeader} (hprev : header.prevBlockhash = BitVec.ofNat 256 (stamp n))
    (hbits : header.bits = 0x1d00ffff) (hearly : header.time.toNat < stamp 0) :
    (run (step towerEnv) (tower 0) (towerHeaders n ++ [header])).headers
        (towerEnv.bitcoinHash header) = some (cachedAt (n + 1) header) ∧
      ¬ (run (step towerEnv) (tower 0) (towerHeaders n ++ [header])).Retargets
        (cachedAt (n + 1) header) := by
  have hlow : n + 1 < diffchangeInterval := by omega
  have hshort : n + 2 < 2 ^ 16 := hn ▸ (by decide)
  have hfresh : ∀ i ≤ n, BitVec.ofNat 256 (stamp i) ≠ (cachedAt (n + 1) header).id := by
    intro i hi h
    have hnat := congrArg BitVec.toNat h
    rw [stamp_toNat (by omega), cachedAt, BitVec.toNat_ofNat] at hnat
    have htime : header.time.toNat < 2 ^ 32 := header.time.toNat_lt
    rw [Nat.mod_eq_of_lt (by omega)] at hnat
    unfold stamp at hnat hearly
    omega
  have hnew : (tower n).headers (cachedAt (n + 1) header).id = none := by
    cases hx : (tower n).headers (cachedAt (n + 1) header).id with
    | none => rfl
    | some x =>
      obtain ⟨i, hi, hki, _⟩ := tower_known hx
      exact absurd hki.symm (hfresh i hi)
  have hheaders : ((tower n).step towerEnv header).headers =
      ((tower n).insert (cachedAt (n + 1) header).id (cachedAt (n + 1) header)).headers := by
    rw [tower_extended hlow hprev hbits hnew]
  have hrun : run (step towerEnv) (tower 0) (towerHeaders n ++ [header]) =
      (tower n).step towerEnv header := by
    rw [run_append, run_tower (by omega)]
    rfl
  rw [hrun]
  generalize (tower n).step towerEnv header = c at hheaders ⊢
  have hknown : c.headers (towerEnv.bitcoinHash header) = some (cachedAt (n + 1) header) := by
    rw [hheaders]
    exact insert_headers_self _ (cachedAt (n + 1) header).id _
  refine ⟨hknown, ?_⟩
  rintro ⟨first, hfirst, hfrom⟩
  have hbelow : ∀ i ≤ n, c.headers (BitVec.ofNat 256 (stamp i)) = some (towerCached i) := by
    intro i hi
    rw [hheaders, insert_headers_ne _ _ (hfresh i hi), tower_headers (by omega) hi]
  have hparent : c.headers (cachedAt (n + 1) header).stored.header.prevBlockhash =
      some (towerCached n) := by
    rw [← hbelow n (le_refl n), ← hprev]
    rfl
  -- the walk goes through the tower to its genesis header
  rw [(by omega : diffchangeInterval - 1 = n + 1), ancestor_succ n hparent,
    ancestor_of_tower hbelow (Nat.add_zero n).symm (le_refl n)] at hfirst
  have hforward := hfrom.forward
  rw [← Option.some.inj hfirst] at hforward
  have hgenesis : (towerCached 0).stored.header.time.toNat = stamp 0 :=
    towerHeader_time (by norm_num)
  rw [hgenesis] at hforward
  exact absurd hearly (not_lt.mpr hforward)

/-- A header above 2014 others that is dated one second before the genesis header. -/
def earlyHeader : BlockHeader :=
  { version := 1, prevBlockhash := BitVec.ofNat 256 (stamp 2014), merkleRoot := 0,
    time := 1231006504, bits := 0x1d00ffff, nonce := 0 }

/-- The header at height 2015 is dated before the one 2015 parents below it, and the timespan
of the first retarget, above it, is not computed. -/
theorem not_retargets_of_early :
    (run (step towerEnv) (tower 0) (towerHeaders 2014 ++ [earlyHeader])).headers
        (towerEnv.bitcoinHash earlyHeader) = some (cachedAt 2015 earlyHeader) ∧
      (cachedAt 2015 earlyHeader).stored.height + 1 = diffchangeInterval ∧
      ¬ (run (step towerEnv) (tower 0) (towerHeaders 2014 ++ [earlyHeader])).Retargets
        (cachedAt 2015 earlyHeader) := by
  obtain ⟨hknown, hno⟩ :=
    not_retargets_of_backward (rfl : 2014 + 2 = diffchangeInterval)
      (rfl : earlyHeader.prevBlockhash = BitVec.ofNat 256 (stamp 2014)) rfl (by decide)
  exact ⟨hknown, rfl, hno⟩

end HeaderCache

end Cashbox.Btc
