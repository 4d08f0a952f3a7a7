import Cashbox.Btc.BlockHeader

/-!
# Cache of headers and the chain with most work

The in-memory header tree of the light client: every known header by its hash,
and the trunk, the list of hashes from genesis to the tip. `addHeader` grows the
tree by one header and moves the trunk when the new header has more work than
the tip.

The accumulated work of a header (`log2work`) is a value of an ordered type `W`,
computed from the header and from the value of its parent; `none` models the
assertions of `log2` and `exp2` failing.
-/

namespace Cashbox.Btc

open Cashbox.Lib

variable {W : Type}

/-! ## Data model -/

/-- `StoredHeader`: a header with its position on the block chain. -/
structure StoredHeader (W : Type) where
  header : BlockHeader
  height : Nat
  log2work : W
  deriving DecidableEq, Repr

structure CachedHeader (W : Type) where
  stored : StoredHeader W
  id : Sha256dHash
  deriving DecidableEq, Repr

/-- The functions of the header cache that are computed outside it. -/
structure HeaderEnv (W : Type) where
  /-- The double SHA-256 of the serialized header. -/
  bitcoinHash : BlockHeader → Sha256dHash
  /-- `log2(header.work())`. -/
  genesisWork : BlockHeader → Option W
  /-- `log2(next.work() + exp2(prev.log2work))`. -/
  chainWork : BlockHeader → W → Option W

/-- The assertion of `log2`, on the work whose logarithm it takes. -/
def checkedWork (work : Nat) : Option Nat := if work < 2 ^ 128 then some work else none

/-- The environment whose `log2work` stands for the work itself, before the logarithm and its
rounding. -/
def exactEnv (bitcoinHash : BlockHeader → Sha256dHash) : HeaderEnv Nat where
  bitcoinHash := bitcoinHash
  genesisWork header := header.work.bind fun work => checkedWork work.toNat
  chainWork next log2work := next.work.bind fun work => checkedWork (work.toNat + log2work)

structure HeaderCache (W : Type) where
  network : Network
  /-- All known headers. -/
  headers : Sha256dHash → Option (CachedHeader W)
  /-- Header chain with most work, genesis first. -/
  trunk : List Sha256dHash

/-- What `add_header` returns for a header it accepts: the stored header, the
hashes that left the trunk and the hashes that joined it. -/
structure Added (W : Type) where
  cached : CachedHeader W
  unwinds : Option (List Sha256dHash)
  forwards : Option (List Sha256dHash)
  deriving DecidableEq, Repr

namespace HeaderCache

def new (network : Network) : HeaderCache W where
  network := network
  headers := fun _ => none
  trunk := []

/-- `HashMap::insert` on the known headers. -/
def insert (c : HeaderCache W) (id : Sha256dHash) (cached : CachedHeader W) : HeaderCache W :=
  { c with headers := fun k => if k = id then some cached else c.headers k }

@[simp] theorem insert_network (c : HeaderCache W) (id : Sha256dHash) (h : CachedHeader W) :
    (c.insert id h).network = c.network := rfl

@[simp] theorem insert_trunk (c : HeaderCache W) (id : Sha256dHash) (h : CachedHeader W) :
    (c.insert id h).trunk = c.trunk := rfl

theorem insert_headers (c : HeaderCache W) (id k : Sha256dHash) (h : CachedHeader W) :
    (c.insert id h).headers k = if k = id then some h else c.headers k := rfl

@[simp] theorem insert_headers_self (c : HeaderCache W) (id : Sha256dHash) (h : CachedHeader W) :
    (c.insert id h).headers id = some h := if_pos rfl

theorem insert_headers_ne (c : HeaderCache W) {id k : Sha256dHash} (h : CachedHeader W)
    (hk : k ≠ id) : (c.insert id h).headers k = c.headers k := if_neg hk

/-- A header read back from the store, from the tip down. -/
def addHeaderUnchecked (c : HeaderCache W) (id : Sha256dHash) (stored : StoredHeader W) :
    HeaderCache W :=
  { c.insert id ⟨stored, id⟩ with trunk := c.trunk ++ [id] }

def reverseTrunk (c : HeaderCache W) : HeaderCache W := { c with trunk := c.trunk.reverse }

/-! ## Queries -/

/-- Position on the trunk; the cast to `u32` cuts it to 32 bits. -/
def posOnTrunk (c : HeaderCache W) (hash : Sha256dHash) : Option Nat :=
  (c.trunk.reverse.findIdx? (· == hash)).map fun p => (c.trunk.length - p - 1) % 2 ^ 32

def tipHash (c : HeaderCache W) : Option Sha256dHash := c.trunk.getLast?

def getHeader (c : HeaderCache W) (id : Sha256dHash) : Option (CachedHeader W) := c.headers id

/-- The id of the block with most work. -/
def tip (c : HeaderCache W) : Option (CachedHeader W) :=
  match c.tipHash with
  | some id => c.getHeader id
  | none => none

def getHeaderForHeight (c : HeaderCache W) (height : Nat) : Option (CachedHeader W) :=
  if height < c.trunk.length % 2 ^ 32 then
    match c.trunk[height]? with
    | some id => c.headers id
    | none => none
  else none

/-- A number in a signed word of 32 bits. -/
def i32 (overflow : Panic) (x : Int) : Outcome Error Int :=
  if -2 ^ 31 ≤ x ∧ x < 2 ^ 31 then .ok x else .panic overflow

/-- The hashes collected, the current stride, their number and the entries still to skip. -/
abbrev LocatorState := List Sha256dHash × Int × Int × Int

/-- `if count > 10 { skip *= 2; }` -/
def nextSkip (skip count : Int) : Outcome Error Int :=
  if count > 10 then i32 .mulOverflow (skip * 2) else .ok skip

/-- One entry of the walk down the trunk that collects the locator. -/
def locatorStep : LocatorState → Sha256dHash → Outcome Error LocatorState
  | (locator, skip, count, s), h =>
    if s = 0 then do
      let count ← i32 .addOverflow (count + 1)
      let next ← nextSkip skip count
      let s ← i32 .subOverflow (skip - 1)
      .ok (locator ++ [h], next, count, s)
    else do
      let s ← i32 .subOverflow (s - 1)
      .ok (locator, skip, count, s)

/-- The walk over these hashes, from the tip down. -/
def locatorWalk (hashes : List Sha256dHash) : Outcome Error LocatorState :=
  hashes.foldlM locatorStep ([], 1, 0, 0)

/-- Locator for the getheaders message. -/
def locatorHashes (c : HeaderCache W) : Outcome Error (List Sha256dHash) := do
  let (locator, _, _, _) ← locatorWalk c.trunk.reverse
  .ok locator

theorem posOnTrunk_eq_none {c : HeaderCache W} {hash : Sha256dHash} :
    c.posOnTrunk hash = none ↔ hash ∉ c.trunk := by
  simp only [posOnTrunk, Option.map_eq_none_iff, List.findIdx?_eq_none_iff, List.mem_reverse,
    beq_eq_false_iff_ne]
  exact ⟨fun h hm => h hash hm rfl, fun h x hx hxe => h (hxe ▸ hx)⟩

/-! ## The target required of a header -/

def diffchangeInterval : Nat := 2016
def diffchangeTimespan : Nat := 14 * 24 * 3600
def targetBlockSpacing : Nat := 600

/-- The scan loop of a retarget: `n` parents back from `scan`. -/
def scanBack (c : HeaderCache W) : Nat → CachedHeader W → Outcome Error (CachedHeader W)
  | 0, scan => .ok scan
  | n + 1, scan =>
    match c.headers scan.stored.header.prevBlockhash with
    | some header => c.scanBack n header
    | none => .err .unconnectedHeader

/-- The header a retarget measures from: by its index on the trunk when the
parent of `prev` is the tip, else by walking back. -/
def retargetScan (c : HeaderCache W) (prev : CachedHeader W) :
    Outcome Error (CachedHeader W) := do
  if c.tipHash = some prev.stored.header.prevBlockhash then
    let i ← checkedSub c.trunk.length diffchangeInterval
    let i ← checkedSub i 2
    match c.trunk[i]? with
    | some id => Outcome.ofSome (c.headers id)
    | none => .panic .indexOutOfBounds
  else
    c.scanBack (diffchangeInterval - 1) prev

/-- The timespan between two blocks, clamped to a factor of four. -/
def clampTimespan (n : Nat) : Nat :=
  if n < diffchangeTimespan / 4 then diffchangeTimespan / 4
  else if diffchangeTimespan * 4 < n then diffchangeTimespan * 4
  else n

/-- The target of a block at a retarget height. -/
def retarget (old : Uint256) (timespan : Nat) : Outcome Error Uint256 :=
  let target := old * BitVec.ofNat 256 timespan / BitVec.ofNat 256 diffchangeTimespan
  satoshiThePrecision (if maxTarget < target then maxTarget else target)

/-- The Testnet scan loop: back to a block whose target is not the 20-minute
exception, or to the last retarget. -/
def scanTestnet (c : HeaderCache W) :
    Nat → CachedHeader W → Nat → Outcome Error (CachedHeader W)
  | fuel, scan, height =>
    if height % diffchangeInterval ≠ 0 ∧ scan.stored.header.prevBlockhash ≠ 0 ∧
        scan.stored.header.target = maxTarget then
      match fuel with
      | 0 => .panic .loopBound
      | fuel + 1 =>
        match c.headers scan.stored.header.prevBlockhash with
        | some header => c.scanTestnet fuel header header.stored.height
        | none => .err .unconnectedHeader
    else .ok scan

/-- `required_work`: the target the child `next` of `prev` has to meet. -/
def requiredWork (c : HeaderCache W) (prev : CachedHeader W) (next : BlockHeader) :
    Outcome Error Uint256 := do
  let height ← checkedAdd 32 prev.stored.height 1
  if height % diffchangeInterval = 0 then
    let scan ← c.retargetScan prev
    let timespan ← checkedSub prev.stored.header.time.toNat scan.stored.header.time.toNat
    retarget prev.stored.header.target (clampTimespan timespan)
  else if c.network = .testnet then
    let limit ← checkedAdd 32 prev.stored.header.time.toNat (2 * targetBlockSpacing)
    if limit < next.time.toNat then
      return maxTarget
    else
      let scan ← c.scanTestnet (prev.stored.height + 1) prev prev.stored.height
      return scan.stored.header.target
  else
    return prev.stored.header.target

/-! ## Growing the tree -/

/-- The path search: from `forksAt` back to the trunk. Returns the hash at which
the branch leaves the trunk and the hashes pushed on the way. -/
def pathToNewTip (c : HeaderCache W) :
    Nat → Sha256dHash → List Sha256dHash → Outcome Error (Sha256dHash × List Sha256dHash)
  | fuel, forksAt, path =>
    if (c.posOnTrunk forksAt).isNone then
      match fuel with
      | 0 => .panic .loopBound
      | fuel + 1 =>
        match c.headers forksAt with
        -- the hash pushed is the one the search moves to, not the one it leaves
        | some h =>
          c.pathToNewTip fuel h.stored.header.prevBlockhash
            (path ++ [h.stored.header.prevBlockhash])
        | none => .err .unconnectedHeader
    else .ok (forksAt, path)

/-- `trunk.iter().rposition(|h| *h == forks_at)`. -/
def rposition (c : HeaderCache W) (hash : Sha256dHash) : Option Nat :=
  (c.trunk.reverse.findIdx? (· == hash)).map fun p => c.trunk.length - 1 - p

/-- Moves the trunk to a header with more work than the tip. -/
def moveTip (c : HeaderCache W) (prev : CachedHeader W) (cached : CachedHeader W) :
    HeaderCache W × Outcome Error (Added W) :=
  let next := cached.stored.header
  match c.pathToNewTip (prev.stored.height + 2) next.prevBlockhash [] with
  | .err e => (c, .err e)
  | .panic p => (c, .panic p)
  | .ok (forksAt, path) =>
    let pathToNewTip := path.reverse ++ [cached.id]
    if forksAt ≠ next.prevBlockhash then
      match c.rposition forksAt with
      | some pos =>
        -- headers that are no longer on trunk are cut
        let unwinds := (c.trunk.drop (pos + 1)).reverse
        ({ c with trunk := c.trunk.take (pos + 1) ++ pathToNewTip },
          .ok ⟨cached, some unwinds, some pathToNewTip⟩)
      | none => (c, .err .unconnectedHeader)
    else
      ({ c with trunk := c.trunk ++ pathToNewTip }, .ok ⟨cached, none, some pathToNewTip⟩)

section Add

variable [LinearOrder W] (env : HeaderEnv W)

/-- Stores a checked header below its parent `prev` and moves the trunk to it
when it has more work than the tip. -/
def storeHeader (c : HeaderCache W) (prev : CachedHeader W) (cached : CachedHeader W) :
    HeaderCache W × Outcome Error (Added W) :=
  let c := c.insert cached.id cached
  match c.tip with
  | none => (c, .err .noTip)
  | some tip =>
    if tip.stored.log2work < cached.stored.log2work then c.moveTip prev cached
    else (c, .ok ⟨cached, none, none⟩)

/-- Adds a header to the tree below its parent `prev`. -/
def addHeaderToTree (c : HeaderCache W) (prev : CachedHeader W) (next : BlockHeader) :
    HeaderCache W × Outcome Error (Added W) :=
  match c.requiredWork prev next with
  | .err e => (c, .err e)
  | .panic p => (c, .panic p)
  | .ok required =>
    match env.chainWork next prev.stored.log2work with
    | none => (c, .panic .assertFailed)
    | some log2work =>
      let cached : CachedHeader W :=
        ⟨⟨next, prev.stored.height + 1, log2work⟩, env.bitcoinHash next⟩
      match spvValidate cached.id next required with
      | .ok () => c.storeHeader prev cached
      | _ => (c, .err .spvBadProofOfWork)

/-- Adds a Bitcoin header: `Ok(None)` for a header already known. -/
def addHeader (c : HeaderCache W) (header : BlockHeader) :
    HeaderCache W × Outcome Error (Option (Added W)) :=
  if (c.headers (env.bitcoinHash header)).isSome then
    (c, .ok none)
  else if header.prevBlockhash ≠ 0 then
    match c.headers header.prevBlockhash with
    | some previous =>
      let (c, result) := c.addHeaderToTree env previous header
      (c, result >>= fun added => .ok (some added))
    | none => (c, .err .unconnectedHeader)
  else
    -- taken for every unknown header with a zero previous hash
    match env.genesisWork header with
    | none => (c, .panic .assertFailed)
    | some log2work =>
      let newTip := env.bitcoinHash header
      let stored : CachedHeader W := ⟨⟨header, 0, log2work⟩, newTip⟩
      ({ c.insert newTip stored with trunk := c.trunk ++ [newTip] },
        .ok (some ⟨stored, none, some [newTip]⟩))

end Add

end HeaderCache

end Cashbox.Btc
