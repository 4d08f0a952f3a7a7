import Cashbox.Btc.ScanHeaders

/-!
# The progress of a scan

`GetData::run` keeps the progress of the scan in one row of a table: the hash of a block and a
timestamp. Every delivered `merkleblock` overwrites it with the hash of the block before it and
with its own timestamp. The headers that are requested next are those later than the timestamp.
-/

namespace Cashbox.Btc

open Cashbox.Lib

/-! ## Data model -/

/-- A row of `m_progress`. The timestamp stands for its decimal text. -/
structure MProgress where
  header : Sha256dHash
  timestamp : UInt32
  deriving DecidableEq

/-- Which statements fail during one `get_data`. -/
structure GetDataFails where
  fetchProgress : Bool
  saveProgress : Bool
  selectHeaders : Bool
  updateScanned : Bool

/-- What `run` does something about. Whether the peer serves blocks is the first argument of
each. -/
inductive PeerMessage where
  /-- Whether the filter was loaded in time. -/
  | connected (serving filterReady : Bool) (fails : GetDataFails)
  /-- A header with its proof; the update of the progress may fail. -/
  | merkleBlock (serving : Bool) (merkleblock : BlockHeader) (updateFails : Bool)
    (fails : GetDataFails)
  | ping (serving : Bool) (fails : GetDataFails)
  /-- With one `get_data` for each transaction of the inventory. -/
  | inv (serving : Bool) (fails : List GetDataFails)
  | other

/-- The receiver of `run`, with its databases: the tables of the progress and of the headers,
the blocks since the last hundred, and the hashes that were requested. -/
structure GetData where
  progress : List MProgress
  chain : ChainSqlite
  merkleVec : List BlockHeader
  requested : List (List Sha256dHash)
  /-- The blocks whose `merkleblock` was delivered. -/
  delivered : List Sha256dHash

section Model

variable (bitcoinHash : BlockHeader → Sha256dHash) (genesis : BlockHeader)

/-! ## The progress table -/

/-- The progress before anything is scanned. -/
def genesisProgress : MProgress := ⟨bitcoinHash genesis, genesis.time⟩

/-- `progress`: a row that cannot be read counts as missing, and then one is saved. -/
def GetData.fetchProgress (fails : GetDataFails) (s : GetData) : GetData × MProgress :=
  match if fails.fetchProgress then none else s.progress.head? with
  | some p => (s, p)
  | none =>
    let p := genesisProgress bitcoinHash genesis
    (if fails.saveProgress then s else { s with progress := s.progress ++ [p] }, p)

/-- `update_progress`: the first row changes, if there is one. -/
def updateProgress (p : MProgress) : List MProgress → List MProgress
  | [] => []
  | _ :: rest => p :: rest

/-! ## The loop -/

/-- retrieve data -/
def GetData.getData (add : Bool) (fails : GetDataFails) (s : GetData) : GetData :=
  let (s, p) := s.fetchProgress bitcoinHash genesis fails
  let (chain, headerVec) := s.chain.fetchScanHeader
    ⟨p.timestamp, add, fails.selectHeaders, fails.updateScanned⟩
  { s with
    chain := chain
    requested := if headerVec = [] then s.requested else s.requested ++ [headerVec] }

/-- A delivered block overwrites the progress before anything is requested. -/
def GetData.deliver (merkleblock : BlockHeader) (updateFails : Bool) (s : GetData) : GetData :=
  { s with
    progress := if updateFails then s.progress
      else updateProgress ⟨merkleblock.prevBlockhash, merkleblock.time⟩ s.progress
    delivered := bitcoinHash merkleblock :: s.delivered }

/-- One round of `run`. -/
def GetData.receive (s : GetData) : PeerMessage → GetData
  | .connected serving filterReady fails =>
    if serving && filterReady then s.getData bitcoinHash genesis false fails else s
  | .merkleBlock serving merkleblock updateFails fails =>
    let s := s.deliver bitcoinHash merkleblock updateFails
    if s.merkleVec.length ≤ 100 then { s with merkleVec := s.merkleVec ++ [merkleblock] }
    else
      let s := if serving then s.getData bitcoinHash genesis true fails else s
      { s with merkleVec := [] }
  | .ping serving fails => if serving then s.getData bitcoinHash genesis true fails else s
  | .inv serving fails =>
    if serving then fails.foldl (fun s fails => s.getData bitcoinHash genesis true fails) s else s
  | .other => s

/-- Before the first message; the headers are those that were saved. -/
def GetData.new (chain : ChainSqlite) : GetData := ⟨[], chain, [], [], []⟩

/-! ## Nothing is skipped -/

/-- The header is later than the timestamp, as `fetch_scan_header` compares them. -/
def MBlockHeader.IsLater (timestamp : UInt32) (r : MBlockHeader) : Prop :=
  Text.decimal timestamp.toNat < r.timestamp

/-- The timestamp from which on headers are requested. -/
def GetData.scannedTo (s : GetData) : UInt32 :=
  ((s.progress.head?).getD (genesisProgress bitcoinHash genesis)).timestamp

/-- The hash and the timestamp are those of one stored header, or of the genesis block. -/
def GetData.IsPair (s : GetData) (p : MProgress) : Prop :=
  p = genesisProgress bitcoinHash genesis ∨
    ∃ r ∈ s.chain.blockHeader, r.header = p.header ∧ r.timestamp = Text.decimal p.timestamp.toNat

/-- The one hash is before the other on the trunk, which begins with the genesis block. -/
def IsBefore (trunk : List Sha256dHash) (h h' : Sha256dHash) : Prop :=
  h ≠ h' ∧ [h, h'].Sublist trunk

/-- A message keeps the progress a pair, does not move it backward along the trunk, and makes
no header ineligible that was not delivered. -/
structure SkipsNothing (trunk : List Sha256dHash) (s s' : GetData) : Prop where
  pair : ∀ p, s'.progress.head? = some p → s'.IsPair bitcoinHash genesis p
  forward : ∀ p p', s.progress.head? = some p → s'.progress.head? = some p' →
    ¬ IsBefore trunk p'.header p.header
  eligible : ∀ r ∈ s.chain.blockHeader, r.header ∉ s'.delivered →
    r.IsLater (s.scannedTo bitcoinHash genesis) → r.IsLater (s'.scannedTo bitcoinHash genesis)

/-- A `merkleblock` may overwrite the progress `p`. -/
structure Follows (trunk : List Sha256dHash) (s : GetData) (p : MProgress)
    (merkleblock : BlockHeader) : Prop where
  /-- The block in front of it has its timestamp, -/
  sameTime : (merkleblock.prevBlockhash = bitcoinHash genesis ∧ merkleblock.time = genesis.time) ∨
    ∃ r ∈ s.chain.blockHeader, r.header = merkleblock.prevBlockhash ∧
      r.timestamp = Text.decimal merkleblock.time.toNat
  /-- it does not stand on the trunk in front of the block of the progress, -/
  position : ∀ i j : Nat, trunk[i]? = some merkleblock.prevBlockhash → trunk[j]? = some p.header →
    merkleblock.prevBlockhash ≠ p.header → j ≤ i
  /-- and no block that was not delivered has a timestamp between those of the two. -/
  between : ∀ r ∈ s.chain.blockHeader, r.header ∉ s.delivered →
    r.header ≠ bitcoinHash merkleblock →
      ¬ (Text.decimal p.timestamp.toNat < r.timestamp ∧
        r.timestamp ≤ Text.decimal merkleblock.time.toNat)

/-- A `merkleblock` follows the progress that it overwrites, if it overwrites one. -/
def AdvancesProperly (trunk : List Sha256dHash) (s : GetData) : PeerMessage → Prop
  | .merkleBlock _ merkleblock false _ =>
    ∀ p, s.progress.head? = some p → Follows bitcoinHash genesis trunk s p merkleblock
  | _ => True

/-! ## Requests

A `get_data` counts scans and may save the first progress, but leaves everything else as it
is. -/

/-- The progress is the same, but for rows of the genesis block behind it, and so are the
delivered blocks and the stored headers. -/
structure Rests (s s' : GetData) : Prop where
  progress : ∃ rows, s'.progress = s.progress ++ rows ∧
    ∀ p ∈ rows, p = genesisProgress bitcoinHash genesis
  delivered : s'.delivered = s.delivered
  headers : s'.chain.blockHeader.map (fun r => (r.header, r.timestamp)) =
    s.chain.blockHeader.map fun r => (r.header, r.timestamp)

namespace Rests

variable {bitcoinHash genesis} {s s' s'' : GetData}

theorem refl (s : GetData) : Rests bitcoinHash genesis s s where
  progress := ⟨[], by simp⟩
  delivered := rfl
  headers := rfl

theorem trans (h : Rests bitcoinHash genesis s s') (h' : Rests bitcoinHash genesis s' s'') :
    Rests bitcoinHash genesis s s'' where
  progress := by
    obtain ⟨rows, hrows, hgenesis⟩ := h.progress
    obtain ⟨rows', hrows', hgenesis'⟩ := h'.progress
    refine ⟨rows ++ rows', ?_, ?_⟩
    · rw [hrows', hrows, List.append_assoc]
    · intro p hp
      rcases List.mem_append.mp hp with hp | hp
      · exact hgenesis p hp
      · exact hgenesis' p hp
  delivered := h'.delivered.trans h.delivered
  headers := h'.headers.trans h.headers

/-- What is read as the progress does not change. -/
theorem scannedTo (h : Rests bitcoinHash genesis s s') :
    s'.scannedTo bitcoinHash genesis = s.scannedTo bitcoinHash genesis := by
  obtain ⟨rows, hrows, hgenesis⟩ := h.progress
  unfold GetData.scannedTo
  rw [hrows, List.head?_append]
  cases s.progress.head? with
  | some p => rfl
  | none =>
    cases hhead : rows.head? with
    | none => rfl
    | some p => rw [hgenesis p (List.mem_of_head? hhead)]; rfl

/-- The progress is the one before, or that of the genesis block. -/
theorem head?_progress (h : Rests bitcoinHash genesis s s') {p : MProgress}
    (hp : s'.progress.head? = some p) :
    s.progress.head? = some p ∨
      s.progress.head? = none ∧ p = genesisProgress bitcoinHash genesis := by
  obtain ⟨rows, hrows, hgenesis⟩ := h.progress
  rw [hrows, List.head?_append] at hp
  cases hhead : s.progress.head? with
  | some p' =>
    rw [hhead] at hp
    exact .inl hp
  | none =>
    rw [hhead] at hp
    exact .inr ⟨rfl, hgenesis p (List.mem_of_head? hp)⟩

theorem isPair_iff (h : Rests bitcoinHash genesis s s') (p : MProgress) :
    s'.IsPair bitcoinHash genesis p ↔ s.IsPair bitcoinHash genesis p := by
  have hmem : ∀ s : GetData, (∃ r ∈ s.chain.blockHeader, r.header = p.header ∧
      r.timestamp = Text.decimal p.timestamp.toNat) ↔
        (p.header, Text.decimal p.timestamp.toNat) ∈
          s.chain.blockHeader.map fun r => (r.header, r.timestamp) := by
    intro s
    simp [List.mem_map]
  unfold GetData.IsPair
  rw [hmem, hmem, h.headers]

end Rests

variable {bitcoinHash genesis}

theorem rests_fetchProgress (fails : GetDataFails) (s : GetData) :
    Rests bitcoinHash genesis s (s.fetchProgress bitcoinHash genesis fails).1 := by
  unfold GetData.fetchProgress
  split
  · exact Rests.refl s
  · split_ifs
    · exact Rests.refl s
    · exact ⟨⟨_, rfl, by simp⟩, rfl, rfl⟩

/-- A scan is counted in a column of its own. -/
theorem headers_fetchScanHeader (db : ChainSqlite) (call : FetchScanHeader) :
    (db.fetchScanHeader call).1.blockHeader.map (fun r => (r.header, r.timestamp)) =
      db.blockHeader.map fun r => (r.header, r.timestamp) := by
  unfold ChainSqlite.fetchScanHeader
  split_ifs
  · rfl
  · show (db.blockHeader.map _).map _ = _
    rw [List.map_map]
    refine List.map_congr_left fun r _ => ?_
    simp only [Function.comp_apply]
    split_ifs <;> rfl
  · rfl

theorem rests_getData (add : Bool) (fails : GetDataFails) (s : GetData) :
    Rests bitcoinHash genesis s (s.getData bitcoinHash genesis add fails) := by
  have h : Rests bitcoinHash genesis s (s.fetchProgress bitcoinHash genesis fails).1 :=
    rests_fetchProgress fails s
  exact ⟨h.progress, h.delivered, (headers_fetchScanHeader _ _).trans h.headers⟩

theorem rests_inv (fails : List GetDataFails) (s : GetData) :
    Rests bitcoinHash genesis s
      (fails.foldl (fun s fails => s.getData bitcoinHash genesis true fails) s) := by
  induction fails generalizing s with
  | nil => exact Rests.refl s
  | cons f fails ih => exact (rests_getData true f s).trans (ih _)

/-- A progress that is a pair and does not change skips nothing. -/
theorem skipsNothing_of_rests {trunk : List Sha256dHash} {s s₁ s' : GetData}
    (hpair : ∀ p, s.progress.head? = some p → s.IsPair bitcoinHash genesis p)
    (hprogress : s₁.progress = s.progress) (hchain : s₁.chain = s.chain)
    (h : Rests bitcoinHash genesis s₁ s') : SkipsNothing bitcoinHash genesis trunk s s' := by
  have hscanned : s'.scannedTo bitcoinHash genesis = s.scannedTo bitcoinHash genesis := by
    rw [h.scannedTo]
    unfold GetData.scannedTo
    rw [hprogress]
  refine ⟨?_, ?_, ?_⟩
  · intro p hp
    rw [h.isPair_iff]
    show p = _ ∨ ∃ r ∈ s₁.chain.blockHeader, _
    rw [hchain]
    rcases h.head?_progress hp with hp | ⟨_, rfl⟩
    · rw [hprogress] at hp
      exact hpair p hp
    · exact .inl rfl
  · intro p p' hp hp' hbefore
    rcases h.head?_progress hp' with hp' | ⟨hnone, _⟩
    · rw [hprogress, hp] at hp'
      cases hp'
      exact hbefore.1 rfl
    · rw [hprogress, hp] at hnone
      cases hnone
  · intro r _ _ hlater
    rwa [hscanned]

/-! ## One message -/

section Step

variable {trunk : List Sha256dHash} {s : GetData}

/-- The progress of a state is one of a block. -/
def GetData.Paired (bitcoinHash : BlockHeader → Sha256dHash) (genesis : BlockHeader)
    (s : GetData) : Prop :=
  ∀ p, s.progress.head? = some p → s.IsPair bitcoinHash genesis p

theorem rests_merkleBlock (serving : Bool) (merkleblock : BlockHeader) (updateFails : Bool)
    (fails : GetDataFails) (s : GetData) :
    Rests bitcoinHash genesis (s.deliver bitcoinHash merkleblock updateFails)
      (s.receive bitcoinHash genesis (.merkleBlock serving merkleblock updateFails fails)) := by
  unfold GetData.receive
  dsimp only
  generalize s.deliver bitcoinHash merkleblock updateFails = s₁
  have h : Rests bitcoinHash genesis s₁ (s₁.getData bitcoinHash genesis true fails) :=
    rests_getData true fails s₁
  split_ifs
  · exact ⟨⟨[], by simp⟩, rfl, rfl⟩
  · exact ⟨h.progress, h.delivered, h.headers⟩
  · exact ⟨⟨[], by simp⟩, rfl, rfl⟩

/-- One hash is before another where it has a smaller position. -/
theorem isBefore_iff {h h' : Sha256dHash} : IsBefore trunk h h' ↔
    h ≠ h' ∧ ∃ i j : Nat, i < j ∧ trunk[i]? = some h ∧ trunk[j]? = some h' := by
  unfold IsBefore
  refine and_congr_right fun _ => ?_
  induction trunk with
  | nil => simp
  | cons x trunk ih =>
    rw [List.cons_sublist_cons', ih, List.singleton_sublist]
    constructor
    · rintro (⟨i, j, hlt, hi, hj⟩ | ⟨rfl, hmem⟩)
      · exact ⟨i + 1, j + 1, by omega, hi, hj⟩
      · obtain ⟨j, hj⟩ := List.mem_iff_getElem?.mp hmem
        exact ⟨0, j + 1, by omega, rfl, hj⟩
    · rintro ⟨i, j, hlt, hi, hj⟩
      obtain ⟨j, rfl⟩ : ∃ k, j = k + 1 := ⟨j - 1, by omega⟩
      cases i with
      | zero => exact .inr ⟨(Option.some.inj hi).symm, List.mem_of_getElem? hj⟩
      | succ i => exact .inl ⟨i, j, by omega, hi, hj⟩

/-- A block follows a progress exactly if overwriting it keeps what is promised. -/
theorem follows_iff {p : MProgress} {merkleblock : BlockHeader} :
    Follows bitcoinHash genesis trunk s p merkleblock ↔
      s.IsPair bitcoinHash genesis ⟨merkleblock.prevBlockhash, merkleblock.time⟩ ∧
      ¬ IsBefore trunk merkleblock.prevBlockhash p.header ∧
      ∀ r ∈ s.chain.blockHeader, r.header ∉ s.delivered → r.header ≠ bitcoinHash merkleblock →
        r.IsLater p.timestamp → r.IsLater merkleblock.time := by
  have hpair : s.IsPair bitcoinHash genesis ⟨merkleblock.prevBlockhash, merkleblock.time⟩ ↔
      (merkleblock.prevBlockhash = bitcoinHash genesis ∧ merkleblock.time = genesis.time) ∨
        ∃ r ∈ s.chain.blockHeader, r.header = merkleblock.prevBlockhash ∧
          r.timestamp = Text.decimal merkleblock.time.toNat := by
    unfold GetData.IsPair genesisProgress
    rw [MProgress.mk.injEq]
  rw [hpair, isBefore_iff]
  constructor
  · rintro ⟨htime, hposition, hbetween⟩
    refine ⟨htime, ?_, fun r hr hnot hne hlater => ?_⟩
    · rintro ⟨hne, i, j, hlt, hi, hj⟩
      exact absurd hlt (Nat.not_lt.mpr (hposition i j hi hj hne))
    · by_contra hearly
      exact hbetween r hr hnot hne ⟨hlater, not_lt.mp hearly⟩
  · rintro ⟨htime, hbefore, heligible⟩
    refine ⟨htime, fun i j hi hj hne => ?_, fun r hr hnot hne hboth => ?_⟩
    · by_contra hlt
      exact hbefore ⟨hne, i, j, by omega, hi, hj⟩
    · exact not_lt.mpr hboth.2 (heligible r hr hnot hne hboth.1)

/-- A block that overwrites a progress skips nothing exactly if it advances it properly. -/
theorem skipsNothing_overwrite_iff {p : MProgress} {rest : List MProgress}
    (hprogress : s.progress = p :: rest) (serving : Bool) (merkleblock : BlockHeader)
    (fails : GetDataFails) :
    SkipsNothing bitcoinHash genesis trunk s
        (s.receive bitcoinHash genesis (.merkleBlock serving merkleblock false fails)) ↔
      AdvancesProperly bitcoinHash genesis trunk s
        (.merkleBlock serving merkleblock false fails) := by
  have hrests : Rests bitcoinHash genesis (s.deliver bitcoinHash merkleblock false)
      (s.receive bitcoinHash genesis (.merkleBlock serving merkleblock false fails)) :=
    rests_merkleBlock serving merkleblock false fails s
  generalize s.receive bitcoinHash genesis (.merkleBlock serving merkleblock false fails) = s'
    at hrests ⊢
  have hhead : s.progress.head? = some p := by rw [hprogress]; rfl
  have hdeliver : (s.deliver bitcoinHash merkleblock false).progress =
      ⟨merkleblock.prevBlockhash, merkleblock.time⟩ :: rest := by
    show updateProgress _ s.progress = _
    rw [hprogress]
    rfl
  -- the row is overwritten with the block that came
  have hhead' : s'.progress.head? = some ⟨merkleblock.prevBlockhash, merkleblock.time⟩ := by
    obtain ⟨rows, hrows, _⟩ := hrests.progress
    rw [hrows, hdeliver]
    rfl
  have hpair : ∀ q, s'.IsPair bitcoinHash genesis q ↔ s.IsPair bitcoinHash genesis q := fun q =>
    hrests.isPair_iff q
  have hscanned : s.scannedTo bitcoinHash genesis = p.timestamp := by
    unfold GetData.scannedTo
    rw [hhead]
    rfl
  have hscanned' : s'.scannedTo bitcoinHash genesis = merkleblock.time := by
    unfold GetData.scannedTo
    rw [hhead']
    rfl
  have hdelivered : ∀ h, h ∉ s'.delivered ↔ h ∉ s.delivered ∧ h ≠ bitcoinHash merkleblock := by
    intro h
    rw [hrests.delivered]
    show h ∉ bitcoinHash merkleblock :: s.delivered ↔ _
    rw [List.mem_cons, not_or, and_comm]
  constructor
  · intro h q hq
    rw [hhead] at hq
    cases hq
    -- the three parts of the condition are those of the invariant, one by one
    refine follows_iff.mpr ⟨(hpair _).mp (h.pair _ hhead'), h.forward p _ hhead hhead', ?_⟩
    intro r hr hnot hne hlater
    have hlater' := h.eligible r hr ((hdelivered _).mpr ⟨hnot, hne⟩) (by rwa [hscanned])
    rwa [hscanned'] at hlater'
  · intro h
    obtain ⟨hispair, hforward, helig⟩ := follows_iff.mp (h p hhead)
    refine ⟨?_, ?_, ?_⟩
    · intro q hq
      rw [hhead'] at hq
      cases hq
      exact (hpair _).mpr hispair
    · intro q q' hq hq'
      rw [hhead] at hq
      rw [hhead'] at hq'
      cases hq
      cases hq'
      exact hforward
    · intro r hr hnot hlater
      rw [hscanned] at hlater
      rw [hscanned']
      exact helig r hr ((hdelivered _).mp hnot).1 ((hdelivered _).mp hnot).2 hlater

/-- A message skips nothing exactly if it advances the progress properly. -/
theorem skipsNothing_iff (hpair : s.Paired bitcoinHash genesis) (message : PeerMessage) :
    SkipsNothing bitcoinHash genesis trunk s (s.receive bitcoinHash genesis message) ↔
      AdvancesProperly bitcoinHash genesis trunk s message := by
  have hrest : ∀ s', Rests bitcoinHash genesis s s' →
      SkipsNothing bitcoinHash genesis trunk s s' := fun s' h =>
    skipsNothing_of_rests hpair rfl rfl h
  cases message with
  | connected serving filterReady fails =>
    refine iff_of_true (hrest _ ?_) trivial
    cases serving <;> cases filterReady
    · exact Rests.refl s
    · exact Rests.refl s
    · exact Rests.refl s
    · exact rests_getData false fails s
  | merkleBlock serving merkleblock updateFails fails =>
    have hrests : Rests bitcoinHash genesis (s.deliver bitcoinHash merkleblock updateFails)
        (s.receive bitcoinHash genesis (.merkleBlock serving merkleblock updateFails fails)) :=
      rests_merkleBlock serving merkleblock updateFails fails s
    cases updateFails with
    | true =>
      have hsame : (s.deliver bitcoinHash merkleblock true).progress = s.progress := rfl
      exact iff_of_true (skipsNothing_of_rests hpair hsame rfl hrests) trivial
    | false =>
      cases hprogress : s.progress with
      | nil =>
        -- without a progress there is nothing to overwrite
        have hsame : (s.deliver bitcoinHash merkleblock false).progress = s.progress := by
          show updateProgress _ s.progress = _
          rw [hprogress]
          rfl
        refine iff_of_true (skipsNothing_of_rests hpair hsame rfl hrests) ?_
        intro p hp
        rw [hprogress] at hp
        cases hp
      | cons p rest => exact skipsNothing_overwrite_iff hprogress serving merkleblock fails
  | ping serving fails =>
    refine iff_of_true (hrest _ ?_) trivial
    cases serving
    · exact Rests.refl s
    · exact rests_getData true fails s
  | inv serving fails =>
    refine iff_of_true (hrest _ ?_) trivial
    cases serving
    · exact Rests.refl s
    · exact rests_inv fails s
  | other => exact iff_of_true (hrest _ (Rests.refl s)) trivial

end Step

/-! ## Runs -/

/-- From a progress that is a pair, a run skips nothing exactly if every message advances the
progress properly. -/
theorem guarded_skipsNothing_iff {trunk : List Sha256dHash} {s : GetData}
    (hpair : s.Paired bitcoinHash genesis) (messages : List PeerMessage) :
    Guarded (GetData.receive bitcoinHash genesis)
        (fun s message => SkipsNothing bitcoinHash genesis trunk s
          (s.receive bitcoinHash genesis message)) s messages ↔
      Guarded (GetData.receive bitcoinHash genesis) (AdvancesProperly bitcoinHash genesis trunk)
        s messages := by
  induction messages generalizing s with
  | nil => exact Iff.rfl
  | cons message messages ih =>
    rw [guarded_cons, guarded_cons, skipsNothing_iff hpair]
    refine and_congr_right fun h => ?_
    -- the next state is a pair again
    have hnext : SkipsNothing bitcoinHash genesis trunk s (s.receive bitcoinHash genesis message) :=
      (skipsNothing_iff hpair message).mpr h
    exact ih hnext.pair

/-- **Scan progress**: in a run from an empty progress the progress is always a pair and never
moves backward, and no header becomes ineligible without being delivered, if and only if every
`merkleblock` advances the progress properly. -/
theorem scanProgress_iff (bitcoinHash : BlockHeader → Sha256dHash) (genesis : BlockHeader)
    (trunk : List Sha256dHash) (chain : ChainSqlite) (messages : List PeerMessage) :
    Guarded (GetData.receive bitcoinHash genesis)
        (fun s message => SkipsNothing bitcoinHash genesis trunk s
          (s.receive bitcoinHash genesis message)) (GetData.new chain) messages ↔
      Guarded (GetData.receive bitcoinHash genesis) (AdvancesProperly bitcoinHash genesis trunk)
        (GetData.new chain) messages :=
  guarded_skipsNothing_iff (by intro p hp; cases hp) messages

/-- The first block after the genesis block makes the progress a pair of no block: the hash is
that of the genesis block, and the timestamp is its own. -/
theorem not_skipsNothing_firstBlock :
    let genesis : BlockHeader := ⟨1, 0, 0, 1231006505, 0, 0⟩
    let first : BlockHeader := ⟨1, 1, 0, 1231469665, 0, 0⟩
    let bitcoinHash : BlockHeader → Sha256dHash := fun h => if h = genesis then 1 else 2
    let chain : ChainSqlite :=
      ⟨[⟨1, 2, 0, "1231469665".toList⟩], List.pairwise_singleton _ _⟩
    ¬ Guarded (GetData.receive bitcoinHash genesis)
      (fun s message => SkipsNothing bitcoinHash genesis [1, 2] s
        (s.receive bitcoinHash genesis message)) (GetData.new chain)
      [.connected true true ⟨false, false, false, false⟩,
        .merkleBlock true first false ⟨false, false, false, false⟩] := by
  intro genesis first bitcoinHash chain h
  have hpair := h.2.1.pair ⟨1, 1231469665⟩ (by decide)
  rcases hpair with hgenesis | ⟨r, hr, hheader, _⟩
  · revert hgenesis
    decide
  · revert r
    decide

end Model

end Cashbox.Btc
