import Cashbox.Lib.Run
import Cashbox.Wallets.Chains
import Cashbox.Wallets.KeyedRows
import Cashbox.Wallets.SaveTxRecord

/-!
# Basic infos of the chain

`update_basic_info` saves a record about a version of the chain, which may be the default one. The
old default is cleared in the transaction, while the row of the version is looked for outside of
it. A row that is found takes over all columns of the record except the metadata.

So a record is saved as it is when its metadata is what is stored for its version already, or when
its version is new and it has no identifier.
-/

namespace Cashbox.Wallets

open Cashbox.Lib

deriving instance DecidableEq for ChainVersion

/-! ## The function -/

/-- The version that a record is about. -/
def MSubChainBasicInfo.version (info : MSubChainBasicInfo) : ChainVersion where
  genesisHash := info.genesisHash
  runtimeVersion := info.runtimeVersion
  txVersion := info.txVersion

def findByVersion (version : ChainVersion) (rows : List (Saved MSubChainBasicInfo)) :
    Outcome WalletError (Option (Saved MSubChainBasicInfo)) :=
  fetchOne .rbatisError (rowsUnder MSubChainBasicInfo.version version rows)

def getDefaultVersion (rows : List (Saved MSubChainBasicInfo)) :
    Option (Saved MSubChainBasicInfo) :=
  (rows.filter fun m => m.row.isDefault = cTrue).head?

/-- What is saved when a row of the version exists. -/
def MSubChainBasicInfo.updatedBy (existed info : MSubChainBasicInfo) : MSubChainBasicInfo :=
  { existed with
    tokenDecimals := info.tokenDecimals
    isDefault := info.isDefault
    tokenSymbol := info.tokenSymbol
    ss58FormatPrefix := info.ss58FormatPrefix }

/-- The row of the version, or a new one. -/
def saveBasicInfo (existed : Option (Saved MSubChainBasicInfo))
    (basicInfo : Saved MSubChainBasicInfo) : Saved MSubChainBasicInfo :=
  match existed with
  | some m => ⟨m.shared, m.row.updatedBy basicInfo.row⟩
  | none => basicInfo

section Function

variable (env : Surroundings)

/-- The default in the table is cleared in the transaction, if the record is to be the default. -/
def clearDefault (info : MSubChainBasicInfo) (tx : List (Saved MSubChainBasicInfo)) :
    Method (Session DataDb) WalletError (List (Saved MSubChainBasicInfo)) :=
  if info.isDefault = cTrue then do
    let current ← query env.fails .rbatisError fun db : DataDb =>
      .ok (getDefaultVersion db.subChainBasicInfo)
    match current with
    | some m => statement env (fun n => putRow env n ⟨m.shared, { m.row with isDefault := 0 }⟩) tx
    | none => pure tx
  else pure tx

def updateBasicInfo (basicInfo : Saved MSubChainBasicInfo) :
    Method (Session DataDb) WalletError Unit := do
  let tx ← beginTx env.fails .rbatisError fun db : DataDb => db.subChainBasicInfo
  let tx ← clearDefault env basicInfo.row tx
  let existed ← query env.fails .rbatisError fun db : DataDb =>
    findByVersion basicInfo.row.version db.subChainBasicInfo
  let tx ← statement env (fun n => putRow env n (saveBasicInfo existed basicInfo)) tx
  commitTx env.fails .rbatisError (fun db tx => { db with subChainBasicInfo := tx }) tx

end Function

/-! ## Runs -/

/-- The database, and the records of the calls that returned `Ok`. -/
structure InfoRun where
  session : Session DataDb
  saved : List MSubChainBasicInfo

/-- A record without whether it is the default. -/
def MSubChainBasicInfo.unmarked (info : MSubChainBasicInfo) : MSubChainBasicInfo :=
  { info with isDefault := 0 }

/-- The last record for a version. -/
def lastSaved (saved : List MSubChainBasicInfo) (version : ChainVersion) :
    Option MSubChainBasicInfo :=
  (saved.filter fun info => info.version = version).getLast?

/-- A record that is saved as the default is the default until the next one is, or until its
version is saved again without being it. -/
def lastDefault (saved : List MSubChainBasicInfo) : Option MSubChainBasicInfo :=
  saved.foldl (fun current info =>
    if info.isDefault = cTrue then some info
    else current.filter fun c => c.version ≠ info.version) none

namespace InfoRun

/-- A database whose table of basic infos is empty. -/
def start (db : DataDb) : InfoRun := ⟨⟨{ db with subChainBasicInfo := [] }, 0⟩, []⟩

def table (s : InfoRun) : List (Saved MSubChainBasicInfo) := s.session.store.subChainBasicInfo

def step (env : Surroundings) (s : InfoRun) (basicInfo : Saved MSubChainBasicInfo) : InfoRun :=
  let (session, result) := (updateBasicInfo env basicInfo).run s.session
  { session := session
    saved := if result.isOk then s.saved ++ [basicInfo.row] else s.saved }

end InfoRun

/-- How many operations clear the default. -/
def clearing (info : MSubChainBasicInfo) (rows : List (Saved MSubChainBasicInfo)) : Nat :=
  if info.isDefault = cTrue then
    match getDefaultVersion rows with
    | some _ => 2
    | none => 1
  else 0

/-- How many operations a call takes: it begins, clears the default, looks for the version, saves
and commits. -/
def operations (info : MSubChainBasicInfo) (rows : List (Saved MSubChainBasicInfo)) : Nat :=
  clearing info rows + 4

/-- A call that saves its record as it is, or that is cut short. -/
def SavesAll (env : Surroundings) (s : InfoRun) (basicInfo : Saved MSubChainBasicInfo) : Prop :=
  (∃ i < operations basicInfo.row s.table, env.fails (s.session.calls + i) = true) ∨
    (∀ m ∈ s.table, m.row.version = basicInfo.row.version →
        m.row.metadata = basicInfo.row.metadata) ∧
      ((∀ m ∈ s.table, m.row.version ≠ basicInfo.row.version) → basicInfo.shared.id = [])

instance (env : Surroundings) (s : InfoRun) (basicInfo : Saved MSubChainBasicInfo) :
    Decidable (SavesAll env s basicInfo) :=
  inferInstanceAs (Decidable ((∃ i < operations basicInfo.row s.table, _ = true) ∨ _ ∧ _))

/-- What is promised of the basic infos after a run. -/
structure BasicInfosKept (env : Surroundings) (s : InfoRun) : Prop where
  /-- At most one row is the default. -/
  oneDefault : (s.table.filter fun m => m.row.isDefault = cTrue).length ≤ 1
  /-- A version has at most one row. -/
  oneEach : (s.table.map fun m => m.row.version).Nodup
  /-- Under a version there is the last record for it. -/
  found : ∀ version, ∃ found, findByVersion version s.table = .ok found ∧
    found.map (fun m => m.row.unmarked) = (lastSaved s.saved version).map .unmarked
  /-- It is returned unless the database fails. -/
  getVersion : ∀ env' version, env'.fails s.session.calls = false → version ≠ ⟨[], 0, 0⟩ →
    (((getBasicInfo env' version).run s.session).2 >>= fun m => .ok m.row.unmarked) =
      Outcome.okOr .notExist ((lastSaved s.saved version).map .unmarked)
  /-- The empty version stands for the last default, if no call has cleared it. -/
  getDefault : ∀ env', env'.fails s.session.calls = false →
    (((getBasicInfo env' ⟨[], 0, 0⟩).run s.session).2 >>= fun m => .ok m.row) =
      Outcome.okOr .notExist (lastDefault s.saved)
  /-- A call that fails leaves the database as it is. -/
  errors : ∀ basicInfo, ((updateBasicInfo env basicInfo).run s.session).2.isOk = false →
    ((updateBasicInfo env basicInfo).run s.session).1.store = s.session.store

/-! ## Records that were saved -/

section Saved

variable {saved : List MSubChainBasicInfo} {info : MSubChainBasicInfo} {version : ChainVersion}

theorem lastSaved_concat : lastSaved (saved ++ [info]) version =
    if info.version = version then some info else lastSaved saved version := by
  unfold lastSaved
  rw [List.filter_append]
  split_ifs with hversion
  · simp [hversion]
  · simp [hversion]

theorem version_of_lastSaved (h : lastSaved saved version = some info) :
    info.version = version := by
  have hmem := List.mem_of_getLast? h
  exact of_decide_eq_true (List.mem_filter.mp hmem).2

theorem lastDefault_concat : lastDefault (saved ++ [info]) =
    if info.isDefault = cTrue then some info
    else (lastDefault saved).filter fun c => c.version ≠ info.version := by
  unfold lastDefault
  rw [List.foldl_append]
  rfl

theorem version_unmarked : info.unmarked.version = info.version := rfl

end Saved

/-! ## Clearing the default -/

/-- What clearing makes of a row when a record is saved. -/
def MSubChainBasicInfo.clearedFor (info row : MSubChainBasicInfo) : MSubChainBasicInfo :=
  if info.isDefault = cTrue ∧ row.isDefault = cTrue then row.unmarked else row

/-- The rows keep their identifiers, and no default is left beside a new one. -/
def Cleared (info : MSubChainBasicInfo) (rows rows' : List (Saved MSubChainBasicInfo)) : Prop :=
  rows'.map (fun m => (m.shared.id, m.row)) =
    rows.map fun m => (m.shared.id, info.clearedFor m.row)

/-- At most one row is the default. -/
def OneDefault (rows : List (Saved MSubChainBasicInfo)) : Prop :=
  ∀ m ∈ rows, ∀ m' ∈ rows, m.row.isDefault = cTrue → m'.row.isDefault = cTrue → m = m'

section Clear

variable {env : Surroundings} {info : MSubChainBasicInfo}
  {rows rows' : List (Saved MSubChainBasicInfo)} {m : Saved MSubChainBasicInfo}

theorem version_clearedFor : (info.clearedFor m.row).version = m.row.version := by
  unfold MSubChainBasicInfo.clearedFor
  split_ifs <;> rfl

theorem unmarked_clearedFor : (info.clearedFor m.row).unmarked = m.row.unmarked := by
  unfold MSubChainBasicInfo.clearedFor
  split_ifs <;> rfl

namespace Cleared

theorem of_forall (h : ∀ m ∈ rows, info.clearedFor m.row = m.row) : Cleared info rows rows :=
  List.map_congr_left fun m hm => by rw [h m hm]

theorem ids (h : Cleared info rows rows') :
    (rows'.map fun m => m.shared.id) = rows.map fun m => m.shared.id := by
  have hids := congrArg (List.map Prod.fst) h
  rw [List.map_map, List.map_map] at hids
  exact hids

theorem versions (h : Cleared info rows rows') :
    (rows'.map fun m => m.row.version) = rows.map fun m => m.row.version := by
  have hversions := congrArg (List.map fun p => p.2.version) h
  rw [List.map_map, List.map_map] at hversions
  refine hversions.trans (List.map_congr_left fun m _ => ?_)
  exact version_clearedFor

theorem exists_before (h : Cleared info rows rows') (hm : m ∈ rows') :
    ∃ r ∈ rows, m.shared.id = r.shared.id ∧ m.row = info.clearedFor r.row := by
  have hmem : (m.shared.id, m.row) ∈ rows.map fun r => (r.shared.id, info.clearedFor r.row) :=
    h ▸ List.mem_map_of_mem hm
  obtain ⟨r, hr, heq⟩ := List.mem_map.mp hmem
  exact ⟨r, hr, congrArg Prod.fst heq.symm, congrArg Prod.snd heq.symm⟩

theorem exists_after (h : Cleared info rows rows') (hm : m ∈ rows) :
    ∃ r ∈ rows', r.shared.id = m.shared.id ∧ r.row = info.clearedFor m.row := by
  have hmem : (m.shared.id, info.clearedFor m.row) ∈ rows'.map fun r => (r.shared.id, r.row) :=
    h.symm ▸ List.mem_map_of_mem (f := fun m => (m.shared.id, info.clearedFor m.row)) hm
  obtain ⟨r, hr, heq⟩ := List.mem_map.mp hmem
  exact ⟨r, hr, congrArg Prod.fst heq, congrArg Prod.snd heq⟩

theorem kept (h : Cleared info rows rows') (hkept : Kept MSubChainBasicInfo.version rows) :
    Kept MSubChainBasicInfo.version rows' :=
  hkept.of_map_eq h.ids h.versions

end Cleared

theorem getDefaultVersion_eq_some (h : getDefaultVersion rows = some m) :
    m ∈ rows ∧ m.row.isDefault = cTrue := by
  have hmem := List.mem_filter.mp (List.mem_of_head? h)
  exact ⟨hmem.1, of_decide_eq_true hmem.2⟩

theorem getDefaultVersion_eq_none (h : getDefaultVersion rows = none) (hm : m ∈ rows) :
    m.row.isDefault ≠ cTrue := by
  intro hdefault
  have hnil := List.head?_eq_none_iff.mp h
  exact List.filter_eq_nil_iff.mp hnil m hm (decide_eq_true hdefault)

/-- The default is the only row that an update by its identifier changes. -/
theorem cleared_updateById (hkept : Kept MSubChainBasicInfo.version rows)
    (hone : OneDefault rows) (hinfo : info.isDefault = cTrue) (hm : m ∈ rows)
    (hdefault : m.row.isDefault = cTrue) {shared : Shared} (hid : shared.id = m.shared.id) :
    Cleared info rows (updateById ⟨shared, { m.row with isDefault := 0 }⟩ rows) := by
  unfold Cleared updateById
  rw [List.map_map]
  apply List.map_congr_left
  intro r hr
  by_cases heq : r.shared.id = shared.id
  · obtain rfl : r = m := List.inj_on_of_nodup_map hkept.ids hr hm (heq.trans hid)
    simp [hid, MSubChainBasicInfo.clearedFor, hinfo, hdefault, MSubChainBasicInfo.unmarked]
  · have hnot : r.row.isDefault ≠ cTrue := by
      intro hr'
      rw [hone r hr m hm hr' hdefault, hid] at heq
      exact heq rfl
    simp [heq, MSubChainBasicInfo.clearedFor, hnot]

/-- **Clearing** leaves the database as it is, and the default in the transaction is cleared. -/
theorem performs_clearDefault {s : Session DataDb} (h : rows = s.store.subChainBasicInfo)
    (hkept : Kept MSubChainBasicInfo.version rows) (hone : OneDefault rows) :
    ∃ rows', Cleared info rows rows' ∧ Performs env.fails (clearDefault env info rows) s
      (List.replicate (clearing info rows) s.store) (.ok rows') := by
  unfold clearDefault clearing
  by_cases hinfo : info.isDefault = cTrue
  · rw [if_pos hinfo, if_pos hinfo]
    have hquery : Performs env.fails (query env.fails WalletError.rbatisError fun db : DataDb =>
        .ok (getDefaultVersion db.subChainBasicInfo)) s [s.store] (.ok (getDefaultVersion rows)) :=
      Performs.query_of_eq (by rw [h])
    cases hdefault : getDefaultVersion rows with
    | some m =>
      obtain ⟨hm, hmark⟩ := getDefaultVersion_eq_some hdefault
      rw [hdefault] at hquery
      have hid : (beforeUpdate env (s.calls + 1) m.shared).id = m.shared.id := rfl
      refine ⟨_, cleared_updateById hkept hone hinfo hm hmark hid, ?_⟩
      have hput : putRow env (s.calls + 1) ⟨m.shared, { m.row with isDefault := 0 }⟩ rows =
          .ok (updateById ⟨beforeUpdate env (s.calls + 1) m.shared,
            { m.row with isDefault := 0 }⟩ rows) := if_neg (hkept.named m hm)
      exact hquery.bind (performs_statement hput)
    | none =>
      rw [hdefault] at hquery
      refine ⟨rows, .of_forall fun m hm => ?_, ?_⟩
      · have hnot := getDefaultVersion_eq_none hdefault hm
        exact if_neg fun hboth => hnot hboth.2
      · exact hquery.bind (Performs.pure _ _)
  · rw [if_neg hinfo, if_neg hinfo]
    exact ⟨rows, .of_forall fun m _ => if_neg fun hboth => hinfo hboth.1, Performs.pure _ _⟩

end Clear

/-! ## Saving a record -/

/-- The table is kept, it has the last records, and its identifiers were drawn before. -/
structure InfoRun.Holds (env : Surroundings) (s : InfoRun) : Prop where
  kept : Kept MSubChainBasicInfo.version s.table
  drawn : ∀ m ∈ s.table, ∃ n < s.session.calls, m.shared.id = env.uuid n 0
  stored : ∀ info : MSubChainBasicInfo, (∃ m ∈ s.table, m.row.unmarked = info) ↔
    (lastSaved s.saved info.version).map .unmarked = some info
  default : ∀ info : MSubChainBasicInfo,
    (∃ m ∈ s.table, m.row = info ∧ info.isDefault = cTrue) ↔ lastDefault s.saved = some info

section Save

variable {env : Surroundings} {s : InfoRun} {basicInfo : Saved MSubChainBasicInfo}
  {rows rows' rows'' : List (Saved MSubChainBasicInfo)} {n : Nat}

/-- A row takes over the record but for the metadata. -/
theorem updatedBy_eq {existed info : MSubChainBasicInfo}
    (hversion : existed.version = info.version) :
    existed.updatedBy info = { info with metadata := existed.metadata } := by
  injection hversion with hgenesis hruntime htx
  unfold MSubChainBasicInfo.updatedBy
  rw [hgenesis, hruntime, htx]

theorem findByVersion_cases (hkept : Kept MSubChainBasicInfo.version rows)
    (version : ChainVersion) :
    (∃ m ∈ rows, m.row.version = version ∧ findByVersion version rows = .ok (some m)) ∨
      (∀ m ∈ rows, m.row.version ≠ version) ∧ findByVersion version rows = .ok none := by
  unfold findByVersion
  by_cases hany : ∃ m ∈ rows, m.row.version = version
  · obtain ⟨m, hm, rfl⟩ := hany
    refine .inl ⟨m, hm, rfl, ?_⟩
    rw [hkept.rowsUnder_eq hm]
    rfl
  · have hnone : rowsUnder MSubChainBasicInfo.version version rows = [] := by
      apply List.filter_eq_nil_iff.mpr
      intro m hm hversion
      exact hany ⟨m, hm, of_decide_eq_true hversion⟩
    refine .inr ⟨fun m hm hversion => hany ⟨m, hm, hversion⟩, ?_⟩
    rw [hnone]
    rfl

/-- What saving does with a table: a row of the version is updated, a new row is inserted, or the
rows under the identifier of the record are overwritten. -/
def Put (env : Surroundings) (n : Nat) (basicInfo : Saved MSubChainBasicInfo)
    (rows rows' rows'' : List (Saved MSubChainBasicInfo)) : Prop :=
  (∃ m ∈ rows, m.row.version = basicInfo.row.version ∧ ∃ put : Saved MSubChainBasicInfo,
    put.shared.id = m.shared.id ∧ put.row = { basicInfo.row with metadata := m.row.metadata } ∧
      Puts MSubChainBasicInfo.version rows' put rows'') ∨
  (∀ m ∈ rows, m.row.version ≠ basicInfo.row.version) ∧
    (basicInfo.shared.id = [] ∧ (∃ put : Saved MSubChainBasicInfo,
        put.shared.id = env.uuid n 0 ∧ put.row = basicInfo.row ∧
          Puts MSubChainBasicInfo.version rows' put rows'') ∨
      basicInfo.shared.id ≠ [] ∧ ∃ put : Saved MSubChainBasicInfo,
        put.shared.id = basicInfo.shared.id ∧ put.row = basicInfo.row ∧
          rows'' = updateById put rows')

/-- Identifiers are drawn once, so saving does not fail by itself. -/
theorem exists_putRow (hkept : Kept MSubChainBasicInfo.version rows) (henv : env.DrawsOnce)
    (hfresh : ∀ m ∈ rows, m.shared.id ≠ env.uuid n 0)
    (hcleared : Cleared basicInfo.row rows rows') :
    ∃ existed rows'', findByVersion basicInfo.row.version rows = .ok existed ∧
      putRow env n (saveBasicInfo existed basicInfo) rows' = .ok rows'' ∧
      Put env n basicInfo rows rows' rows'' := by
  have hkept' := hcleared.kept hkept
  rcases findByVersion_cases hkept basicInfo.row.version with
    ⟨m, hm, hversion, hfind⟩ | ⟨hnone, hfind⟩
  · -- the row that was found is still there under its identifier
    obtain ⟨r, hr, hid, hrow⟩ := hcleared.exists_after hm
    have hkey : (m.row.updatedBy basicInfo.row).version = r.row.version := by
      rw [hrow, version_clearedFor]
      rfl
    have hputs : Puts MSubChainBasicInfo.version rows'
        ⟨beforeUpdate env n m.shared, m.row.updatedBy basicInfo.row⟩ _ :=
      hkept'.update hr hid.symm hkey
    exact ⟨_, _, hfind, if_neg (hkept.named m hm),
      .inl ⟨m, hm, hversion, ⟨beforeUpdate env n m.shared, m.row.updatedBy basicInfo.row⟩, rfl,
        updatedBy_eq hversion, hputs⟩⟩
  · by_cases hempty : basicInfo.shared.id = []
    · -- a new row has an identifier that was not drawn before
      have hput : putRow env n basicInfo rows' =
          .ok (rows' ++ [⟨beforeSave env n 0 basicInfo.shared, basicInfo.row⟩]) := by
        unfold putRow insertRow beforeSave
        rw [if_pos hempty, if_pos hempty]
        apply if_neg
        rw [hcleared.ids]
        intro hmem
        obtain ⟨m, hm, hid⟩ := List.mem_map.mp hmem
        exact hfresh m hm hid
      have hid : (beforeSave env n 0 basicInfo.shared).id = env.uuid n 0 := by
        unfold beforeSave
        rw [if_pos hempty]
      refine ⟨none, _, hfind, hput, .inr ⟨hnone, .inl ⟨hempty,
        ⟨beforeSave env n 0 basicInfo.shared, basicInfo.row⟩, hid, rfl, ?_⟩⟩⟩
      apply hkept'.insert
      · rw [hcleared.ids, hid]
        intro hmem
        obtain ⟨m, hm, heq⟩ := List.mem_map.mp hmem
        exact hfresh m hm heq
      · rw [hid]
        exact henv.ne_nil n 0
      · apply List.filter_eq_nil_iff.mpr
        intro r hr hversion
        obtain ⟨m, hm, -, hrow⟩ := hcleared.exists_before hr
        have hr : r.row.version = basicInfo.row.version := of_decide_eq_true hversion
        rw [hrow, version_clearedFor] at hr
        exact hnone m hm hr
    · -- a record that brings an identifier is updated by it, and not added
      exact ⟨none, _, hfind, if_neg hempty, .inr ⟨hnone, .inr ⟨hempty,
        ⟨beforeUpdate env n basicInfo.shared, basicInfo.row⟩, rfl, rfl, rfl⟩⟩⟩

namespace InfoRun.Holds

theorem oneDefault (h : s.Holds env) : OneDefault s.table := by
  intro m hm m' hm' hdefault hdefault'
  have hlast := (h.default _).mp ⟨m, hm, rfl, hdefault⟩
  have hlast' := (h.default _).mp ⟨m', hm', rfl, hdefault'⟩
  have hrow : m.row = m'.row := Option.some.inj (hlast.symm.trans hlast')
  exact List.inj_on_of_nodup_map h.kept.keys hm hm' (congrArg _ hrow)

/-- **One call** is cut short and leaves the table, or it saves its record. -/
theorem step_cases (h : s.Holds env) (henv : env.DrawsOnce) (basicInfo : Saved MSubChainBasicInfo) :
    ((∃ i < operations basicInfo.row s.table, env.fails (s.session.calls + i) = true) ∧
        ((updateBasicInfo env basicInfo).run s.session).2.isOk = false ∧
        ((updateBasicInfo env basicInfo).run s.session).1.store = s.session.store ∧
        s.session.calls ≤ ((updateBasicInfo env basicInfo).run s.session).1.calls) ∨
      (¬ ∃ i < operations basicInfo.row s.table, env.fails (s.session.calls + i) = true) ∧
        ∃ n ≥ s.session.calls, ∃ rows' rows'', Cleared basicInfo.row s.table rows' ∧
          Put env n basicInfo s.table rows' rows'' ∧
          (updateBasicInfo env basicInfo).run s.session =
            (⟨{ s.session.store with subChainBasicInfo := rows'' }, n + 2⟩, .ok ()) := by
  rcases hs : s.session with ⟨store, calls⟩
  have htable : store.subChainBasicInfo = s.table := by
    unfold InfoRun.table
    rw [hs]
  unfold operations
  generalize hk : clearing basicInfo.row s.table = k
  have hcalls : s.session.calls = calls := by rw [hs]
  obtain ⟨rows', hcleared, hclear⟩ := @performs_clearDefault env basicInfo.row s.table
    ⟨store, calls + 1⟩ htable.symm h.kept h.oneDefault
  rw [hk] at hclear
  have hfresh : ∀ m ∈ s.table, m.shared.id ≠ env.uuid (calls + 1 + k + 1) 0 := by
    intro m hm hid
    obtain ⟨n, hn, heq⟩ := h.drawn m hm
    have hsame := henv.injective _ _ (heq.symm.trans hid)
    omega
  obtain ⟨existed, rows'', hfind, hput, hsaves⟩ := exists_putRow h.kept henv hfresh hcleared
  have hbegin : Performs env.fails (beginTx env.fails WalletError.rbatisError fun db : DataDb =>
      db.subChainBasicInfo) ⟨store, calls⟩ (List.replicate 1 store) (.ok s.table) := by
    rw [← htable]
    exact Performs.beginTx ..
  have hquery : Performs env.fails (query env.fails WalletError.rbatisError fun db : DataDb =>
      findByVersion basicInfo.row.version db.subChainBasicInfo) ⟨store, calls + 1 + k⟩
        (List.replicate 1 store) (.ok existed) := Performs.query_of_eq (htable ▸ hfind)
  have hsave : Performs env.fails (statement env
      (fun n => putRow env n (saveBasicInfo existed basicInfo)) rows')
        ⟨store, calls + 1 + k + 1⟩ (List.replicate 1 store) (.ok rows'') := performs_statement hput
  have hcommit : Performs env.fails (commitTx env.fails WalletError.rbatisError
      (fun (db : DataDb) tx => { db with subChainBasicInfo := tx }) rows'')
        ⟨store, calls + 1 + k + 1 + 1⟩ [{ store with subChainBasicInfo := rows'' }] (.ok ()) :=
    Performs.commitTx ..
  -- the table is read and written in the transaction until it is committed
  have hperforms : Performs env.fails (updateBasicInfo env basicInfo) ⟨store, calls⟩ _ (.ok ()) :=
    hbegin.replicate_bind (hclear.replicate_bind (hquery.replicate_bind
      (hsave.replicate_bind hcommit)))
  have hpath : List.replicate 1 store ++ (List.replicate k store ++ (List.replicate 1 store ++
      (List.replicate 1 store ++ [{ store with subChainBasicInfo := rows'' }]))) =
        List.replicate (k + 3) store ++ [{ store with subChainBasicInfo := rows'' }] := by
    rw [← List.append_assoc (List.replicate 1 store) (List.replicate 1 store),
      List.replicate_append_replicate, ← List.append_assoc (List.replicate k store),
      List.replicate_append_replicate, ← List.append_assoc, List.replicate_append_replicate]
    congr 2
    omega
  rw [hpath] at hperforms
  rcases hperforms.of_replicate_write with hcut | ⟨hnone, hrun⟩
  · exact .inl hcut
  · have hle : calls ≤ calls + 1 + k + 1 := by omega
    refine .inr ⟨hnone, calls + 1 + k + 1, hle, rows', rows'', hcleared, hsaves, ?_⟩
    rw [hrun, show calls + (k + 3 + 1) = calls + 1 + k + 1 + 2 by omega]

theorem of_store {s' : InfoRun} (h : s.Holds env) (hstore : s'.session.store = s.session.store)
    (hcalls : s.session.calls ≤ s'.session.calls) (hsaved : s'.saved = s.saved) :
    s'.Holds env := by
  have htable : s'.table = s.table := congrArg DataDb.subChainBasicInfo hstore
  constructor
  · rw [htable]
    exact h.kept
  · intro m hm
    obtain ⟨n, hn, hid⟩ := h.drawn m (htable ▸ hm)
    exact ⟨n, Nat.lt_of_lt_of_le hn hcalls, hid⟩
  · rw [htable, hsaved]
    exact h.stored
  · rw [htable, hsaved]
    exact h.default

/-- The record is put into the table as it is. -/
theorem of_puts {s' : InfoRun} {info : MSubChainBasicInfo} {put : Saved MSubChainBasicInfo}
    (h : s.Holds env) (hcleared : Cleared info s.table rows')
    (hputs : Puts MSubChainBasicInfo.version rows' put s'.table) (hrow : put.row = info)
    (hid : ∃ n < s'.session.calls, put.shared.id = env.uuid n 0)
    (hcalls : s.session.calls ≤ s'.session.calls) (hsaved : s'.saved = s.saved ++ [info]) :
    s'.Holds env := by
  subst hrow
  constructor
  · exact hputs.kept
  · intro m hm
    rcases hputs.mem.mp hm with rfl | ⟨hm, -⟩
    · exact hid
    · obtain ⟨r, hr, hsame, -⟩ := hcleared.exists_before hm
      -- what remains of a row has the id that it had
      obtain ⟨n, hn, hdrawn⟩ := h.drawn r hr
      exact ⟨n, Nat.lt_of_lt_of_le hn hcalls, hsame.trans hdrawn⟩
  · intro info
    rw [hsaved, lastSaved_concat]
    by_cases hversion : put.row.version = info.version
    · -- under the version of the record there is only its row
      rw [if_pos hversion, Option.map_some, Option.some_inj]
      constructor
      · rintro ⟨m, hm, rfl⟩
        rcases hputs.mem.mp hm with rfl | ⟨-, hne⟩
        · rfl
        · exact absurd hversion.symm hne
      · intro heq
        exact ⟨put, hputs.mem.mpr (.inl rfl), heq⟩
    · rw [if_neg hversion, ← h.stored]
      constructor
      · rintro ⟨m, hm, rfl⟩
        rcases hputs.mem.mp hm with rfl | ⟨hm, -⟩
        · exact absurd rfl hversion
        · obtain ⟨r, hr, -, hrow⟩ := hcleared.exists_before hm
          exact ⟨r, hr, by rw [hrow, unmarked_clearedFor]⟩
      · rintro ⟨r, hr, rfl⟩
        obtain ⟨m, hm, -, hrow⟩ := hcleared.exists_after hr
        -- rows of other versions keep what they are, but for their mark
        refine ⟨m, hputs.mem.mpr (.inr ⟨hm, ?_⟩), by rw [hrow, unmarked_clearedFor]⟩
        rw [hrow, version_clearedFor]
        exact fun heq => hversion heq.symm
  · intro info
    rw [hsaved, lastDefault_concat]
    by_cases hdefault : put.row.isDefault = cTrue
    · -- the other rows are cleared
      rw [if_pos hdefault, Option.some_inj]
      constructor
      · rintro ⟨m, hm, rfl, hmark⟩
        rcases hputs.mem.mp hm with rfl | ⟨hm, -⟩
        · rfl
        · obtain ⟨r, hr, -, hrow⟩ := hcleared.exists_before hm
          unfold MSubChainBasicInfo.clearedFor at hrow
          rw [hrow] at hmark
          split_ifs at hmark with hboth
          · cases hmark
          · exact absurd ⟨hdefault, hmark⟩ hboth
      · rintro rfl
        exact ⟨put, hputs.mem.mpr (.inl rfl), rfl, hdefault⟩
    · have hsame : ∀ row : MSubChainBasicInfo, put.row.clearedFor row = row := fun row =>
        if_neg fun hboth => hdefault hboth.1
      rw [if_neg hdefault, Option.filter_eq_some_iff, ← h.default]
      constructor
      · rintro ⟨m, hm, rfl, hmark⟩
        rcases hputs.mem.mp hm with rfl | ⟨hm, hne⟩
        · exact absurd hmark hdefault
        · obtain ⟨r, hr, -, hrow⟩ := hcleared.exists_before hm
          rw [hsame] at hrow
          exact ⟨⟨r, hr, hrow.symm, hmark⟩, decide_eq_true hne⟩
      · rintro ⟨⟨r, hr, rfl, hmark⟩, hne⟩
        obtain ⟨m, hm, -, hrow⟩ := hcleared.exists_after hr
        rw [hsame] at hrow
        refine ⟨m, hputs.mem.mpr (.inr ⟨hm, ?_⟩), hrow, hmark⟩
        rw [hrow]
        exact of_decide_eq_true hne

/-- **One step** that meets the condition keeps the invariant. -/
theorem step (h : s.Holds env) (henv : env.DrawsOnce) (hsaves : SavesAll env s basicInfo) :
    (s.step env basicInfo).Holds env := by
  rcases h.step_cases henv basicInfo with
    ⟨_, hfails, hstore, hcalls⟩ | ⟨hnone, n, hn, rows', rows'', hcleared, hput, hrun⟩
  · apply h.of_store
    · exact hstore
    · exact hcalls
    · unfold InfoRun.step
      dsimp only
      rw [hfails]
      rfl
  · obtain ⟨hmetadata, hnew⟩ := hsaves.resolve_left hnone
    have hstep : s.step env basicInfo =
        ⟨⟨{ s.session.store with subChainBasicInfo := rows'' }, n + 2⟩,
          s.saved ++ [basicInfo.row]⟩ := by
      unfold InfoRun.step
      rw [hrun]
      rfl
    have hcalls : s.session.calls ≤ n + 2 := Nat.le_add_right_of_le hn
    rw [hstep]
    rcases hput with ⟨m, hm, hversion, put, hid, hrow, hputs⟩ |
      ⟨hunknown, ⟨-, put, hid, hrow, hputs⟩ | ⟨hnamed, -⟩⟩
    · -- the metadata is what is stored already
      rw [hmetadata m hm hversion] at hrow
      obtain ⟨n', hn', hdrawn⟩ := h.drawn m hm
      exact h.of_puts hcleared hputs hrow ⟨n', Nat.lt_of_lt_of_le hn' hcalls, hid.trans hdrawn⟩
        hcalls rfl
    · exact h.of_puts hcleared hputs hrow ⟨n, Nat.lt_add_of_pos_right Nat.zero_lt_two, hid⟩
        hcalls rfl
    · exact absurd (hnew hunknown) hnamed

end InfoRun.Holds

end Save

/-! ## What is promised -/

section Promise

variable {env : Surroundings} {s : InfoRun}

theorem findBasicInfo_empty (db : DataDb) :
    findBasicInfo ⟨[], 0, 0⟩ db = .ok (getDefaultVersion db.subChainBasicInfo) := rfl

theorem findBasicInfo_of_ne {version : ChainVersion} (h : version ≠ ⟨[], 0, 0⟩) (db : DataDb) :
    findBasicInfo version db = findByVersion version db.subChainBasicInfo := by
  have hnot : ¬ (version.genesisHash = [] ∧ version.runtimeVersion = 0 ∧
      version.txVersion = 0) := by
    rintro ⟨hgenesis, hruntime, htx⟩
    cases version
    simp_all
  have hkey : ∀ m : Saved MSubChainBasicInfo, m.row.version = version ↔
      m.row.genesisHash = version.genesisHash ∧ m.row.runtimeVersion = version.runtimeVersion ∧
        m.row.txVersion = version.txVersion := by
    intro m
    cases version
    simp [MSubChainBasicInfo.version]
  unfold findBasicInfo findByVersion rowsUnder
  rw [if_neg hnot]
  simp only [hkey]

theorem run_getBasicInfo {session : Session DataDb} (version : ChainVersion)
    (h : env.fails session.calls = false) :
    ((getBasicInfo env version).run session).2 =
      (findBasicInfo version session.store >>= Outcome.okOr .notExist) := by
  have hquery : (query env.fails WalletError.rbatisError (findBasicInfo version)).run session =
      (⟨session.store, session.calls + 1⟩, findBasicInfo version session.store) :=
    run_query_of_not_fails h
  unfold getBasicInfo
  cases hfind : findBasicInfo version session.store with
  | ok found => rw [Method.run_bind_of_ok (hquery.trans (by rw [hfind]))]; rfl
  | err e => rw [Method.run_bind_of_err (hquery.trans (by rw [hfind]))]; rfl
  | panic why => rw [Method.run_bind_of_panic (hquery.trans (by rw [hfind]))]; rfl

/-- The last record for a version is in the table. -/
theorem BasicInfosKept.exists_of_lastSaved (h : BasicInfosKept env s) {version : ChainVersion}
    {info : MSubChainBasicInfo} (hlast : lastSaved s.saved version = some info) :
    ∃ m ∈ s.table, m.row.version = version ∧ m.row.unmarked = info.unmarked := by
  obtain ⟨found, hfind, hfound⟩ := h.found version
  rw [hlast, Option.map_some] at hfound
  obtain ⟨m, rfl, hmark⟩ := Option.map_eq_some_iff.mp hfound
  have hunder := rowsUnder_of_fetchOne hfind
  have hm : m ∈ rowsUnder MSubChainBasicInfo.version version s.table := by simp [hunder]
  obtain ⟨hm, hversion⟩ := mem_rowsUnder.mp hm
  exact ⟨m, hm, hversion, hmark⟩

namespace InfoRun.Holds

/-- What is found under a version is the last record for it. -/
theorem found (h : s.Holds env) (version : ChainVersion) :
    ∃ found, findByVersion version s.table = .ok found ∧
      found.map (fun m => m.row.unmarked) = (lastSaved s.saved version).map .unmarked := by
  rcases findByVersion_cases h.kept version with ⟨m, hm, rfl, hfind⟩ | ⟨hnone, hfind⟩
  · exact ⟨_, hfind, ((h.stored m.row.unmarked).mp ⟨m, hm, rfl⟩).symm⟩
  · refine ⟨_, hfind, ?_⟩
    cases hlast : lastSaved s.saved version with
    | none => rfl
    | some info =>
      have hversion := version_of_lastSaved hlast
      have hstored := (h.stored info.unmarked).mpr (by
        rw [version_unmarked, hversion, hlast]
        rfl)
      obtain ⟨m, hm, heq⟩ := hstored
      have hsame : m.row.unmarked.version = info.unmarked.version :=
        congrArg MSubChainBasicInfo.version heq
      exact absurd (hsame.trans hversion) (hnone m hm)

/-- The default that is found is the last one. -/
theorem found_default (h : s.Holds env) :
    (getDefaultVersion s.table).map Saved.row = lastDefault s.saved := by
  cases hfind : getDefaultVersion s.table with
  | some m =>
    obtain ⟨hm, hdefault⟩ := getDefaultVersion_eq_some hfind
    exact ((h.default m.row).mp ⟨m, hm, rfl, hdefault⟩).symm
  | none =>
    cases hlast : lastDefault s.saved with
    | none => rfl
    | some info =>
      obtain ⟨m, hm, rfl, hdefault⟩ := (h.default info).mpr hlast
      exact absurd hdefault (getDefaultVersion_eq_none hfind hm)

theorem basicInfosKept (h : s.Holds env) (henv : env.DrawsOnce) : BasicInfosKept env s where
  oneDefault := by
    have hnodup : (s.table.filter fun m => m.row.isDefault = cTrue).Nodup :=
      (List.Nodup.of_map _ h.kept.ids).filter _
    apply length_le_one_of_nodup hnodup
    intro m hm m' hm'
    obtain ⟨hm, hdefault⟩ := List.mem_filter.mp hm
    obtain ⟨hm', hdefault'⟩ := List.mem_filter.mp hm'
    exact h.oneDefault m hm m' hm' (of_decide_eq_true hdefault) (of_decide_eq_true hdefault')
  oneEach := h.kept.keys
  found := h.found
  getVersion env' version hfails hversion := by
    obtain ⟨found, hfind, hlast⟩ := h.found version
    rw [run_getBasicInfo version hfails, findBasicInfo_of_ne hversion]
    show (findByVersion version s.table >>= _) >>= _ = _
    rw [hfind, ← hlast]
    cases found <;> rfl
  getDefault env' hfails := by
    rw [run_getBasicInfo _ hfails, findBasicInfo_empty, ← h.found_default]
    show (Outcome.okOr _ (getDefaultVersion s.table)) >>= _ = _
    cases getDefaultVersion s.table <;> rfl
  errors basicInfo hfails := by
    rcases h.step_cases henv basicInfo with ⟨_, _, hstore, _⟩ | ⟨_, n, _, rows', rows'', _, _, hrun⟩
    · exact hstore
    · rw [hrun] at hfails
      cases hfails

/-- A step that does not meet the condition leaves a record that is not found. -/
theorem not_found (h : s.Holds env) (henv : env.DrawsOnce) {basicInfo : Saved MSubChainBasicInfo}
    (hsaves : ¬ SavesAll env s basicInfo) : ¬ BasicInfosKept env (s.step env basicInfo) := by
  intro hkept
  rcases h.step_cases henv basicInfo with
    ⟨hcut, _⟩ | ⟨_, n, _, rows', rows'', hcleared, hput, hrun⟩
  · exact hsaves (.inl hcut)
  have hstep : s.step env basicInfo =
      ⟨⟨{ s.session.store with subChainBasicInfo := rows'' }, n + 2⟩,
        s.saved ++ [basicInfo.row]⟩ := by
    unfold InfoRun.step
    rw [hrun]
    rfl
  rw [hstep] at hkept
  have hself : lastSaved (s.saved ++ [basicInfo.row]) basicInfo.row.version =
      some basicInfo.row := by
    rw [lastSaved_concat, if_pos rfl]
  obtain ⟨m, hm, hversion, hmark⟩ := hkept.exists_of_lastSaved hself
  rcases hput with ⟨old, hold, holdVersion, put, -, hrow, hputs⟩ |
    ⟨hunknown, ⟨hempty, -⟩ | ⟨hnamed, put, hid, hrow, hrows⟩⟩
  · -- the old metadata is found
    apply hsaves
    have hmput : m = put := by
      rcases hputs.mem.mp hm with heq | ⟨-, hne⟩
      · exact heq
      · refine absurd hversion ?_
        rw [hrow] at hne
        exact hne
    rw [hmput, hrow] at hmark
    have hmetadata : old.row.metadata = basicInfo.row.metadata := by
      injection hmark
    refine .inr ⟨fun r hr hrVersion => ?_, fun hnone => absurd holdVersion (hnone old hold)⟩
    rw [List.inj_on_of_nodup_map h.kept.keys hr hold (hrVersion.trans holdVersion.symm)]
    exact hmetadata
  · exact hsaves (.inr ⟨fun r hr hrVersion => absurd hrVersion (hunknown r hr), fun _ => hempty⟩)
  · -- a row of another version has the identifier of the record
    subst hrows
    have hother : ∀ r ∈ rows', r.row.version ≠ basicInfo.row.version := by
      intro r hr
      obtain ⟨b, hb, -, hbrow⟩ := hcleared.exists_before hr
      rw [hbrow, version_clearedFor]
      exact hunknown b hb
    obtain ⟨r, hr, hif⟩ := List.mem_map.mp hm
    have hrid : r.shared.id = put.shared.id := by
      by_contra hne
      rw [if_neg hne] at hif
      exact hother r hr (hif ▸ hversion)
    obtain ⟨b, hb, -, hbrow⟩ := hcleared.exists_before hr
    have hbVersion : r.row.version = b.row.version := by rw [hbrow, version_clearedFor]
    -- so there is no row left of the version that it had
    obtain ⟨info, hinfo⟩ : ∃ info, lastSaved s.saved b.row.version = some info := by
      have hstored := (h.stored b.row.unmarked).mp ⟨b, hb, rfl⟩
      obtain ⟨info, hinfo, -⟩ := Option.map_eq_some_iff.mp hstored
      exact ⟨info, hinfo⟩
    have hlast : lastSaved (s.saved ++ [basicInfo.row]) b.row.version = some info := by
      rw [lastSaved_concat, if_neg fun heq => hunknown b hb heq.symm, hinfo]
    obtain ⟨m', hm', hversion', -⟩ := hkept.exists_of_lastSaved hlast
    rcases mem_updateById hm' with rfl | ⟨hm', hne⟩
    · rw [hrow] at hversion'
      exact hunknown b hb hversion'.symm
    · have hsame : m' = r := List.inj_on_of_nodup_map (hcleared.kept h.kept).keys hm' hr
        (hversion'.trans hbVersion.symm)
      exact hne (hsame ▸ hrid)

end InfoRun.Holds

end Promise

/-- **Basic infos.** Over every sequence of calls, one default and one row per version are kept and
the last records are found exactly as long as every call that is not cut short has the metadata
that is stored for its version or, for a new version, no identifier. -/
theorem basicInfosKept_iff (env : Surroundings) (henv : env.DrawsOnce) (db : DataDb)
    (calls : List (Saved MSubChainBasicInfo)) :
    (∀ before, before <+: calls →
        BasicInfosKept env (run (InfoRun.step env) (InfoRun.start db) before)) ↔
      Guarded (InfoRun.step env) (SavesAll env) (InfoRun.start db) calls := by
  have hstart : (InfoRun.start db).Holds env := by
    constructor
    · exact .nil
    · exact List.forall_mem_nil _
    · intro info
      simp [InfoRun.start, InfoRun.table, lastSaved]
    · intro info
      simp [InfoRun.start, InfoRun.table, lastDefault]
  apply forall_prefix_iff_guarded
  · exact fun s (h : s.Holds env) => h.basicInfosKept henv
  · exact fun s basicInfo h hsaves => h.step henv hsaves
  · exact fun s basicInfo h hsaves => h.not_found henv hsaves
  · exact hstart

/-! ## Metadata that changes -/

/-- Nothing fails, and an identifier is as long as its operation is late. -/
def counted : Surroundings where
  fails _ := false
  uuid n _ := List.replicate (n + 1) 'u'
  nowTsSeconds _ := 0

theorem drawsOnce_counted : counted.DrawsOnce where
  ne_nil _ _ := by simp [counted]
  injective n n' h := by
    have hlength := congrArg List.length h
    simpa [counted] using hlength

/-- A record of a version, as the default or not. -/
def infoOf (runtimeVersion : Int32) (metadata : Text) (isDefault : UInt32) :
    Saved MSubChainBasicInfo :=
  ⟨default, ⟨['g'], metadata, runtimeVersion, 1, 42, 15, ['E'], isDefault⟩⟩

/-- The default moves from one version to another, and the first one is saved again. -/
theorem basicInfosKept_iff_moved :
    Guarded (InfoRun.step counted) (SavesAll counted) (InfoRun.start emptyDb)
        [infoOf 1 ['a'] 1, infoOf 2 ['b'] 1, infoOf 1 ['a'] 0] ∧
      ∀ before, before <+: [infoOf 1 ['a'] 1, infoOf 2 ['b'] 1, infoOf 1 ['a'] 0] →
        BasicInfosKept counted (run (InfoRun.step counted) (InfoRun.start emptyDb) before) := by
  have hcalls : Guarded (InfoRun.step counted) (SavesAll counted) (InfoRun.start emptyDb)
      [infoOf 1 ['a'] 1, infoOf 2 ['b'] 1, infoOf 1 ['a'] 0] := by decide +kernel
  exact ⟨hcalls, (basicInfosKept_iff counted drawsOnce_counted _ _).mpr hcalls⟩

/-- A version that is saved with other metadata keeps the metadata that it had. -/
theorem not_basicInfosKept_metadata : ¬ ∀ before,
    before <+: [infoOf 1 ['a'] 1, infoOf 1 ['b'] 1] →
      BasicInfosKept counted (run (InfoRun.step counted) (InfoRun.start emptyDb) before) := by
  intro h
  have hkept := h _ List.prefix_rfl
  have hversion := hkept.getVersion counted ⟨['g'], 1, 1⟩ rfl (by decide)
  revert hversion
  decide +kernel

end Cashbox.Wallets
