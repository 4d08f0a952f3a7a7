import Cashbox.Lib.Plan
import Cashbox.Lib.Run
import Cashbox.Wallets.InitTables

/-!
# Databases that are initialised

A start that returns should find every table and every default token. The first start sets the
version before it creates anything, so that what it leaves out is left out for good, and under
one script the name of another table is passed.
-/

namespace Cashbox.Wallets.InitTables

open Cashbox.Lib

/-! ## What a start promises -/

/-- The scripts and names of the tables of a database. -/
def pairsOf : DbNameType → List (TableName × TableName)
  | .cashboxWallets => walletsTables
  | .cashboxMnemonic => mnemonicTables
  | .walletMainnet | .walletPrivate | .walletTestnet | .walletTestnetPrivate => dataTables

/-- The tables of a database. -/
def tablesOf : DbNameType → List TableName
  | .cashboxWallets =>
    [.mWallet, .mChainTypeMeta, .mAddress, .mSetting,
      .mEthChainTokenShared, .mEthChainTokenAuth, .mEthChainTokenNonAuth, .mEthChainTokenDefault,
      .mEeeChainTokenShared, .mEeeChainTokenAuth, .mEeeChainTokenDefault,
      .mBtcChainTokenShared, .mBtcChainTokenAuth, .mBtcChainTokenDefault]
  | .cashboxMnemonic => [.mMnemonic]
  | .walletMainnet | .walletPrivate | .walletTestnet | .walletTestnetPrivate =>
    [.mTokenAddress, .mEthChainToken, .mEthChainTx, .mEeeChainToken, .mEeeChainTx, .mEeeTokenxTx,
      .mBtcChainToken, .mBtcChainTx, .mBtcInputTx, .mBtcOutputTx, .mSubChainBasicInfo,
      .mAccountInfoSyncProg]

/-- The rows of a table of the wallets database. -/
def Databases.rows (s : Databases) (name : TableName) : List Row :=
  ((s.db .cashboxWallets).tables name).getD []

/-- The token of a chain is there once, and once on each network. -/
def ChainToken.Once (chain : ChainToken) (s : Databases) : Prop :=
  ∃ tokenShared, chain.rowsShared (s.rows chain.tableShared) = [tokenShared] ∧
    ∀ netType : NetType, (ChainToken.rowsDefault tokenShared.shared.id netType.toString
      (s.rows chain.tableDefault)).length = 1

structure Initialised (s : Databases) : Prop where
  tables : ∀ name, ∀ t ∈ tablesOf name, (s.db name).tables t ≠ none
  tokens : ∀ chain ∈ [eth, eee, btc], chain.Once s

/-- The tables that were created, and no others, were emptied or dropped. -/
def Cleaned (createType : DbCreateType) (executed : List (DbNameType × Statement)) : Prop :=
  createType ≠ .notExists → ∀ name t, (name, .createTable t) ∈ executed ↔
    (name, .deleteFrom t) ∈ executed ∨ (name, .dropTable t) ∈ executed

/-! ## Starts, one after the other -/

structure InitRun where
  env : Surroundings
  createType : DbCreateType

structure State where
  databases : Databases
  last : Option (DbCreateType × Outcome Error Unit)

def State.fresh : State := ⟨.fresh, none⟩

def step (s : State) (r : InitRun) : State :=
  let (session, result) :=
    (initTables r.env r.createType).run ⟨{ s.databases with executed := [] }, 0⟩
  ⟨session.store, some (r.createType, result)⟩

/-- What a start promises that returns `Ok`. -/
def Promise (s : State) : Prop :=
  ∀ createType, s.last = some (createType, .ok ()) →
    Initialised s.databases ∧ Cleaned createType s.databases.executed

/-- The statements of a start that sets the version, creates the tables and inserts the tokens. -/
def statements : DbCreateType → Nat
  | .notExists => 2 + 63 + 30
  | .cleanData | .drop => 2 + 2 * 63 + 30

/-- No statement of the start fails. With `CleanData` one always does: the table of the wrong name
is not there yet. -/
def InitRun.Completes (r : InitRun) : Prop :=
  r.createType ≠ .cleanData ∧ ∀ i < statements r.createType, r.env.fails i = false

instance (r : InitRun) : Decidable r.Completes := inferInstanceAs (Decidable (_ ∧ _))

/-- The condition: the start that sets the version completes and drops nothing, or every later
one fails when it reads the version. -/
def Restartable : List InitRun → Prop
  | [] => True
  | r :: rs =>
    if r.env.fails 0 || r.env.fails 1 then Restartable rs
    else if r.Completes then r.createType = .notExists
    else ∀ r' ∈ rs, r'.env.fails 0 = true

/-! ## Plans -/

def createTablePlan (sql name : TableName) : DbCreateType → Plan Unit
  | .notExists => Plan.quiet
  | .cleanData => Plan.quiet >>= fun _ => ⟨[false], if sql = name then .ok () else .err ()⟩
  | .drop => Plan.quiet >>= fun _ => Plan.quiet

def createTablesPlan (createType : DbCreateType) : List (TableName × TableName) → Plan Unit
  | [] => pure ()
  | (sql, name) :: tables =>
    createTablePlan sql name createType >>= fun _ => createTablesPlan createType tables

def createDataPlan (createType : DbCreateType) : List NetType → Plan Unit
  | [] => pure ()
  | _ :: netTypes =>
    createTablesPlan createType dataTables >>= fun _ => createDataPlan createType netTypes

def createPlan (createType : DbCreateType) : Plan Unit := do
  createTablesPlan createType walletsTables
  createTablesPlan createType mnemonicTables
  createDataPlan createType NetType.iter

def insertDefaultsPlan : List NetType → Plan Unit
  | [] => pure ()
  | _ :: netTypes => do
    Plan.quiet
    Plan.quiet
    insertDefaultsPlan netTypes

def insertPlan : Plan Unit := do
  Plan.quiet
  Plan.quiet
  insertDefaultsPlan NetType.iter

def initPlan (createType : DbCreateType) : Plan Unit := do
  createPlan createType
  insertPlan
  insertPlan
  insertPlan

theorem goes_initPlan (r : InitRun) (hfirst : r.env.fails 0 = false)
    (hsecond : r.env.fails 1 = false) :
    (initPlan r.createType).Goes r.env.fails 2 ↔ r.Completes := by
  have hplan : (initPlan r.createType).ends.isOk = true ↔ r.createType ≠ .cleanData := by
    cases r.createType <;> decide +kernel
  have hlength : r.createType ≠ .cleanData →
      (initPlan r.createType).marks.length + 2 = statements r.createType := by
    cases r.createType <;> decide +kernel
  unfold Plan.Goes InitRun.Completes
  rw [hplan]
  refine and_congr_right fun hclean => ⟨fun h i hi => ?_, fun h i hi => ?_⟩
  · rcases i with _ | _ | i
    · exact hfirst
    · exact hsecond
    · rw [← hlength hclean] at hi
      rw [Nat.add_assoc, Nat.add_comm]
      exact h i (by omega)
  · exact h (2 + i) (by rw [← hlength hclean]; omega)

/-! ## Creating the tables -/

section Create

variable {env : Surroundings} {s : Databases} {rb : DbNameType} {createType : DbCreateType}

/-- The version is set, and the last of the default tokens is not there. -/
structure Early (s : Databases) : Prop where
  version : (s.db .cashboxWallets).userVersion = version
  last : ∀ sharedId, ChainToken.rowsDefault sharedId NetType.privateTest.toString
    (s.rows .mBtcChainTokenDefault) = []

theorem Early.not_initialised (h : Early s) : ¬ Initialised s := by
  intro hinit
  obtain ⟨tokenShared, _, hdefaults⟩ := hinit.tokens btc (by simp)
  have hlength := hdefaults .privateTest
  rw [show btc.tableDefault = .mBtcChainTokenDefault from rfl, h.last] at hlength
  cases hlength

/-- The statements that create a table, the last one first. -/
def statementsOf (createType : DbCreateType) (rb : DbNameType) (p : TableName × TableName) :
    List (DbNameType × Statement) :=
  match createType with
  | .notExists => [(rb, .createTable p.1)]
  | .cleanData => [(rb, .deleteFrom p.2), (rb, .createTable p.1)]
  | .drop => [(rb, .createTable p.1), (rb, .dropTable p.2)]

/-- The databases with new tables. -/
structure Creates (createType : DbCreateType) (rb : DbNameType)
    (pairs : List (TableName × TableName)) (s s' : Databases) : Prop where
  tables : ∀ name t, (s'.db name).tables t =
    if name = rb ∧ t ∈ pairs.map Prod.fst then some [] else (s.db name).tables t
  version : ∀ name, (s'.db name).userVersion = (s.db name).userVersion
  executed : ∀ x, x ∈ s'.executed ↔
    x ∈ s.executed ∨ ∃ p ∈ pairs, x ∈ statementsOf createType rb p

/-- Tables without rows are no tokens. -/
theorem Early.of_tables {s' : Databases} (h : Early s)
    (hversion : (s'.db .cashboxWallets).userVersion = (s.db .cashboxWallets).userVersion)
    (htable : (s'.db .cashboxWallets).tables .mBtcChainTokenDefault =
        (s.db .cashboxWallets).tables .mBtcChainTokenDefault ∨
      s'.rows .mBtcChainTokenDefault = []) : Early s' where
  version := hversion.trans h.version
  last sharedId := by
    rcases htable with hsame | hempty
    · unfold Databases.rows
      rw [hsame]
      exact h.last sharedId
    · rw [hempty]
      rfl

theorem Creates.early {pairs : List (TableName × TableName)} {s' : Databases} (h : Early s)
    (hs : Creates createType rb pairs s s') : Early s' := by
  refine h.of_tables (hs.version _) ?_
  by_cases hnew : DbNameType.cashboxWallets = rb ∧ .mBtcChainTokenDefault ∈ pairs.map Prod.fst
  · right
    unfold Databases.rows
    rw [hs.tables, if_pos hnew]
    rfl
  · left
    rw [hs.tables, if_neg hnew]

/-- A statement that the database executes. -/
theorem goesAs_exec {sql : Statement} {d : Database} {calls : Nat} {E : Databases → Prop} (hE : E s)
    (hexec : (s.db rb).exec sql = some d) :
    GoesAs env.fails (exec env rb sql) ⟨s, calls⟩ Plan.quiet (fun s' => E s'.store)
      fun _ _ s' => s'.store = { s.setDb rb d with executed := (rb, sql) :: s.executed } := by
  refine GoesAs.operation hE ?_ fun hno => nomatch hno
  dsimp only
  rw [hexec]
  exact .ok rfl

/-- A statement on a table that is not there. -/
theorem goesAs_exec_none {sql : Statement} {calls : Nat} {E : Databases → Prop}
    {Q : Unit → Unit → Session Databases → Prop} (hE : E s)
    (hexec : (s.db rb).exec sql = none) :
    GoesAs env.fails (exec env rb sql) ⟨s, calls⟩ ⟨[false], .err ()⟩ (fun s' => E s'.store) Q := by
  refine GoesAs.operation hE ?_ fun _ => ?_
  all_goals
    dsimp only
    rw [hexec]
  · exact .err Error.sql
  · exact hE

/-- One new table. -/
theorem Creates.one {sql name : TableName} {d : Database}
    (hversion : d.userVersion = (s.db rb).userVersion)
    (htables : ∀ t, d.tables t = if t = sql then some [] else (s.db rb).tables t) :
    Creates createType rb [(sql, name)] s
      { s.setDb rb d with executed := statementsOf createType rb (sql, name) ++ s.executed } where
  tables name' t := by
    by_cases hdb : name' = rb
    · simp [Databases.setDb, hdb, htables]
    · simp [Databases.setDb, hdb]
  version name' := by
    by_cases hdb : name' = rb
    · simp [Databases.setDb, hdb, hversion]
    · simp [Databases.setDb, hdb]
  executed x := by
    simp only [List.mem_append, List.mem_singleton, exists_eq_left]
    exact Or.comm

theorem Early.setTable {name : TableName} {rows : Option (List Row)} {executed}
    (h : Early s) (hrows : rows.getD [] = []) :
    Early { s.setDb rb ((s.db rb).setTable name rows) with executed := executed } := by
  refine h.of_tables ?_ ?_
  · by_cases hdb : DbNameType.cashboxWallets = rb
    · subst hdb
      simp [Databases.setDb, Database.setTable]
    · simp [Databases.setDb, hdb]
  · by_cases hdb : DbNameType.cashboxWallets = rb
    · subst hdb
      by_cases hname : TableName.mBtcChainTokenDefault = name
      · right
        simpa [Databases.rows, Databases.setDb, Database.setTable, hname] using hrows
      · simp [Databases.setDb, Database.setTable, hname]
    · simp [Databases.setDb, hdb]

/-- Two statements on one database. -/
theorem goesAs_exec_exec {sql sql' : Statement} {d d' : Database} {calls : Nat} (h : Early s)
    (hexec : (s.db rb).exec sql = some d)
    (hearly : Early { s.setDb rb d with executed := (rb, sql) :: s.executed })
    (hexec' : d.exec sql' = some d') :
    GoesAs env.fails (exec env rb sql >>= fun _ => exec env rb sql') ⟨s, calls⟩
      (Plan.quiet >>= fun _ => Plan.quiet) (fun s' => Early s'.store)
      fun _ _ s' => s'.store =
        { s.setDb rb d' with executed := (rb, sql') :: (rb, sql) :: s.executed } := by
  refine (goesAs_exec h hexec).bind fun _ _ s' hs => ?_
  obtain ⟨store, calls'⟩ := s'
  dsimp only at hs
  subst hs
  have hdb : ({ s.setDb rb d with executed := (rb, sql) :: s.executed } : Databases).db rb = d :=
    if_pos rfl
  refine (goesAs_exec hearly (by rw [hdb]; exact hexec')).mono fun _ _ s' hs => ?_
  rw [hs]
  have hlast : (fun name => if name = rb then d' else if name = rb then d else s.db name) =
      fun name => if name = rb then d' else s.db name := by
    funext name
    by_cases hname : name = rb <;> simp [hname]
  exact congrArg (fun db => (⟨db, (rb, sql') :: (rb, sql) :: s.executed⟩ : Databases)) hlast

theorem goesAs_createTable {sql name : TableName} {calls : Nat} (h : Early s)
    (hsql : (s.db rb).tables sql = none) (hname : (s.db rb).tables name = none) :
    GoesAs env.fails (createTable env rb sql name createType) ⟨s, calls⟩
      (createTablePlan sql name createType) (fun s' => Early s'.store)
      fun _ _ s' => Creates createType rb [(sql, name)] s s'.store := by
  have hcreate : (s.db rb).exec (.createTable sql) = some ((s.db rb).setTable sql (some [])) := by
    simp [Database.exec, hsql]
  have hcreated : ∀ executed, Early
      { s.setDb rb ((s.db rb).setTable sql (some [])) with executed := executed } :=
    fun _ => h.setTable rfl
  cases createType with
  | notExists =>
    refine (goesAs_exec h hcreate).mono fun _ _ s' hs => ?_
    rw [hs]
    exact Creates.one rfl fun t => rfl
  | cleanData =>
    -- create, then delete what was there, which is nothing
    by_cases hsame : sql = name
    · subst hsame
      have hdelete : ((s.db rb).setTable sql (some [])).exec (.deleteFrom sql) =
          some (((s.db rb).setTable sql (some [])).setTable sql (some [])) := by
        simp [Database.exec, Database.setTable]
      unfold createTablePlan
      rw [if_pos rfl]
      refine (goesAs_exec_exec h hcreate (hcreated _) hdelete).mono fun _ _ s' hs => ?_
      rw [hs]
      refine Creates.one rfl fun t => ?_
      by_cases ht : t = sql <;> simp [Database.setTable, ht]
    · -- the table of this name is not there
      unfold createTablePlan
      rw [if_neg hsame]
      refine (goesAs_exec h hcreate).bind fun _ _ s' hs => ?_
      obtain ⟨store, calls'⟩ := s'
      dsimp only at hs
      subst hs
      refine goesAs_exec_none (hcreated _) ?_
      simp [Databases.setDb, Database.exec, Database.setTable, Ne.symm hsame, hname]
  | drop =>
    -- a table that is not there can be dropped
    have hdrop : (s.db rb).exec (.dropTable name) = some ((s.db rb).setTable name none) := rfl
    have hcreate' : ((s.db rb).setTable name none).exec (.createTable sql) =
        some (((s.db rb).setTable name none).setTable sql (some [])) := by
      simp [Database.exec, Database.setTable, hsql]
    refine (goesAs_exec_exec h hdrop (h.setTable rfl) hcreate').mono fun _ _ s' hs => ?_
    rw [hs]
    refine Creates.one rfl fun t => ?_
    by_cases ht : t = sql
    · simp [Database.setTable, ht]
    · by_cases ht' : t = name
      · simp [Database.setTable, ht', hname]
      · simp [Database.setTable, ht, ht']

theorem Creates.nil : Creates createType rb [] s s := by
  constructor <;> simp

theorem Creates.cons {p : TableName × TableName} {pairs : List (TableName × TableName)}
    {s' s'' : Databases} (h : Creates createType rb [p] s s')
    (h' : Creates createType rb pairs s' s'') : Creates createType rb (p :: pairs) s s'' where
  tables name t := by
    rw [h'.tables, h.tables]
    by_cases hname : name = rb
    · by_cases ht : t ∈ pairs.map Prod.fst
      · simp [hname, ht]
      · simp [hname, ht]
    · simp [hname]
  version name := (h'.version name).trans (h.version name)
  executed x := by
    rw [h'.executed, h.executed]
    simp [or_assoc]

/-- The tables of a list are new, and no script is a later one or the later name of a table. -/
theorem goesAs_createTables {pairs : List (TableName × TableName)} {calls : Nat} (h : Early s)
    (hnone : ∀ p ∈ pairs, (s.db rb).tables p.1 = none ∧ (s.db rb).tables p.2 = none)
    (hpairs : pairs.Pairwise fun p q => q.1 ≠ p.1 ∧ q.2 ≠ p.1) :
    GoesAs env.fails (createTables env rb createType pairs) ⟨s, calls⟩
      (createTablesPlan createType pairs) (fun s' => Early s'.store)
      fun _ _ s' => Creates createType rb pairs s s'.store := by
  induction pairs generalizing s calls with
  | nil => exact GoesAs.pure Creates.nil
  | cons p pairs ih =>
    obtain ⟨hfirst, hrest⟩ := List.pairwise_cons.mp hpairs
    obtain ⟨hsql, hname⟩ := hnone p List.mem_cons_self
    refine (goesAs_createTable h hsql hname).bind fun _ _ s' hs => ?_
    refine (ih (hs.early h) ?_ hrest).mono fun _ _ s'' hs' => hs.cons hs'
    intro q hq
    obtain ⟨hq₁, hq₂⟩ := hfirst q hq
    obtain ⟨hnone₁, hnone₂⟩ := hnone q (List.mem_cons_of_mem _ hq)
    constructor
    · simp [hs.tables, hq₁, hnone₁]
    · simp [hs.tables, hq₂, hnone₂]

/-! ### All databases -/

variable (createType) in
/-- The databases of a list are created, and nothing else. -/
structure Created (done : List DbNameType) (s : Databases) : Prop where
  tables : ∀ name t, (s.db name).tables t =
    if name ∈ done ∧ t ∈ tablesOf name then some [] else none
  executed : ∀ x, x ∈ s.executed ↔ x = (.cashboxWallets, .setUserVersion version) ∨
    ∃ name ∈ done, ∃ p ∈ pairsOf name, x ∈ statementsOf createType name p

/-- Each script is the one of a table. -/
theorem map_fst_pairsOf (rb : DbNameType) : (pairsOf rb).map Prod.fst = tablesOf rb := by
  cases rb <;> rfl

theorem pairwise_pairsOf (rb : DbNameType) :
    (pairsOf rb).Pairwise fun p q => q.1 ≠ p.1 ∧ q.2 ≠ p.1 := by
  cases rb <;> decide

theorem Created.cons {done : List DbNameType} {s' : Databases} (h : Created createType done s)
    (hs : Creates createType rb (pairsOf rb) s s') : Created createType (rb :: done) s' where
  tables name t := by
    rw [hs.tables, h.tables, map_fst_pairsOf]
    by_cases hname : name = rb
    · subst hname
      by_cases ht : t ∈ tablesOf name <;> simp [ht]
    · simp [hname]
  executed x := by
    rw [hs.executed, h.executed]
    simp only [List.mem_cons, exists_eq_or_imp, or_assoc]
    exact or_congr_right Or.comm

theorem goesAs_createDb {done : List DbNameType} {calls : Nat} (h : Early s)
    (hs : Created createType done s) (hnew : rb ∉ done) :
    GoesAs env.fails (createTables env rb createType (pairsOf rb)) ⟨s, calls⟩
      (createTablesPlan createType (pairsOf rb)) (fun s' => Early s'.store)
      fun _ _ s' => Early s'.store ∧ Created createType (rb :: done) s'.store := by
  have hnone : ∀ t, (s.db rb).tables t = none := fun t => by simp [hs.tables, hnew]
  refine (goesAs_createTables h (fun p _ => ⟨hnone p.1, hnone p.2⟩) (pairwise_pairsOf rb)).mono ?_
  exact fun _ _ s' hs' => ⟨hs'.early h, hs.cons hs'⟩

theorem goesAs_createData {done : List DbNameType} {netTypes : List NetType} {calls : Nat}
    (h : Early s) (hs : Created createType done s)
    (hnew : ((netTypes.map dataDb).reverse ++ done).Nodup) :
    GoesAs env.fails (createData env createType netTypes) ⟨s, calls⟩
      (createDataPlan createType netTypes) (fun s' => Early s'.store)
      fun _ _ s' => Early s'.store ∧
        Created createType ((netTypes.map dataDb).reverse ++ done) s'.store := by
  induction netTypes generalizing s done calls with
  | nil => exact GoesAs.pure ⟨h, hs⟩
  | cons netType netTypes ih =>
    have hpairs : pairsOf (dataDb netType) = dataTables := by cases netType <;> rfl
    rw [List.map_cons, List.reverse_cons, List.append_assoc] at hnew ⊢
    have hfirst : dataDb netType ∉ done := (List.nodup_cons.mp (List.nodup_append.mp hnew).2.1).1
    have hdb : GoesAs env.fails (createTableData env createType (dataDb netType)) ⟨s, calls⟩
        (createTablesPlan createType dataTables) (fun s' => Early s'.store) fun _ _ s' =>
          Early s'.store ∧ Created createType (dataDb netType :: done) s'.store := by
      unfold createTableData
      rw [← hpairs]
      exact goesAs_createDb h hs hfirst
    exact hdb.bind fun _ _ s' hs' => ih hs'.1 hs'.2 hnew

/-- **All tables** are created, with a name for each that is not there yet. -/
theorem goesAs_create {calls : Nat} (h : Early s) (hs : Created createType [] s) :
    GoesAs env.fails (create env createType) ⟨s, calls⟩ (createPlan createType)
      (fun s' => Early s'.store)
      fun _ _ s' => Early s'.store ∧ ∃ done, (∀ name, name ∈ done) ∧
        Created createType done s'.store := by
  refine (goesAs_createDb h hs (List.not_mem_nil : DbNameType.cashboxWallets ∉ _)).bind
    fun _ _ s₁ hs₁ => ?_
  refine (goesAs_createDb hs₁.1 hs₁.2 (show DbNameType.cashboxMnemonic ∉ _ by decide)).bind
    fun _ _ s₂ hs₂ => ?_
  refine (goesAs_createData hs₂.1 hs₂.2 (by decide)).mono fun _ _ s₃ hs₃ => ⟨hs₃.1, _, ?_, hs₃.2⟩
  intro name
  cases name <;> decide

end Create

/-! ## Inserting the tokens -/

section Insert

variable {env : Surroundings} {chain : ChainToken} {s : Databases} {name : TableName}
  {rows : List Row} {sharedId : Text} {calls : Nat} {E : Databases → Prop}

/-- A table of the wallets database with other rows. -/
def Databases.withRows (s : Databases) (name : TableName) (rows : List Row) : Databases :=
  s.setDb .cashboxWallets ((s.db .cashboxWallets).setTable name (some rows))

@[simp] theorem tables_withRows (name' : DbNameType) (t : TableName) :
    ((s.withRows name rows).db name').tables t =
      if name' = .cashboxWallets ∧ t = name then some rows else (s.db name').tables t := by
  by_cases hdb : name' = .cashboxWallets
  · subst hdb
    simp [Databases.withRows, Databases.setDb, Database.setTable]
  · simp [Databases.withRows, Databases.setDb, hdb]

@[simp] theorem rows_withRows (t : TableName) :
    (s.withRows name rows).rows t = if t = name then rows else s.rows t := by
  unfold Databases.rows
  rw [tables_withRows]
  by_cases ht : t = name <;> simp [ht]

@[simp] theorem userVersion_withRows (name' : DbNameType) :
    ((s.withRows name rows).db name').userVersion = (s.db name').userVersion := by
  by_cases hdb : name' = .cashboxWallets
  · subst hdb
    rfl
  · simp [Databases.withRows, Databases.setDb, hdb]

@[simp] theorem executed_withRows : (s.withRows name rows).executed = s.executed := rfl

theorem withRows_withRows (rows' : List Row) :
    (s.withRows name rows).withRows name rows' = s.withRows name rows' := by
  unfold Databases.withRows Databases.setDb
  congr 1
  funext name'
  by_cases hdb : name' = .cashboxWallets
  · simp only [hdb, if_true]
    unfold Database.setTable
    congr 1
    funext t
    by_cases ht : t = name <;> simp [ht]
  · simp [hdb]

/-- The rows of a table are what they are. -/
theorem withRows_self (h : (s.db .cashboxWallets).tables name = some rows) :
    s.withRows name rows = s := by
  unfold Databases.withRows Databases.setDb
  congr 1
  funext name'
  by_cases hdb : name' = .cashboxWallets
  · subst hdb
    rw [if_pos rfl]
    unfold Database.setTable
    congr 1
    funext t
    by_cases ht : t = name <;> simp [ht, h]
  · rw [if_neg hdb]

theorem goesAs_select {found : List Row → Outcome Error α} {a : α} (hE : E s)
    (h : (s.db .cashboxWallets).tables name = some rows) (hfound : found rows = .ok a) :
    GoesAs env.fails (select env name found) ⟨s, calls⟩ Plan.quiet (fun s' => E s'.store)
      fun b _ s' => b = a ∧ s'.store = s := by
  unfold select query
  refine GoesAs.operation hE ?_ fun hno => nomatch hno
  dsimp only
  rw [h]
  dsimp only
  rw [hfound]
  exact .ok ⟨rfl, rfl⟩

theorem goesAs_save {ρ : Type} {row : ρ} {toRow : Saved ρ → Row} (hE : E s)
    (h : (s.db .cashboxWallets).tables name = some rows) :
    GoesAs env.fails (save env name row toRow) ⟨s, calls⟩ Plan.quiet (fun s' => E s'.store)
      fun saved _ s' => saved.row = row ∧ s'.store = s.withRows name (rows ++ [toRow saved]) := by
  refine GoesAs.operation hE ?_ fun hno => nomatch hno
  dsimp only
  rw [h]
  exact .ok ⟨rfl, rfl⟩

/-! ### The defaults -/

variable (chain sharedId) in
/-- The rows are the defaults on the networks of a list. -/
def Listed (netTypes : List NetType) (rows : List Row) : Prop :=
  List.Forall₂ (fun netType row => ∃ shared,
    row = .tokenDefault ⟨shared, chain.tokenDefault sharedId netType⟩) netTypes rows

theorem NetType.toString_injective : Function.Injective NetType.toString := by
  intro netType netType' h
  cases netType <;> cases netType' <;> first | rfl | exact absurd h (by decide)

/-- The defaults on a network are as many as the network is listed. -/
theorem Listed.length_rowsDefault {netTypes : List NetType}
    (h : Listed chain sharedId netTypes rows)
    (netType : NetType) : (ChainToken.rowsDefault sharedId netType.toString rows).length =
      netTypes.count netType := by
  induction h with
  | nil => rfl
  | @cons n row netTypes rows hrow _ ih =>
    obtain ⟨shared, rfl⟩ := hrow
    by_cases hn : n = netType
    · subst hn
      simpa [ChainToken.rowsDefault, ChainToken.tokenDefault] using ih
    · have hne : n.toString ≠ netType.toString := fun heq => hn (NetType.toString_injective heq)
      simpa [ChainToken.rowsDefault, ChainToken.tokenDefault, hne, hn] using ih

theorem Listed.rowsDefault_eq_nil {netTypes : List NetType} {netType : NetType}
    (h : Listed chain sharedId netTypes rows) (hnot : netType ∉ netTypes) (sharedId' : Text) :
    ChainToken.rowsDefault sharedId' netType.toString rows = [] := by
  induction h with
  | nil => rfl
  | @cons n row netTypes rows hrow _ ih =>
    obtain ⟨shared, rfl⟩ := hrow
    rw [List.mem_cons, not_or] at hnot
    have hne : n.toString ≠ netType.toString :=
      fun heq => hnot.1 (NetType.toString_injective heq).symm
    simpa [ChainToken.rowsDefault, ChainToken.tokenDefault, hne] using ih hnot.2

theorem ChainToken.fetch_nil : chain.fetch ([] : List α) = .ok none := by
  unfold ChainToken.fetch
  split <;> rfl

/-- The loop over the networks, where `E` holds while there are defaults to insert. -/
theorem goesAs_insertDefaults {done netTypes : List NetType} (hnodup : (done ++ netTypes).Nodup)
    (hrows : Listed chain sharedId done rows)
    (hE : ∀ done' later rows', done' ++ later = done ++ netTypes → later ≠ [] →
      Listed chain sharedId done' rows' → E (s.withRows chain.tableDefault rows')) :
    GoesAs env.fails (chain.insertDefaults env sharedId netTypes)
      ⟨s.withRows chain.tableDefault rows, calls⟩ (insertDefaultsPlan netTypes)
      (fun s' => E s'.store)
      fun _ _ s' => ∃ rows', Listed chain sharedId (done ++ netTypes) rows' ∧
        s'.store = s.withRows chain.tableDefault rows' := by
  induction netTypes generalizing done rows calls with
  | nil =>
    rw [List.append_nil]
    exact GoesAs.pure ⟨rows, hrows, rfl⟩
  | cons netType netTypes ih =>
    have hnow : E (s.withRows chain.tableDefault rows) :=
      hE done _ rows rfl (List.cons_ne_nil _ _) hrows
    have htable : ((s.withRows chain.tableDefault rows).db .cashboxWallets).tables
        chain.tableDefault = some rows := by simp
    have hnew : netType ∉ done := fun hmem =>
      (List.nodup_append.mp hnodup).2.2 netType hmem netType List.mem_cons_self rfl
    have hfound : chain.fetch (ChainToken.rowsDefault sharedId netType.toString rows) =
        .ok none := by
      rw [hrows.rowsDefault_eq_nil hnew]
      exact ChainToken.fetch_nil
    refine (goesAs_select hnow htable hfound).bind fun old _ s₁ hs₁ => ?_
    obtain ⟨store, calls'⟩ := s₁
    obtain ⟨rfl, rfl⟩ := hs₁
    refine (goesAs_save hnow htable).bind fun saved _ s₂ hs₂ => ?_
    obtain ⟨store, calls''⟩ := s₂
    obtain ⟨hrow, hstore⟩ := hs₂
    dsimp only at hstore
    subst hstore
    rw [withRows_withRows]
    have hlisted : Listed chain sharedId (done ++ [netType]) (rows ++ [.tokenDefault saved]) :=
      List.rel_append hrows (.cons ⟨saved.shared, by rw [← hrow]⟩ .nil)
    rw [List.append_cons done] at hnodup hE ⊢
    exact ih hnodup hlisted hE

/-! ### The three tokens -/

/-- The token of a chain, in tables that are empty. -/
theorem goesAs_insert (hne : chain.tableShared ≠ chain.tableDefault)
    (hshared : (s.db .cashboxWallets).tables chain.tableShared = some [])
    (hdefault : (s.db .cashboxWallets).tables chain.tableDefault = some []) (hs : E s)
    (hE : ∀ shared sharedId done later rows, done ++ later = NetType.iter → later ≠ [] →
      Listed chain sharedId done rows →
      E ((s.withRows chain.tableShared [.tokenShared shared]).withRows chain.tableDefault rows)) :
    GoesAs env.fails (chain.insert env) ⟨s, calls⟩ insertPlan (fun s' => E s'.store)
      fun _ _ s' => ∃ shared rows, shared.row = chain.shared ∧
        Listed chain shared.shared.id NetType.iter rows ∧
        s'.store = (s.withRows chain.tableShared [.tokenShared shared]).withRows
          chain.tableDefault rows := by
  have hfound : chain.fetch (chain.rowsShared []) = .ok none := ChainToken.fetch_nil
  unfold ChainToken.insert
  refine (goesAs_select hs hshared hfound).bind fun old _ s₁ hs₁ => ?_
  obtain ⟨store, calls'⟩ := s₁
  obtain ⟨rfl, rfl⟩ := hs₁
  refine (goesAs_save hs hshared).bind fun shared _ s₂ hs₂ => ?_
  obtain ⟨store, calls''⟩ := s₂
  obtain ⟨hrow, hstore⟩ := hs₂
  dsimp only at hstore
  subst hstore
  have hself : (store.withRows chain.tableShared [.tokenShared shared]).withRows
      chain.tableDefault [] = store.withRows chain.tableShared [.tokenShared shared] := by
    apply withRows_self
    rw [tables_withRows, if_neg fun h => hne h.2.symm]
    exact hdefault
  have hempty : Listed chain shared.shared.id [] [] := .nil
  have hnodup : ([] ++ NetType.iter).Nodup := by decide
  rw [List.nil_append, ← hself]
  refine (goesAs_insertDefaults hnodup hempty ?_).mono fun _ _ s' hs' => ?_
  · exact fun done later rows => hE shared _ done later rows
  · obtain ⟨rows, hlisted, hstore⟩ := hs'
    exact ⟨shared, rows, hrow, hlisted, hstore⟩

variable (chain) in
/-- The token of a chain is inserted, and nothing else. -/
structure Inserted (s s' : Databases) : Prop where
  once : chain.Once s'
  others : ∀ t, t ≠ chain.tableShared → t ≠ chain.tableDefault →
    (s'.db .cashboxWallets).tables t = (s.db .cashboxWallets).tables t
  tables : ∀ name t, (s.db name).tables t ≠ none → (s'.db name).tables t ≠ none
  version : (s'.db .cashboxWallets).userVersion = (s.db .cashboxWallets).userVersion
  executed : s'.executed = s.executed

theorem Inserted.of_listed {shared : Saved TokenShared}
    (hne : chain.tableShared ≠ chain.tableDefault)
    (hrow : shared.row = chain.shared) (hlisted : Listed chain shared.shared.id NetType.iter rows) :
    Inserted chain s ((s.withRows chain.tableShared [.tokenShared shared]).withRows
      chain.tableDefault rows) where
  once := by
    refine ⟨shared, ?_, fun netType => ?_⟩
    · rw [rows_withRows, if_neg hne, rows_withRows, if_pos rfl]
      simp [ChainToken.rowsShared, hrow]
    · rw [rows_withRows, if_pos rfl, hlisted.length_rowsDefault]
      cases netType <;> rfl
  others t hshared hdefault := by simp [hshared, hdefault]
  tables name t h := by
    rw [tables_withRows, tables_withRows]
    split
    · exact Option.some_ne_none _
    · split
      · exact Option.some_ne_none _
      · exact h
  version := by simp
  executed := rfl

/-- The token of another chain stays as it is. -/
theorem Inserted.once_of_once {chain' : ChainToken} {s' : Databases} (h : Inserted chain s s')
    (honce : chain'.Once s)
    (hshared : chain'.tableShared ≠ chain.tableShared ∧ chain'.tableShared ≠ chain.tableDefault)
    (hdefault : chain'.tableDefault ≠ chain.tableShared ∧
      chain'.tableDefault ≠ chain.tableDefault) : chain'.Once s' := by
  unfold ChainToken.Once Databases.rows
  rw [h.others _ hshared.1 hshared.2, h.others _ hdefault.1 hdefault.2]
  exact honce

theorem Inserted.early {s' : Databases} (hs : Inserted chain s s') (h : Early s)
    (hshared : .mBtcChainTokenDefault ≠ chain.tableShared)
    (hdefault : .mBtcChainTokenDefault ≠ chain.tableDefault) : Early s' :=
  h.of_tables hs.version (.inl (hs.others _ hshared hdefault))

/-- The last network is not in a part of the list before its end. -/
theorem privateTest_not_mem {done later : List NetType} (h : done ++ later = NetType.iter)
    (hlater : later ≠ []) : NetType.privateTest ∉ done := by
  have hpart : done <+: NetType.iter.dropLast := by
    refine ⟨later.dropLast, ?_⟩
    rw [← List.dropLast_append_of_ne_nil hlater, h]
  exact fun hmem => absurd (hpart.subset hmem) (by decide)

variable (chain) in
/-- The token of a chain is inserted, and until then the last default of Bitcoin is not there. -/
theorem goesAs_inserted (h : Early s) (hne : chain.tableShared ≠ chain.tableDefault)
    (hshared : (s.db .cashboxWallets).tables chain.tableShared = some [])
    (hdefault : (s.db .cashboxWallets).tables chain.tableDefault = some [])
    (hother : chain.tableShared ≠ .mBtcChainTokenDefault) :
    GoesAs env.fails (chain.insert env) ⟨s, calls⟩ insertPlan (fun s' => Early s'.store)
      fun _ _ s' => Inserted chain s s'.store := by
  refine (goesAs_insert hne hshared hdefault h ?_).mono fun _ _ s' hs => ?_
  · intro shared sharedId done later rows hdone hlater hlisted
    refine ⟨?_, fun sharedId' => ?_⟩
    · simpa using h.version
    · rw [rows_withRows]
      split
      · exact hlisted.rowsDefault_eq_nil (privateTest_not_mem hdone hlater) sharedId'
      · rw [rows_withRows, if_neg hother.symm]
        exact h.last sharedId'
  · obtain ⟨shared, rows, hrow, hlisted, hstore⟩ := hs
    rw [hstore]
    exact Inserted.of_listed hne hrow hlisted

/-- **The tokens** are inserted: until the last default is saved it is not there. -/
theorem goesAs_insertChainToken {createType : DbCreateType} {done : List DbNameType} (h : Early s)
    (hs : Created createType done s) (hdone : ∀ name, name ∈ done) :
    GoesAs env.fails (insertChainToken env) ⟨s, calls⟩
      (insertPlan >>= fun _ => insertPlan >>= fun _ => insertPlan) (fun s' => Early s'.store)
      fun _ _ s' => Initialised s'.store ∧ (s'.store.db .cashboxWallets).userVersion = version ∧
        s'.store.executed = s.executed := by
  have htable : ∀ t ∈ tablesOf .cashboxWallets, (s.db .cashboxWallets).tables t = some [] := by
    intro t ht
    rw [hs.tables, if_pos ⟨hdone _, ht⟩]
  refine (goesAs_inserted eth h (by decide) (htable _ (by decide)) (htable _ (by decide))
    (by decide)).bind fun _ _ s₁ hs₁ => ?_
  have hearly₁ := hs₁.early h (by decide) (by decide)
  refine (goesAs_inserted eee hearly₁ (by decide) ?_ ?_ (by decide)).bind fun _ _ s₂ hs₂ => ?_
  · rw [hs₁.others _ (by decide) (by decide)]
    exact htable _ (by decide)
  · rw [hs₁.others _ (by decide) (by decide)]
    exact htable _ (by decide)
  have hearly₂ := hs₂.early hearly₁ (by decide) (by decide)
  refine (goesAs_inserted btc hearly₂ (by decide) ?_ ?_ (by decide)).mono fun _ _ s₃ hs₃ => ?_
  · rw [hs₂.others _ (by decide) (by decide), hs₁.others _ (by decide) (by decide)]
    exact htable _ (by decide)
  · rw [hs₂.others _ (by decide) (by decide), hs₁.others _ (by decide) (by decide)]
    exact htable _ (by decide)
  have hexecuted : s₃.store.executed = s.executed := by
    rw [hs₃.executed, hs₂.executed, hs₁.executed]
  refine ⟨⟨fun name t ht => ?_, ?_⟩, hs₃.version.trans hearly₂.version, hexecuted⟩
  · refine hs₃.tables _ _ (hs₂.tables _ _ (hs₁.tables _ _ ?_))
    rw [hs.tables, if_pos ⟨hdone name, ht⟩]
    exact Option.some_ne_none _
  · have heee : eee.Once s₃.store := hs₃.once_of_once hs₂.once (by decide) (by decide)
    have heth : eth.Once s₃.store :=
      hs₃.once_of_once (hs₂.once_of_once hs₁.once (by decide) (by decide)) (by decide) (by decide)
    simp only [List.forall_mem_cons]
    exact ⟨heth, heee, hs₃.once, fun _ hchain => nomatch hchain⟩

end Insert

/-! ## The first start -/

section FirstStart

variable {r : InitRun}

/-- The databases in which only the version is set. -/
def Databases.versioned : Databases :=
  { Databases.fresh.setDb .cashboxWallets { Database.fresh with userVersion := version } with
    executed := [(.cashboxWallets, .setUserVersion version)] }

theorem early_versioned : Early .versioned := ⟨rfl, fun _ => rfl⟩

theorem created_versioned (createType : DbCreateType) : Created createType [] .versioned where
  tables name t := by cases name <;> rfl
  executed x := by simp [Databases.versioned]

/-- What is executed by a start that drops the tables is not what it creates. -/
theorem not_cleaned_of_drop {done : List DbNameType} {s : Databases}
    (h : Created .drop done s) (hdone : ∀ name, name ∈ done) : ¬ Cleaned .drop s.executed := by
  intro hclean
  have hmem : ∀ (rb : DbNameType) sql, (rb, sql) ∈ s.executed →
      sql = .setUserVersion version ∨
        ∃ p ∈ pairsOf rb, sql = .createTable p.1 ∨ sql = .dropTable p.2 := by
    intro rb sql hx
    rcases (h.executed _).mp hx with heq | ⟨name, _, p, hp, hx⟩
    · exact .inl (congrArg Prod.snd heq)
    · right
      simp only [statementsOf, List.mem_cons, List.not_mem_nil, or_false, Prod.mk.injEq] at hx
      rcases hx with ⟨rfl, hsql⟩ | ⟨rfl, hsql⟩
      · exact ⟨p, hp, .inl hsql⟩
      · exact ⟨p, hp, .inr hsql⟩
  have hcreated : (.cashboxWallets, .createTable .mEthChainTokenShared) ∈ s.executed := by
    refine (h.executed _).mpr (.inr ⟨_, hdone .cashboxWallets,
      (.mEthChainTokenShared, .mEeeChainTokenShared), ?_, ?_⟩)
    · decide
    · exact List.mem_cons_self
  rcases (hclean (by decide) _ _).mp hcreated with hdelete | hdrop
  · rcases hmem _ _ hdelete with heq | ⟨p, _, heq | heq⟩
    · cases heq
    · cases heq
    · cases heq
  · -- no pair has the name of this table
    rcases hmem _ _ hdrop with heq | ⟨p, hp, heq | heq⟩
    · cases heq
    · cases heq
    · have hnames : ∀ p ∈ pairsOf .cashboxWallets, p.2 ≠ .mEthChainTokenShared := by decide
      exact hnames p hp (Statement.dropTable.inj heq).symm

/-- The version of new databases is read. -/
theorem run_initTables_fresh (hfirst : r.env.fails 0 = false) :
    (initTables r.env r.createType).run ⟨.fresh, 0⟩ =
      (exec r.env .cashboxWallets (.setUserVersion version) >>= fun _ =>
        create r.env r.createType >>= fun _ => insertChainToken r.env).run ⟨.fresh, 1⟩ := by
  unfold initTables
  have hread : (query r.env.fails Error.sql fun s : Databases =>
      .ok (s.db .cashboxWallets).userVersion).run ⟨.fresh, 0⟩ = (⟨.fresh, 1⟩, .ok 0) :=
    run_query_of_not_fails hfirst
  rw [Method.run_bind_of_ok hread]
  rfl

/-- A start that cannot read or set the version changes nothing. -/
theorem step_of_fails (last) (h : r.env.fails 0 = true ∨ r.env.fails 1 = true) :
    ∃ e, step ⟨.fresh, last⟩ r = ⟨.fresh, some (r.createType, .err e)⟩ := by
  have hrun : ∃ calls, (initTables r.env r.createType).run ⟨.fresh, 0⟩ =
      (⟨.fresh, calls⟩, .err Error.sql) := by
    cases hfirst : r.env.fails 0 with
    | true =>
      unfold initTables
      exact ⟨1, Method.run_bind_of_err (run_query_of_fails hfirst)⟩
    | false =>
      have hsecond : r.env.fails 1 = true := h.resolve_left (by simp [hfirst])
      rw [run_initTables_fresh hfirst]
      exact ⟨2, Method.run_bind_of_err (run_operation_of_fails hsecond)⟩
  obtain ⟨calls, hrun⟩ := hrun
  refine ⟨Error.sql, ?_⟩
  show (_ : State) = _
  unfold step
  rw [show ({ Databases.fresh with executed := [] } : Databases) = .fresh from rfl, hrun]

theorem goesAs_first (r : InitRun) :
    GoesAs r.env.fails (create r.env r.createType >>= fun _ => insertChainToken r.env)
      ⟨.versioned, 2⟩ (initPlan r.createType) (fun s => Early s.store) fun _ _ s' =>
        Initialised s'.store ∧ (s'.store.db .cashboxWallets).userVersion = version ∧
          ∃ done s, (∀ name, name ∈ done) ∧ Created r.createType done s ∧
            s'.store.executed = s.executed := by
  refine (goesAs_create early_versioned (created_versioned r.createType)).bind fun _ _ s hs => ?_
  obtain ⟨hearly, done, hdone, hcreated⟩ := hs
  refine (goesAs_insertChainToken hearly hcreated hdone).mono fun _ _ s' hs' => ?_
  exact ⟨hs'.1, hs'.2.1, done, s.store, hdone, hcreated, hs'.2.2⟩

/-- The start that sets the version. -/
theorem step_first (last) (hfirst : r.env.fails 0 = false) (hsecond : r.env.fails 1 = false) :
    (r.Completes → ∃ s, step ⟨.fresh, last⟩ r = ⟨s, some (r.createType, .ok ())⟩ ∧ Initialised s ∧
        (s.db .cashboxWallets).userVersion = version ∧
        (Cleaned r.createType s.executed ↔ r.createType = .notExists)) ∧
      (¬ r.Completes → ∃ s result, step ⟨.fresh, last⟩ r = ⟨s, some (r.createType, result)⟩ ∧
        result ≠ .ok () ∧ Early s) := by
  have hset : (exec r.env .cashboxWallets (.setUserVersion version)).run ⟨.fresh, 1⟩ =
      (⟨.versioned, 2⟩, .ok ()) := run_operation_of_not_fails hsecond
  have hstep : step ⟨.fresh, last⟩ r =
      (fun out : Session Databases × Outcome Error Unit =>
        (⟨out.1.store, some (r.createType, out.2)⟩ : State))
        ((create r.env r.createType >>= fun _ => insertChainToken r.env).run ⟨.versioned, 2⟩) := by
    unfold step
    rw [show ({ Databases.fresh with executed := [] } : Databases) = .fresh from rfl,
      run_initTables_fresh hfirst, Method.run_bind_of_ok hset]
  rw [← goes_initPlan r hfirst hsecond]
  have hgoesAs := goesAs_first r
  constructor
  · rintro hgoes
    obtain ⟨b, hb⟩ := Outcome.isOk_iff.mp hgoes.1
    obtain ⟨a, s', hrun, _, hinit, hversion, done, s, hdone, hcreated, hexecuted⟩ :=
      hgoesAs.goes b hb hgoes.2
    refine ⟨s'.store, by rw [hstep, hrun], hinit, hversion, ?_⟩
    rw [hexecuted]
    have hclean := ((goes_initPlan r hfirst hsecond).mp hgoes).1
    cases htype : r.createType with
    | notExists => exact iff_of_true (fun hne => absurd rfl hne) rfl
    | cleanData => exact absurd htype hclean
    | drop =>
      rw [htype] at hcreated
      exact iff_of_false (not_cleaned_of_drop hcreated hdone) (by decide)
  · intro hno
    obtain ⟨hstop, hearly⟩ := hgoesAs.stops hno
    refine ⟨_, _, hstep, fun hok => ?_, hearly⟩
    rw [hok] at hstop
    cases hstop

/-- Every later start returns when it has read the version. -/
theorem step_later {s : State} (h : (s.databases.db .cashboxWallets).userVersion = version) :
    ∃ result, step s r = ⟨{ s.databases with executed := [] }, some (r.createType, result)⟩ ∧
      (result = .ok () ↔ r.env.fails 0 = false) := by
  unfold step initTables
  cases hfirst : r.env.fails 0 with
  | true =>
    rw [Method.run_bind_of_err (run_query_of_fails hfirst)]
    exact ⟨.err .sql, rfl, by simp⟩
  | false =>
    have hread : (query r.env.fails Error.sql fun s : Databases =>
        .ok (s.db .cashboxWallets).userVersion).run ⟨{ s.databases with executed := [] }, 0⟩ =
          (⟨{ s.databases with executed := [] }, 1⟩, .ok version) := by
      rw [run_query_of_not_fails hfirst]
      simp [h]
    rw [Method.run_bind_of_ok hread]
    exact ⟨.ok (), rfl, by simp⟩

end FirstStart

/-! ## All starts -/

theorem Initialised.of_db {s s' : Databases} (h : Initialised s) (hdb : s'.db = s.db) :
    Initialised s' := by
  obtain ⟨db', executed'⟩ := s'
  dsimp only at hdb
  subst hdb
  exact ⟨h.tables, h.tokens⟩

theorem cleaned_nil (createType : DbCreateType) : Cleaned createType [] := by
  intro _ name t
  simp

/-- The starts after the version is set. -/
theorem promise_later_iff {s : State} (h : (s.databases.db .cashboxWallets).userVersion = version)
    (runs : List InitRun) : (∀ pre, pre <+: runs → Promise (run step s pre)) ↔
      Promise s ∧ (Initialised s.databases ∨ ∀ r ∈ runs, r.env.fails 0 = true) := by
  induction runs generalizing s with
  | nil => simp
  | cons r runs ih =>
    obtain ⟨result, hstep, hresult⟩ := step_later (r := r) h
    have hsame : Initialised (step s r).databases ↔ Initialised s.databases := by
      rw [hstep]
      exact ⟨fun hinit => hinit.of_db rfl, fun hinit => hinit.of_db rfl⟩
    have hpromise : Promise (step s r) ↔ (r.env.fails 0 = false → Initialised s.databases) := by
      rw [← hsame, ← hresult, hstep]
      constructor
      · rintro hp rfl
        exact (hp _ rfl).1
      · intro hp createType hlast
        cases hlast
        exact ⟨hp rfl, cleaned_nil _⟩
    have hversion : ((step s r).databases.db .cashboxWallets).userVersion = version := by
      rw [hstep]
      exact h
    rw [forall_prefix_cons, ih hversion, hpromise, hsame, List.forall_mem_cons]
    refine and_congr_right fun _ => ?_
    by_cases hinit : Initialised s.databases
    · simp [hinit]
    · cases r.env.fails 0 <;> simp [hinit]

theorem promise_fresh_iff {last : Option (DbCreateType × Outcome Error Unit)}
    (hlast : ∀ createType, last ≠ some (createType, .ok ())) (runs : List InitRun) :
    (∀ pre, pre <+: runs → Promise (run step ⟨.fresh, last⟩ pre)) ↔ Restartable runs := by
  have hfresh : Promise ⟨.fresh, last⟩ := fun createType h => absurd h (hlast createType)
  induction runs generalizing last with
  | nil => simpa [Restartable] using hfresh
  | cons r runs ih =>
    rw [forall_prefix_cons, and_iff_right hfresh]
    unfold Restartable
    split
    · rename_i hfails
      obtain ⟨e, hstep⟩ := step_of_fails last (by simpa using hfails)
      rw [hstep]
      exact ih (by simp) (fun _ h => by cases h)
    · rename_i hfails
      simp only [Bool.or_eq_true, not_or, Bool.not_eq_true] at hfails
      obtain ⟨hgoes, hstops⟩ := step_first last hfails.1 hfails.2
      split
      · rename_i hcompletes
        obtain ⟨s, hstep, hinit, hversion, hclean⟩ := hgoes hcompletes
        rw [hstep, promise_later_iff hversion, ← hclean]
        constructor
        · exact fun h => (h.1 _ rfl).2
        · refine fun h => ⟨fun createType hlast => ?_, .inl hinit⟩
          cases hlast
          exact ⟨hinit, h⟩
      · rename_i hcompletes
        obtain ⟨s, result, hstep, hresult, hearly⟩ := hstops hcompletes
        rw [hstep, promise_later_iff hearly.version]
        constructor
        · exact fun h => h.2.resolve_left hearly.not_initialised
        · refine fun h => ⟨fun createType hlast => ?_, .inr h⟩
          cases hlast
          exact absurd rfl hresult

/-- **Starts, one after the other**, keep what they promise exactly if the one that sets the
version completes and drops nothing, or every later one fails when it reads the version. -/
theorem promise_run_iff (runs : List InitRun) :
    (∀ pre, pre <+: runs → Promise (run step State.fresh pre)) ↔ Restartable runs :=
  promise_fresh_iff (by simp) runs

/-- Surroundings in which one statement fails. -/
def failingAt (n : Nat) : Surroundings := ⟨fun i => i == n, fun _ _ => [], fun _ => 0⟩

/-- The first table could not be created, and the next start returns without it. -/
theorem not_promise_of_interrupted :
    ¬ ∀ runs, ∀ pre, pre <+: runs → Promise (run step State.fresh pre) := by
  intro h
  have hinit := (h [⟨failingAt 2, .notExists⟩, ⟨failingAt 200, .notExists⟩] _ List.prefix_rfl
    .notExists rfl).1
  exact hinit.tables .cashboxWallets .mWallet (by decide) rfl

end Cashbox.Wallets.InitTables
