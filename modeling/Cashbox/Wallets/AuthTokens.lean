import Cashbox.Lib.Window
import Cashbox.Wallets.Chains

/-!
# Paging through the authorised tokens

`EeeChainTokenAuth::list_by_net_type` reads the page of a number from the active tokens, and
the shared tokens from a window of all tokens whose offset is that number. What is returned
are the pairs that fit. A page is whole only where the window has each of its tokens once.
-/

namespace Cashbox.Wallets

open Cashbox.Lib

/-! ## The statements -/

/-- `order by create_time desc` -/
def orderByCreateTime {ρ : Type} (rows : List (Saved ρ)) : List (Saved ρ) :=
  rows.insertionSort fun a b => b.shared.createTime ≤ a.shared.createTime

section

variable (netType : NetType) (db : WalletsDb)

/-- The tokens of a network, the latest first. -/
def tokensOfNet : List (Saved MEeeChainTokenAuth) :=
  orderByCreateTime (db.eeeChainTokenAuth.filter fun t => t.row.netType = netType.toString)

/-- The active tokens of a network, the latest first. -/
def activeTokens : List (Saved MEeeChainTokenAuth) :=
  orderByCreateTime (db.eeeChainTokenAuth.filter fun t =>
    t.row.netType = netType.toString ∧ t.row.status = 1)

/-- `select_net_type_status_order_create_time` -/
def selectNetTypeStatusOrderCreateTime (pageNo pageSize : Nat) : List (Saved MEeeChainTokenAuth) :=
  page pageSize pageNo (activeTokens netType db)

/-- `select_left_net_type_order_create_time` -/
def selectLeftNetTypeOrderCreateTime (pageSize offset : Nat) :
    Outcome WalletError (List (Saved MEeeChainTokenShared)) :=
  decodeRows .rbatisError (window offset pageSize
    (leftJoin (fun b : Saved MEeeChainTokenAuth => b.row.chainTokenSharedId)
      (fun a => a.shared.id) db.eeeChainTokenShared (tokensOfNet netType db)))

/-- `EeeChainTokenAuth::list_by_net_type` -/
def EeeChainTokenAuth.listByNetType (startItem pageSize : Nat) :
    Outcome WalletError (List (Saved MEeeChainTokenAuth × Saved MEeeChainTokenShared)) := do
  let tokensAuth := selectNetTypeStatusOrderCreateTime netType db startItem pageSize
  let tokensShared ← selectLeftNetTypeOrderCreateTime netType db pageSize startItem
  pure (tokensAuth.flatMap fun tokenAuth =>
    (tokensShared.filter fun tokenShared =>
      tokenAuth.row.chainTokenSharedId = tokenShared.shared.id).map fun tokenShared =>
        (tokenAuth, tokenShared))

end

/-! ## Complete pages -/

section Pages

variable (netType : NetType) (pageSize : Nat) (db : WalletsDb)

/-- The rows, each with its shared token. -/
def JoinsRows (rows : List (Saved MEeeChainTokenAuth))
    (tokens : List (Saved MEeeChainTokenAuth × Saved MEeeChainTokenShared)) : Prop :=
  tokens.map Prod.fst = rows ∧
    ∀ t ∈ tokens, t.2 ∈ db.eeeChainTokenShared ∧ t.2.shared.id = t.1.row.chainTokenSharedId

/-- Every page has exactly the active tokens ranked in it, each with its shared token, so that
a walk through the pages yields every active token once. -/
structure PagesComplete : Prop where
  pages : ∀ p, 1 ≤ p → ∃ tokens,
    EeeChainTokenAuth.listByNetType netType db p pageSize = .ok tokens ∧
    JoinsRows db (page pageSize p (activeTokens netType db)) tokens
  walk : ∃ tokens, WalksTo (fun p => EeeChainTokenAuth.listByNetType netType db p pageSize) tokens ∧
    tokens.map Prod.fst = activeTokens netType db

/-- For every page, each of the tokens of the network ranked `p` to `p + pageSize - 1`, the
first being 0, has a shared token, and exactly one of them has the same shared token as an
active token of the page. -/
structure WindowsCoincide : Prop where
  shared : ∀ p, 1 ≤ p → ∀ b ∈ window p pageSize (tokensOfNet netType db),
    ∃ a ∈ db.eeeChainTokenShared, a.shared.id = b.row.chainTokenSharedId
  one : ∀ p, 1 ≤ p → ∀ a ∈ page pageSize p (activeTokens netType db),
    (window p pageSize (tokensOfNet netType db)).countP
      (fun b => b.row.chainTokenSharedId = a.row.chainTokenSharedId) = 1

end Pages

/-! ### Joins -/

section Join

variable {db : WalletsDb} {netType : NetType} {pageSize : Nat}

/-- What a window reads: a shared token for each of its tokens. -/
def ReadsWindow (netType : NetType) (pageSize : Nat) (db : WalletsDb) (p : Nat)
    (tokensShared : List (Saved MEeeChainTokenShared)) : Prop :=
  (window p pageSize (tokensOfNet netType db)).map
    (fun b => db.eeeChainTokenShared.find? fun a => a.shared.id = b.row.chainTokenSharedId) =
      tokensShared.map some

theorem selectLeft_eq_ok_iff (hkey : (db.eeeChainTokenShared.map fun a => a.shared.id).Nodup)
    {p : Nat} {tokensShared : List (Saved MEeeChainTokenShared)} :
    selectLeftNetTypeOrderCreateTime netType db pageSize p = .ok tokensShared ↔
      ReadsWindow netType pageSize db p tokensShared := by
  unfold selectLeftNetTypeOrderCreateTime ReadsWindow
  rw [leftJoin_eq_map hkey, window_map, decodeRows_eq_ok]

/-- A window is read exactly if each of its tokens has a shared token. -/
theorem exists_readsWindow_iff {p : Nat} :
    (∃ tokensShared, ReadsWindow netType pageSize db p tokensShared) ↔
      ∀ b ∈ window p pageSize (tokensOfNet netType db),
        ∃ a ∈ db.eeeChainTokenShared, a.shared.id = b.row.chainTokenSharedId := by
  unfold ReadsWindow
  induction window p pageSize (tokensOfNet netType db) with
  | nil => simp
  | cons b rows ih =>
    rw [List.map_cons, List.forall_mem_cons, ← ih]
    constructor
    · rintro ⟨tokensShared, h⟩
      cases tokensShared with
      | nil => cases h
      | cons a tokensShared =>
        obtain ⟨ha, hrest⟩ := List.cons.inj h
        have hid : a.shared.id = b.row.chainTokenSharedId := by simpa using List.find?_some ha
        exact ⟨⟨a, List.mem_of_find?_eq_some ha, hid⟩, tokensShared, hrest⟩
    · rintro ⟨⟨a, ha, hid⟩, tokensShared, hrest⟩
      have hsome : (db.eeeChainTokenShared.find? fun a =>
          a.shared.id = b.row.chainTokenSharedId).isSome := by
        rw [List.find?_isSome]
        exact ⟨a, ha, by simpa using hid⟩
      obtain ⟨a', ha'⟩ := Option.isSome_iff_exists.mp hsome
      exact ⟨a' :: tokensShared, by rw [ha', hrest, List.map_cons]⟩

namespace ReadsWindow

variable {p : Nat} {tokensShared : List (Saved MEeeChainTokenShared)}

theorem mem (h : ReadsWindow netType pageSize db p tokensShared)
    {a : Saved MEeeChainTokenShared} (ha : a ∈ tokensShared) : a ∈ db.eeeChainTokenShared := by
  have hsome : some a ∈ tokensShared.map some := List.mem_map_of_mem ha
  rw [← h] at hsome
  obtain ⟨b, -, hb⟩ := List.mem_map.mp hsome
  exact List.mem_of_find?_eq_some hb

/-- A token is found as often as the tokens of the window refer to it. -/
theorem countP_eq (h : ReadsWindow netType pageSize db p tokensShared) (id : Text) :
    tokensShared.countP (fun a => id = a.shared.id) =
      (window p pageSize (tokensOfNet netType db)).countP
        fun b => b.row.chainTokenSharedId = id := by
  revert h
  unfold ReadsWindow
  induction window p pageSize (tokensOfNet netType db) generalizing tokensShared with
  | nil =>
    intro h
    rw [List.map_eq_nil_iff.mp h.symm]
    rfl
  | cons b rows ih =>
    intro h
    cases tokensShared with
    | nil => cases h
    | cons a tokensShared =>
      obtain ⟨ha, hrest⟩ := List.cons.inj h
      have hid : a.shared.id = b.row.chainTokenSharedId := by simpa using List.find?_some ha
      rw [List.countP_cons, List.countP_cons, ih hrest, hid]
      simp only [eq_comm]

end ReadsWindow

/-! ### Pages -/

/-- The pairs that the nested loop makes of the two reads. -/
def pairs (tokensAuth : List (Saved MEeeChainTokenAuth))
    (tokensShared : List (Saved MEeeChainTokenShared)) :
    List (Saved MEeeChainTokenAuth × Saved MEeeChainTokenShared) :=
  tokensAuth.flatMap fun tokenAuth =>
    (tokensShared.filter fun tokenShared =>
      tokenAuth.row.chainTokenSharedId = tokenShared.shared.id).map fun tokenShared =>
        (tokenAuth, tokenShared)

theorem map_fst_pairs (tokensAuth : List (Saved MEeeChainTokenAuth))
    (tokensShared : List (Saved MEeeChainTokenShared)) :
    (pairs tokensAuth tokensShared).map Prod.fst = tokensAuth.flatMap fun tokenAuth =>
      List.replicate (tokensShared.countP fun a => tokenAuth.row.chainTokenSharedId = a.shared.id)
        tokenAuth := by
  unfold pairs
  rw [List.map_flatMap]
  refine List.flatMap_congr fun tokenAuth _ => ?_
  rw [List.map_map, List.countP_eq_length_filter]
  exact List.map_const'

theorem of_mem_pairs {tokensAuth : List (Saved MEeeChainTokenAuth)}
    {tokensShared : List (Saved MEeeChainTokenShared)}
    {t : Saved MEeeChainTokenAuth × Saved MEeeChainTokenShared}
    (h : t ∈ pairs tokensAuth tokensShared) :
    t.2 ∈ tokensShared ∧ t.2.shared.id = t.1.row.chainTokenSharedId := by
  obtain ⟨tokenAuth, -, ht⟩ := List.mem_flatMap.mp h
  obtain ⟨tokenShared, hmem, rfl⟩ := List.mem_map.mp ht
  obtain ⟨hshared, hid⟩ := List.mem_filter.mp hmem
  exact ⟨hshared, (of_decide_eq_true hid).symm⟩

theorem listByNetType_eq_ok_iff (hkey : (db.eeeChainTokenShared.map fun a => a.shared.id).Nodup)
    {p : Nat} {tokens : List (Saved MEeeChainTokenAuth × Saved MEeeChainTokenShared)} :
    EeeChainTokenAuth.listByNetType netType db p pageSize = .ok tokens ↔
      ∃ tokensShared, ReadsWindow netType pageSize db p tokensShared ∧
        tokens = pairs (page pageSize p (activeTokens netType db)) tokensShared := by
  unfold EeeChainTokenAuth.listByNetType
  constructor
  · intro h
    obtain ⟨tokensShared, hshared, htokens⟩ := Outcome.bind_eq_ok.mp h
    cases htokens
    exact ⟨tokensShared, (selectLeft_eq_ok_iff hkey).mp hshared, rfl⟩
  · rintro ⟨tokensShared, hshared, rfl⟩
    exact Outcome.bind_eq_ok.mpr ⟨tokensShared, (selectLeft_eq_ok_iff hkey).mpr hshared, rfl⟩

/-- The pairs are the rows exactly if each row has one partner. -/
theorem joinsRows_pairs_iff {p : Nat} {tokensShared : List (Saved MEeeChainTokenShared)}
    (h : ReadsWindow netType pageSize db p tokensShared) {rows : List (Saved MEeeChainTokenAuth)} :
    JoinsRows db rows (pairs rows tokensShared) ↔
      ∀ a ∈ rows, (window p pageSize (tokensOfNet netType db)).countP
        (fun b => b.row.chainTokenSharedId = a.row.chainTokenSharedId) = 1 := by
  have hfst : JoinsRows db rows (pairs rows tokensShared) ↔
      (pairs rows tokensShared).map Prod.fst = rows := by
    refine and_iff_left fun t ht => ?_
    obtain ⟨hmem, hid⟩ := of_mem_pairs ht
    exact ⟨h.mem hmem, hid⟩
  rw [hfst, map_fst_pairs, flatMap_replicate_eq_self_iff]
  simp only [h.countP_eq]

/-- Where the windows coincide, every page is whole. -/
theorem WindowsCoincide.pages (hkey : (db.eeeChainTokenShared.map fun a => a.shared.id).Nodup)
    (h : WindowsCoincide netType pageSize db) {p : Nat} (hp : 1 ≤ p) :
    ∃ tokens, EeeChainTokenAuth.listByNetType netType db p pageSize = .ok tokens ∧
      JoinsRows db (page pageSize p (activeTokens netType db)) tokens := by
  obtain ⟨tokensShared, hshared⟩ := exists_readsWindow_iff.mpr (h.shared p hp)
  exact ⟨_, (listByNetType_eq_ok_iff hkey).mpr ⟨tokensShared, hshared, rfl⟩,
    (joinsRows_pairs_iff hshared).mpr (h.one p hp)⟩

/-- **Pages of authorised tokens are complete** exactly if for each of them the window of the
shared tokens has its tokens once. -/
theorem pagesComplete_iff (hsize : 0 < pageSize)
    (hkey : (db.eeeChainTokenShared.map fun a => a.shared.id).Nodup) :
    PagesComplete netType pageSize db ↔ WindowsCoincide netType pageSize db := by
  constructor
  · intro h
    have hpage : ∀ p, 1 ≤ p → ∃ tokensShared, ReadsWindow netType pageSize db p tokensShared ∧
        JoinsRows db (page pageSize p (activeTokens netType db))
          (pairs (page pageSize p (activeTokens netType db)) tokensShared) := by
      intro p hp
      obtain ⟨tokens, hlist, hjoins⟩ := h.pages p hp
      obtain ⟨tokensShared, hshared, rfl⟩ := (listByNetType_eq_ok_iff hkey).mp hlist
      exact ⟨tokensShared, hshared, hjoins⟩
    constructor
    · intro p hp
      obtain ⟨tokensShared, hshared, -⟩ := hpage p hp
      exact exists_readsWindow_iff.mp ⟨tokensShared, hshared⟩
    · intro p hp
      obtain ⟨tokensShared, hshared, hjoins⟩ := hpage p hp
      exact (joinsRows_pairs_iff hshared).mp hjoins
  · intro h
    have hex : ∀ p, ∃ tokens, 1 ≤ p →
        EeeChainTokenAuth.listByNetType netType db p pageSize = .ok tokens ∧
          JoinsRows db (page pageSize p (activeTokens netType db)) tokens := by
      intro p
      by_cases hp : 1 ≤ p
      · obtain ⟨tokens, htokens⟩ := h.pages hkey hp
        exact ⟨tokens, fun _ => htokens⟩
      · exact ⟨[], fun h' => absurd h' hp⟩
    choose pages hpages using hex
    refine ⟨fun p hp => ⟨pages p, hpages p hp⟩, ?_⟩
    exact walksTo_of_pages hsize (fun p hp => (hpages p hp).1) fun p hp => (hpages p hp).2.1

end Join

/-- Three tokens of a network, the latest of them disabled, and one of another network. -/
def latestDisabled : WalletsDb :=
  ⟨[], [], [], [], [⟨⟨['d'], 0, 0⟩, default⟩, ⟨⟨['e'], 0, 0⟩, default⟩, ⟨⟨['f'], 0, 0⟩, default⟩],
    [], [], [], [], [],
    [⟨⟨['r'], 1, 0⟩, ⟨['e'], NetType.main.toString, 0, 1⟩⟩,
      ⟨⟨['s'], 3, 0⟩, ⟨['d'], NetType.main.toString, 0, 0⟩⟩,
      ⟨⟨['t'], 2, 0⟩, ⟨['f'], NetType.main.toString, 0, 1⟩⟩,
      ⟨⟨['u'], 4, 0⟩, ⟨['e'], NetType.test.toString, 0, 1⟩⟩], [], []⟩

/-- With one token on a page, the active tokens are on the pages that are one behind their
rank among all tokens. -/
theorem pagesComplete_iff_latestDisabled : PagesComplete .main 1 latestDisabled := by
  apply (pagesComplete_iff (by decide) (by decide)).mpr
  constructor
  · have hall : ∀ b ∈ tokensOfNet .main latestDisabled,
        ∃ a ∈ latestDisabled.eeeChainTokenShared, a.shared.id = b.row.chainTokenSharedId := by
      decide
    exact fun p _ b hb => hall b (List.mem_of_mem_drop (List.mem_of_mem_take hb))
  · intro p hp
    match p, hp with
    | 1, _ => decide
    | 2, _ => decide
    | p + 3, _ =>
      -- there are two active tokens
      intro a ha
      have hempty : page 1 (p + 3) (activeTokens .main latestDisabled) = [] := by
        have hlength : (activeTokens .main latestDisabled).length = 2 := by decide
        unfold page window
        rw [List.drop_eq_nil_of_le (by omega), List.take_nil]
      rw [hempty] at ha
      cases ha

/-- A network with one token. -/
def oneActiveToken : WalletsDb :=
  ⟨[], [], [], [], [⟨⟨['e'], 0, 0⟩, default⟩], [], [], [], [], [],
    [⟨⟨['t'], 0, 0⟩, ⟨['e'], NetType.main.toString, 0, 1⟩⟩], [], []⟩

/-- The first page is empty, as its window begins with the second token. -/
theorem not_pagesComplete_oneActiveToken : ¬ PagesComplete .main 1 oneActiveToken := by
  intro h
  obtain ⟨tokens, hlist, hrows, -⟩ := h.pages 1 (by decide)
  have hempty : EeeChainTokenAuth.listByNetType .main oneActiveToken 1 1 = .ok [] := by decide
  obtain rfl : tokens = [] := (Outcome.ok.inj (hempty.symm.trans hlist)).symm
  revert hrows
  decide

end Cashbox.Wallets
