import Cashbox.Wallets.ReplacedList

/-!
# Default tokens that are read back

The default tokens of a chain are replaced by one function and listed by another one. The list
of a network should be the tokens that were written for it, each once, by their positions and
with their shared tokens. The three chains list them differently: on one, disabled tokens are
listed, too; on one, the statement is no SQL; and on one, the positions fall. On all three, a
row that refers to no shared token keeps the network from being listed.
-/

namespace Cashbox.Wallets

open Cashbox.Lib TokenRow

variable {ρ τ : Type} [TokenRow ρ]

/-! ## Writing and reading -/

/-- The tables of default tokens as they are written and as they are read. -/
structure DefaultChain (ρ τ : Type) [TokenRow ρ] where
  table : TokenTable ρ
  tables : ChainTables ρ τ
  shared_eq : ∀ db, tables.shared db = (table.read db).shared
  defaults_eq : ∀ db, tables.defaults db = (table.read db).rows
  base_eq : ∀ r, tables.base r = base r

def ethDefaults : DefaultChain MEthChainTokenDefault MEthChainToken where
  table := ethDefaultTable
  tables := ethChain
  shared_eq _ := rfl
  defaults_eq _ := rfl
  base_eq _ := rfl

/-- `select_by_net_type_status_order_position` ends in `order position by desc`, which no database
reads. -/
def EeeChain.selectByNetTypeStatusOrderPosition (_ : List (Saved MEeeChainTokenDefault)) :
    Outcome WalletError (List (Saved MEeeChainTokenDefault)) := .err .rbatisError

def eeeDefaults : DefaultChain MEeeChainTokenDefault MEeeChainToken where
  table := eeeDefaultTable
  tables := { eeeChain with list := EeeChain.selectByNetTypeStatusOrderPosition }
  shared_eq _ := rfl
  defaults_eq _ := rfl
  base_eq _ := rfl

def btcDefaults : DefaultChain MBtcChainTokenDefault MBtcChainToken where
  table := btcDefaultTable
  tables := btcChain
  shared_eq _ := rfl
  defaults_eq _ := rfl
  base_eq _ := rfl

section Functions

variable (env : Surroundings) (chain : DefaultChain ρ τ)

/-- `update_default_tokens` of a chain -/
def DefaultChain.updateDefaultTokens (tokens : List (ListedToken ρ)) :
    Method (Session TokenStore) WalletError Unit := updateTokens env chain.table tokens

/-- `get_default_tokens` of a chain -/
def DefaultChain.getDefaultTokens (netType : NetType) :
    Method (Session Databases) WalletError (List (ρ × MChainTokenShared)) :=
  listByNetType env chain.tables netType

end Functions

/-- What is listed for a network is what a list of tokens says for it. -/
structure ReadsBack (tokens : List (ListedToken ρ)) (netType : Text)
    (shared : List (Saved MChainTokenShared)) (result : List (ρ × MChainTokenShared)) : Prop where
  once : (result.map fun t => t.2.symbol).Nodup
  complete : ∀ token ∈ tokens, token.netType = netType →
    token.symbol ∈ result.map fun t => t.2.symbol
  /-- A token that is listed has what the list says last. -/
  written : ∀ t ∈ result, (base t.1).netType = netType ∧ (base t.1).status = 1 ∧
    ∃ last, lastListed tokens t.2.symbol netType = some last ∧
      (base t.1).position = (base last.m.row).position ∧
      contractAddress t.1 = contractAddress last.m.row
  shared : ∀ t ∈ result, ∃ a ∈ shared, a.shared.id = (base t.1).chainTokenSharedId ∧ a.row = t.2
  sorted : result.Pairwise fun t t' => (base t.1).position ≤ (base t'.1).position

/-- The default tokens of a chain are read back as they were written. -/
def ReadsBackDefaults (env : Surroundings) (chain : DefaultChain ρ τ)
    (tokens : List (ListedToken ρ)) (s : Session TokenStore) : Prop :=
  let (s', updated) := (chain.updateDefaultTokens env tokens).run s
  updated = .ok () → ∀ netType : NetType, ∃ result,
    ((chain.getDefaultTokens env.calm netType).run ⟨s'.store.db, s'.calls⟩).2 = .ok result ∧
      ReadsBack tokens netType.toString (chain.table.read s'.store.db.walletsDb).shared result

/-! ## What is listed -/

/-- The rows of a network. -/
def TokenTables.rowsOn (tx : TokenTables ρ) (netType : Text) : List (Saved ρ) :=
  tx.rows.filter fun r => (base r.row).netType = netType

def TokenTables.activeOn (tx : TokenTables ρ) (netType : Text) : List (Saved ρ) :=
  (tx.rowsOn netType).filter fun r => (base r.row).status = 1

/-- The shared tokens of the rows of a network, or an error if one has none. -/
def TokenTables.sharedOn (tx : TokenTables ρ) (netType : Text) :
    Outcome WalletError (List (Saved MChainTokenShared)) :=
  decodeRows .rbatisError (leftJoin (fun b : Saved ρ => (base b.row).chainTokenSharedId)
    (fun a => a.shared.id) tx.shared (tx.rowsOn netType))

/-- Each row of the network refers to a shared token. -/
def TokenTables.ReferredOn (tx : TokenTables ρ) (netType : Text) : Prop :=
  Referred (fun b : Saved ρ => (base b.row).chainTokenSharedId) (fun a => a.shared.id) tx.shared
    (tx.rowsOn netType)

theorem exists_sharedOn_iff {tx : TokenTables ρ} {netType : Text} :
    (∃ tokensShared, tx.sharedOn netType = .ok tokensShared) ↔ tx.ReferredOn netType :=
  exists_decodeRows_leftJoin_iff

/-- What is listed of a row. -/
def entryOf (tokensShared : List (Saved MChainTokenShared)) (r : Saved ρ) :
    ρ × MChainTokenShared := (r.row, findShared tokensShared (base r.row).chainTokenSharedId)

theorem mem_activeOn {tx : TokenTables ρ} {netType : Text} {r : Saved ρ} :
    r ∈ tx.activeOn netType ↔
      r ∈ tx.rows ∧ (base r.row).netType = netType ∧ (base r.row).status = 1 := by
  rw [TokenTables.activeOn, TokenTables.rowsOn, List.mem_filter, List.mem_filter]
  simp [and_assoc]

section Reading

variable {env : Surroundings} {chain : DefaultChain ρ τ} {db : Databases} {tx : TokenTables ρ}

theorem defaultsOf_eq (hread : chain.table.read db.walletsDb = tx) (netType : NetType) :
    chain.tables.defaultsOf netType db.walletsDb = tx.rowsOn netType.toString := by
  unfold ChainTables.defaultsOf TokenTables.rowsOn
  rw [chain.defaults_eq, hread]
  simp only [chain.base_eq]

theorem sharedOf_eq (hread : chain.table.read db.walletsDb = tx) (netType : NetType) :
    chain.tables.sharedOf netType db.walletsDb = tx.sharedOn netType.toString := by
  unfold ChainTables.sharedOf TokenTables.sharedOn
  rw [defaultsOf_eq hread, chain.shared_eq, hread]
  simp only [chain.base_eq]

/-- Where nothing fails, the rows of the network are listed with their shared tokens. -/
theorem run_getDefaultTokens (hread : chain.table.read db.walletsDb = tx) (netType : NetType)
    (calls : Nat) :
    ((chain.getDefaultTokens env.calm netType).run ⟨db, calls⟩).2 =
      tx.sharedOn netType.toString >>= fun tokensShared =>
        chain.tables.list (tx.rowsOn netType.toString) >>= fun rows =>
          pure (rows.map (entryOf tokensShared)) := by
  rw [← defaultsOf_eq hread, ← sharedOf_eq hread]
  have hshared : (query env.calm.fails WalletError.rbatisError fun db : Databases =>
      chain.tables.sharedOf netType db.walletsDb).run ⟨db, calls⟩ =
        (⟨db, calls + 1⟩, chain.tables.sharedOf netType db.walletsDb) :=
    run_query_of_not_fails rfl
  have hdefault : (query env.calm.fails WalletError.rbatisError fun db : Databases =>
      chain.tables.list (chain.tables.defaultsOf netType db.walletsDb)).run ⟨db, calls + 1⟩ =
        (⟨db, calls + 1 + 1⟩, chain.tables.list (chain.tables.defaultsOf netType db.walletsDb)) :=
    run_query_of_not_fails rfl
  unfold DefaultChain.getDefaultTokens listByNetType
  rw [Method.run_bind, hshared]
  cases chain.tables.sharedOf netType db.walletsDb with
  | err e => rfl
  | panic why => rfl
  | ok tokensShared =>
    have hentry : entryOf tokensShared = fun t : Saved ρ =>
        (t.row, findShared tokensShared (chain.tables.base t.row).chainTokenSharedId) := by
      funext t
      rw [entryOf, chain.base_eq]
    dsimp only
    rw [Method.run_bind, hdefault, Outcome.ok_bind, hentry]
    cases chain.tables.list (chain.tables.defaultsOf netType db.walletsDb) <;> rfl

omit chain db in
/-- The shared token of a row is found. -/
theorem findShared_sharedOn {netType : Text} {tokensShared : List (Saved MChainTokenShared)}
    (hshared : tx.sharedOn netType = .ok tokensShared)
    (hkey : (tx.shared.map fun a => a.shared.id).Nodup) {r : Saved ρ}
    (hr : r ∈ tx.rowsOn netType) {a : Saved MChainTokenShared} (ha : a ∈ tx.shared)
    (hid : a.shared.id = (base r.row).chainTokenSharedId) :
    findShared tokensShared (base r.row).chainTokenSharedId = a.row := by
  have hmem : ∀ b, b ∈ tokensShared.filter
      (fun b => b.shared.id = (base r.row).chainTokenSharedId) ↔ b = a := by
    intro b
    rw [List.mem_filter, mem_of_decodeRows_leftJoin hshared, decide_eq_true_iff]
    constructor
    · rintro ⟨⟨hb, _⟩, hbid⟩
      exact List.inj_on_of_nodup_map hkey hb ha (hbid.trans hid.symm)
    · rintro rfl
      exact ⟨⟨ha, r, hr, hid⟩, hid⟩
  have hne := List.ne_nil_of_mem ((hmem a).mpr rfl)
  rw [findShared, List.getLast?_eq_some_getLast hne, (hmem _).mp (List.getLast_mem hne)]
  rfl

end Reading

/-! ## What is written -/

/-- The items of a network with a symbol have one identifier. -/
def ConsistentOn (items : List (Listing ρ)) (netType : Text) : Prop :=
  ∀ i ∈ items, ∀ j ∈ items, i.token.netType = netType → j.token.netType = netType →
    i.token.symbol = j.token.symbol → i.id = j.id

section Written

variable {env : Surroundings} {table : TokenTable ρ} {calls : Nat} {tokens : List (ListedToken ρ)}
  {tx : TokenTables ρ} {netType : Text} {tokensShared : List (Saved MChainTokenShared)}

/-- An active row is that of an item. -/
theorem exists_item_of_active {r : Saved ρ}
    (hr : r ∈ (tablesAfter env table calls tokens tx).activeOn netType) :
    ∃ i ∈ itemsOf env table calls tokens tx, i.token.netType = netType ∧
      rowKey r = (rowUpsert env).keyOf i := by
  obtain ⟨hr, hnet, hstatus⟩ := mem_activeOn.mp hr
  have hkey : rowKey r ∈ (itemsOf env table calls tokens tx).map (rowUpsert env).keyOf := by
    by_contra hnot
    rw [disabled_of_not_mem hr hnot] at hstatus
    exact absurd hstatus (by decide)
  obtain ⟨i, hi, hik⟩ := List.mem_map.mp hkey
  exact ⟨i, hi, (congrArg Prod.snd hik).trans hnet, hik.symm⟩

variable (hdraws : env.DrawsOnce) (htidy : Tidy env calls tx)
  (hfind : ∀ r ∈ (tablesAfter env table calls tokens tx).rowsOn netType,
    ∀ a ∈ (tablesAfter env table calls tokens tx).shared,
      a.shared.id = (base r.row).chainTokenSharedId →
        findShared tokensShared (base r.row).chainTokenSharedId = a.row)
include hdraws htidy hfind

/-- What is listed of an active row is the shared token of its item. -/
theorem entryOf_active {r : Saved ρ} {i : Listing ρ}
    (hr : r ∈ (tablesAfter env table calls tokens tx).activeOn netType)
    (hi : i ∈ itemsOf env table calls tokens tx) (hkey : rowKey r = (rowUpsert env).keyOf i) :
    (entryOf tokensShared r).2.symbol = i.token.symbol ∧
      ∃ a ∈ (tablesAfter env table calls tokens tx).shared,
        a.shared.id = (base r.row).chainTokenSharedId ∧ a.row = (entryOf tokensShared r).2 := by
  obtain ⟨a, ha, hai⟩ := exists_shared hi
  have hid : a.shared.id = (base r.row).chainTokenSharedId :=
    hai.trans (congrArg Prod.fst hkey).symm
  have hentry : (entryOf tokensShared r).2 = a.row :=
    hfind r (List.mem_filter.mp hr).1 a ha hid
  rw [hentry]
  exact ⟨symbol_of_new hdraws htidy hi a ha hai, a, ha, hid, rfl⟩

variable (hone : ∀ token ∈ tokens, OneRow tx token)
include hone

/-- Each item has an active row. -/
theorem exists_active {i : Listing ρ} (hi : i ∈ itemsOf env table calls tokens tx)
    (hnet : i.token.netType = netType) :
    ∃ r ∈ (tablesAfter env table calls tokens tx).activeOn netType,
      rowKey r = (rowUpsert env).keyOf i ∧
        (entryOf tokensShared r).2.symbol = i.token.symbol := by
  obtain ⟨r, hr⟩ := exists_under_eq htidy hone hi
  obtain ⟨hmem, hkey⟩ := Upsert.mem_under.mp (hr ▸ List.mem_singleton_self r)
  have hactive : r ∈ (tablesAfter env table calls tokens tx).activeOn netType :=
    mem_activeOn.mpr ⟨hmem, (congrArg Prod.snd hkey).trans hnet,
      status_of_mem hmem (List.mem_map.mpr ⟨i, hi, hkey.symm⟩)⟩
  exact ⟨r, hactive, hkey, (entryOf_active hdraws htidy hfind hactive hi hkey).1⟩

/-- Rows that are listed with one symbol are one row. -/
theorem eq_of_symbol (hsame : ConsistentOn (itemsOf env table calls tokens tx) netType)
    {r r' : Saved ρ} (hr : r ∈ (tablesAfter env table calls tokens tx).activeOn netType)
    (hr' : r' ∈ (tablesAfter env table calls tokens tx).activeOn netType)
    (hsymbol : (entryOf tokensShared r).2.symbol = (entryOf tokensShared r').2.symbol) :
    r = r' := by
  obtain ⟨i, hi, hnet, hkey⟩ := exists_item_of_active hr
  obtain ⟨i', hi', hnet', hkey'⟩ := exists_item_of_active hr'
  rw [(entryOf_active hdraws htidy hfind hr hi hkey).1,
    (entryOf_active hdraws htidy hfind hr' hi' hkey').1] at hsymbol
  have hid := hsame i hi i' hi' hnet hnet' hsymbol
  have hkeys : (rowUpsert env).keyOf i' = (rowUpsert env).keyOf i :=
    Prod.ext hid.symm (hnet'.trans hnet.symm)
  obtain ⟨q, hq⟩ := exists_under_eq htidy hone hi
  have hrq : r = q := List.mem_singleton.mp
    (hq ▸ Upsert.mem_under.mpr ⟨(mem_activeOn.mp hr).1, hkey⟩)
  have hrq' : r' = q := List.mem_singleton.mp
    (hq ▸ Upsert.mem_under.mpr ⟨(mem_activeOn.mp hr').1, hkey'.trans hkeys⟩)
  rw [hrq, hrq']

omit hfind hone in
/-- A row has what the list says last. -/
theorem written_of_active (hsame : ConsistentOn (itemsOf env table calls tokens tx) netType)
    {r : Saved ρ} {i : Listing ρ}
    (hr : r ∈ (tablesAfter env table calls tokens tx).activeOn netType)
    (hi : i ∈ itemsOf env table calls tokens tx) (hnet : i.token.netType = netType)
    (hkey : rowKey r = (rowUpsert env).keyOf i) :
    ∃ last, lastListed tokens i.token.symbol netType = some last ∧
      (base r.row).position = (base last.m.row).position ∧
      contractAddress r.row = contractAddress last.m.row := by
  obtain ⟨last, pre, hlast⟩ := Upsert.exists_last (u := rowUpsert env) (List.mem_map_of_mem hi)
  have hwrote := wrote_of_mem hlast r (Upsert.mem_under.mpr ⟨(mem_activeOn.mp hr).1, hkey⟩)
  have hlisted := lastListed_eq hdraws htidy hi
    (fun j hj hjnet hsymbol => hsame j hj i hi (hjnet.trans hnet) hnet hsymbol) hlast
  rw [hnet] at hlisted
  refine ⟨last.token, hlisted, ?_, hwrote.contractAddress⟩
  rw [hwrote.base]

omit hfind hone in
/-- The place of a row is that of the last token. -/
theorem place_of_active (hsame : ConsistentOn (itemsOf env table calls tokens tx) netType)
    {r : Saved ρ} {i : Listing ρ}
    (hr : r ∈ (tablesAfter env table calls tokens tx).activeOn netType)
    (hi : i ∈ itemsOf env table calls tokens tx) (hnet : i.token.netType = netType)
    (hkey : rowKey r = (rowUpsert env).keyOf i) :
    ((lastListed tokens i.token.symbol netType).map fun last => (base last.m.row).position) =
      some (base r.row).position := by
  obtain ⟨last, hlast, hplace, _⟩ := written_of_active hdraws htidy hsame hr hi hnet hkey
  rw [hlast, hplace]
  rfl

omit hfind hone in
theorem nodup_activeOn : ((tablesAfter env table calls tokens tx).activeOn netType).Nodup := by
  have htidy' : Tidy env (calls + 2 + 4 * tokens.length) (tablesAfter env table calls tokens tx) :=
    tidy_tablesAfter hdraws htidy le_rfl
  exact ((List.Nodup.of_map _ htidy'.rowsKey).filter _).filter _

/-- The active rows of a network, in some order, are what the list says. -/
theorem readsBack_of_perm (hsame : ConsistentOn (itemsOf env table calls tokens tx) netType)
    {rows : List (Saved ρ)}
    (hperm : rows.Perm ((tablesAfter env table calls tokens tx).activeOn netType))
    (hsorted : rows.Pairwise fun r r' => (base r.row).position ≤ (base r'.row).position) :
    ReadsBack tokens netType (tablesAfter env table calls tokens tx).shared
      (rows.map (entryOf tokensShared)) := by
  have hactive : ∀ r ∈ rows, r ∈ (tablesAfter env table calls tokens tx).activeOn netType :=
    fun r hr => hperm.mem_iff.mp hr
  constructor
  · rw [List.map_map]
    exact List.Nodup.map_on (fun r hr r' hr' hsymbol =>
      eq_of_symbol hdraws htidy hfind hone hsame (hactive r hr) (hactive r' hr') hsymbol)
      (hperm.nodup_iff.mpr (nodup_activeOn hdraws htidy))
  · intro token ht hnet
    obtain ⟨i, hi, rfl⟩ : ∃ i ∈ itemsOf env table calls tokens tx, i.token = token :=
      exists_item ht
    obtain ⟨r, hr, _, hsymbol⟩ := exists_active hdraws htidy hfind hone hi hnet
    rw [List.map_map]
    exact List.mem_map.mpr ⟨r, hperm.mem_iff.mpr hr, hsymbol⟩
  · intro t ht
    obtain ⟨r, hr, rfl⟩ := List.mem_map.mp ht
    have hr := hactive r hr
    obtain ⟨i, hi, hnet, hkey⟩ := exists_item_of_active hr
    obtain ⟨_, hrnet, hstatus⟩ := mem_activeOn.mp hr
    refine ⟨hrnet, hstatus, ?_⟩
    rw [(entryOf_active hdraws htidy hfind hr hi hkey).1]
    exact written_of_active hdraws htidy hsame hr hi hnet hkey
  · intro t ht
    obtain ⟨r, hr, rfl⟩ := List.mem_map.mp ht
    have hr := hactive r hr
    obtain ⟨i, hi, _, hkey⟩ := exists_item_of_active hr
    exact (entryOf_active hdraws htidy hfind hr hi hkey).2
  · exact List.pairwise_map.mpr hsorted

/-- Tokens that are listed once have one identifier. -/
theorem consistentOn_of_once {rows : List (Saved ρ)}
    (hperm : rows.Perm ((tablesAfter env table calls tokens tx).activeOn netType))
    (honce : ((rows.map (entryOf tokensShared)).map fun t => t.2.symbol).Nodup) :
    ConsistentOn (itemsOf env table calls tokens tx) netType := by
  intro i hi j hj hneti hnetj hsymbol
  obtain ⟨r, hr, hkey, hrsymbol⟩ := exists_active hdraws htidy hfind hone hi hneti
  obtain ⟨r', hr', hkey', hrsymbol'⟩ := exists_active hdraws htidy hfind hone hj hnetj
  rw [List.map_map] at honce
  have heq : r = r' := List.inj_on_of_nodup_map honce (hperm.mem_iff.mpr hr)
    (hperm.mem_iff.mpr hr') ((hrsymbol.trans hsymbol).trans hrsymbol'.symm)
  rw [← heq, hkey] at hkey'
  exact congrArg Prod.fst hkey'

end Written

/-! ## The three lists -/

section Sorting

variable {α : Type} (f : α → Int64) (l : List α)

theorem pairwise_ascending :
    (l.insertionSort fun a b => f a ≤ f b).Pairwise fun a b => f a ≤ f b := by
  have : Std.Total fun a b => f a ≤ f b := ⟨fun _ _ => Int64.le_total _ _⟩
  have : IsTrans α fun a b => f a ≤ f b := ⟨fun _ _ _ => Int64.le_trans⟩
  exact List.pairwise_insertionSort _ l

theorem pairwise_descending :
    (l.insertionSort fun a b => f b ≤ f a).Pairwise fun a b => f b ≤ f a := by
  have : Std.Total fun a b => f b ≤ f a := ⟨fun _ _ => Int64.le_total _ _⟩
  have : IsTrans α fun a b => f b ≤ f a := ⟨fun _ _ _ h h' => Int64.le_trans h' h⟩
  exact List.pairwise_insertionSort _ l

end Sorting

/-- The list of a chain is what the list of tokens says. -/
def ListReadsBack (list : List (Saved ρ) → Outcome WalletError (List (Saved ρ)))
    (tokens : List (ListedToken ρ)) (tx : TokenTables ρ) (netType : Text)
    (tokensShared : List (Saved MChainTokenShared)) : Prop :=
  ∃ rows, list (tx.rowsOn netType) = .ok rows ∧
    ReadsBack tokens netType tx.shared (rows.map (entryOf tokensShared))

/-- Both tokens have the same place on the network. -/
def SamePlace (tokens : List (ListedToken ρ)) (netType symbol symbol' : Text) : Prop :=
  ((lastListed tokens symbol netType).map fun last => (base last.m.row).position) =
    (lastListed tokens symbol' netType).map fun last => (base last.m.row).position

section Lists

variable {env : Surroundings} {calls : Nat} {netType : Text}
  {tokensShared : List (Saved MChainTokenShared)}

/-- All rows are listed. -/
theorem ethList_iff {table : TokenTable MEthChainTokenDefault}
    {tokens : List (ListedToken MEthChainTokenDefault)} {tx : TokenTables MEthChainTokenDefault}
    (hdraws : env.DrawsOnce) (htidy : Tidy env calls tx)
    (hfind : ∀ r ∈ (tablesAfter env table calls tokens tx).rowsOn netType,
      ∀ a ∈ (tablesAfter env table calls tokens tx).shared,
        a.shared.id = (base r.row).chainTokenSharedId →
          findShared tokensShared (base r.row).chainTokenSharedId = a.row)
    (hone : ∀ token ∈ tokens, OneRow tx token)
    (hsame : ConsistentOn (itemsOf env table calls tokens tx) netType) :
    ListReadsBack EthChain.list tokens (tablesAfter env table calls tokens tx) netType
        tokensShared ↔
      ∀ r ∈ (tablesAfter env table calls tokens tx).rowsOn netType, (base r.row).status = 1 := by
  constructor
  · rintro ⟨rows, hlist, hreads⟩ r hr
    obtain rfl := (Outcome.ok.inj hlist).symm
    have hmem : r ∈ ((tablesAfter env table calls tokens tx).rowsOn netType).insertionSort
        fun a b => a.row.position ≤ b.row.position := (List.mem_insertionSort _).mpr hr
    exact (hreads.written _ (List.mem_map_of_mem hmem)).2.1
  · intro hstatus
    have hactive : (tablesAfter env table calls tokens tx).activeOn netType =
        (tablesAfter env table calls tokens tx).rowsOn netType :=
      List.filter_eq_self.mpr fun r hr => decide_eq_true (hstatus r hr)
    refine ⟨_, rfl, readsBack_of_perm hdraws htidy hfind hone hsame ?_ ?_⟩
    · rw [hactive]
      exact List.perm_insertionSort ..
    · exact pairwise_ascending (fun r : Saved MEthChainTokenDefault => (base r.row).position) _

section Base

variable {table : TokenTable MChainTokenDefault} {tokens : List (ListedToken MChainTokenDefault)}
  {tx : TokenTables MChainTokenDefault} (hdraws : env.DrawsOnce) (htidy : Tidy env calls tx)
  (hfind : ∀ r ∈ (tablesAfter env table calls tokens tx).rowsOn netType,
    ∀ a ∈ (tablesAfter env table calls tokens tx).shared,
      a.shared.id = (base r.row).chainTokenSharedId →
        findShared tokensShared (base r.row).chainTokenSharedId = a.row)
  (hone : ∀ token ∈ tokens, OneRow tx token)
include hdraws htidy hfind hone

/-- Rows are listed by falling positions. -/
theorem btcList_iff :
    ListReadsBack BtcChain.list tokens (tablesAfter env table calls tokens tx) netType
        tokensShared ↔
      ConsistentOn (itemsOf env table calls tokens tx) netType ∧
        ∀ token ∈ tokens, ∀ token' ∈ tokens, token.netType = netType → token'.netType = netType →
          SamePlace tokens netType token.symbol token'.symbol := by
  have hperm : (((tablesAfter env table calls tokens tx).activeOn netType).insertionSort
      fun a b => b.row.position ≤ a.row.position).Perm
        ((tablesAfter env table calls tokens tx).activeOn netType) := List.perm_insertionSort ..
  have hlist : BtcChain.list ((tablesAfter env table calls tokens tx).rowsOn netType) =
      .ok (((tablesAfter env table calls tokens tx).activeOn netType).insertionSort
        fun a b => b.row.position ≤ a.row.position) := rfl
  have hfalls := pairwise_descending (fun r : Saved MChainTokenDefault => r.row.position)
    ((tablesAfter env table calls tokens tx).activeOn netType)
  rw [ListReadsBack, hlist]
  generalize hrows : ((tablesAfter env table calls tokens tx).activeOn netType).insertionSort
    (fun a b => b.row.position ≤ a.row.position) = rows at hperm hfalls
  constructor
  · rintro ⟨_, hok, hreads⟩
    cases hok
    have hsame := consistentOn_of_once hdraws htidy hfind hone hperm hreads.once
    refine ⟨hsame, fun token ht token' ht' hnet hnet' => ?_⟩
    -- positions that rise and fall are equal
    have hequal : rows.Pairwise fun r r' => r.row.position = r'.row.position :=
      ((List.pairwise_map.mp hreads.sorted).and hfalls).imp fun h => Int64.le_antisymm h.1 h.2
    have hsymm : Std.Symm fun r r' : Saved MChainTokenDefault =>
        r.row.position = r'.row.position := ⟨fun _ _ h => h.symm⟩
    obtain ⟨i, hi, rfl⟩ : ∃ i ∈ itemsOf env table calls tokens tx, i.token = token :=
      exists_item ht
    obtain ⟨i', hi', rfl⟩ : ∃ i ∈ itemsOf env table calls tokens tx, i.token = token' :=
      exists_item ht'
    obtain ⟨r, hr, hkey, _⟩ := exists_active hdraws htidy hfind hone hi hnet
    obtain ⟨r', hr', hkey', _⟩ := exists_active hdraws htidy hfind hone hi' hnet'
    rw [SamePlace, place_of_active hdraws htidy hsame hr hi hnet hkey,
      place_of_active hdraws htidy hsame hr' hi' hnet' hkey']
    have hplace := List.Pairwise.forall_of_forall
      (R := fun r r' : Saved MChainTokenDefault => r.row.position = r'.row.position)
      (fun _ _ => rfl) hequal (hperm.mem_iff.mpr hr) (hperm.mem_iff.mpr hr')
    exact congrArg some hplace
  · rintro ⟨hsame, hplaces⟩
    refine ⟨rows, rfl, readsBack_of_perm hdraws htidy hfind hone hsame hperm ?_⟩
    refine List.pairwise_of_forall_mem_list fun r hr r' hr' => ?_
    have hr := hperm.mem_iff.mp hr
    have hr' := hperm.mem_iff.mp hr'
    obtain ⟨i, hi, hnet, hkey⟩ := exists_item_of_active hr
    obtain ⟨i', hi', hnet', hkey'⟩ := exists_item_of_active hr'
    have hplace := hplaces _ (token_mem hi) _ (token_mem hi') hnet hnet'
    rw [SamePlace, place_of_active hdraws htidy hsame hr hi hnet hkey,
      place_of_active hdraws htidy hsame hr' hi' hnet' hkey'] at hplace
    exact Int64.le_of_eq (Option.some.inj hplace)

end Base

end Lists

/-! ## Tables and lists before -/

section Before

variable {env : Surroundings} {table : TokenTable ρ} {calls : Nat} {tokens : List (ListedToken ρ)}
  {tx : TokenTables ρ} {netType : Text}

/-- Where shared tokens are looked up in the transaction, a symbol has one identifier. -/
theorem consistentOn_of_inTx (hinTx : table.inTx = true) :
    ConsistentOn (itemsOf env table calls tokens tx) netType := by
  intro i hi j hj _ _ hsymbol
  obtain ⟨k, token, _, rfl⟩ := mem_itemsOf.mp hi
  obtain ⟨k', token', _, rfl⟩ := mem_itemsOf.mp hj
  exact listingId_of_inTx hinTx hsymbol k k'

/-- Each row of the network that is there is listed. -/
def AllListed (tokens : List (ListedToken ρ)) (tx : TokenTables ρ) (netType : Text) : Prop :=
  ∀ r ∈ tx.rowsOn netType, ∃ token ∈ tokens, token.netType = netType ∧
    ∃ a ∈ tx.shared, a.shared.id = (base r.row).chainTokenSharedId ∧
      a.row.symbol = token.symbol

/-- Each token of the list for the network was there before, or is listed once for it. -/
def KnownOrOnce (tokens : List (ListedToken ρ)) (tx : TokenTables ρ) (netType : Text) : Prop :=
  ∀ token ∈ tokens, token.netType = netType → (∃ a ∈ tx.shared, a.row.symbol = token.symbol) ∨
    (tokens.filter fun t => (t.symbol, t.netType) = (token.symbol, netType)).length ≤ 1

theorem AllListed.referredOn (h : AllListed tokens tx netType) : tx.ReferredOn netType := by
  intro r hr
  obtain ⟨_, _, _, a, ha, hid, _⟩ := h r hr
  exact ⟨a, ha, hid⟩

variable (htidy : Tidy env calls tx)
include htidy

/-- The identifier of an item that a row refers to is that of a shared token which is there. -/
theorem exists_shared_of_ref {r : Saved ρ} (hr : r ∈ tx.rows) {i : Listing ρ}
    (hi : i ∈ itemsOf env table calls tokens tx)
    (hid : (base r.row).chainTokenSharedId = i.id) :
    ∃ a ∈ tx.shared, a.row.symbol = i.token.symbol ∧
      a.shared.id = (base r.row).chainTokenSharedId := by
  obtain ⟨k, token, htoken, rfl⟩ := mem_itemsOf.mp hi
  rcases listingId_eq env table (disableAll tx) (calls + 2) (tokens.map ListedToken.symbol) k
    token.symbol with ⟨a, ha, hsymbol, hida⟩ | ⟨_, hnew⟩
  · exact ⟨a, ha, hsymbol, hida.symm.trans hid.symm⟩
  · exact absurd (hid.trans hnew) (htidy.refs r hr _ (by omega))

/-- The rows of a network refer to shared tokens exactly if they did before. -/
theorem referredOn_tablesAfter :
    (tablesAfter env table calls tokens tx).ReferredOn netType ↔ tx.ReferredOn netType := by
  constructor
  · intro h r hr
    obtain ⟨hr, hnet⟩ := List.mem_filter.mp hr
    have hold : rowKey r ∈ (disableAll tx).rows.map (rowUpsert env).key :=
      List.mem_map.mpr ⟨_, List.mem_map_of_mem hr, rowKey_setStatus 0 r⟩
    obtain ⟨r', hr', hkey⟩ := List.mem_map.mp (Upsert.mem_map_key_all.mpr (.inl hold))
    have hkey : rowKey r' = rowKey r := hkey
    have hnet' : (base r'.row).netType = netType :=
      (congrArg Prod.snd hkey).trans (of_decide_eq_true hnet)
    obtain ⟨a, ha, hid⟩ := h r' (List.mem_filter.mpr ⟨hr', decide_eq_true hnet'⟩)
    have hid : a.shared.id = (base r.row).chainTokenSharedId :=
      hid.trans (congrArg Prod.fst hkey)
    rcases (Upsert.mem_map_key_all (u := sharedUpsert env ρ)).mp (List.mem_map_of_mem ha) with
      hshared | hitem
    · obtain ⟨b, hb, hbid⟩ := List.mem_map.mp hshared
      exact ⟨b, hb, hbid.trans hid⟩
    · obtain ⟨i, hi, hiid⟩ := List.mem_map.mp hitem
      obtain ⟨b, hb, _, hbid⟩ := exists_shared_of_ref htidy hr hi (hid.symm.trans hiid.symm)
      exact ⟨b, hb, hbid⟩
  · intro h r hr
    obtain ⟨hr, hnet⟩ := List.mem_filter.mp hr
    rcases Upsert.mem_map_key_all.mp (List.mem_map_of_mem hr) with hold | hitem
    · obtain ⟨r₀, hr₀, hkey⟩ := List.mem_map.mp hold
      obtain ⟨q, hq, rfl⟩ := List.mem_map.mp hr₀
      have hqkey : rowKey q = rowKey r := (rowKey_setStatus 0 q).symm.trans hkey
      have hqnet : (base q.row).netType = netType :=
        (congrArg Prod.snd hqkey).trans (of_decide_eq_true hnet)
      obtain ⟨a, ha, hid⟩ := h q (List.mem_filter.mpr ⟨hq, decide_eq_true hqnet⟩)
      obtain ⟨b, hb, hbid⟩ := List.mem_map.mp ((Upsert.mem_map_key_all
        (u := sharedUpsert env ρ)).mpr (.inl (List.mem_map_of_mem ha)))
      exact ⟨b, hb, hbid.trans (hid.trans (congrArg Prod.fst hqkey))⟩
    · obtain ⟨i, hi, hikey⟩ := List.mem_map.mp hitem
      obtain ⟨a, ha, hid⟩ := exists_shared hi
      exact ⟨a, ha, hid.trans (congrArg Prod.fst hikey)⟩

variable (hone : ∀ token ∈ tokens, OneRow tx token)
include hone

theorem allListed_iff :
    (∀ r ∈ (tablesAfter env table calls tokens tx).rowsOn netType, (base r.row).status = 1) ↔
      AllListed tokens tx netType := by
  constructor
  · intro hstatus r hr
    obtain ⟨hr, hnet⟩ := List.mem_filter.mp hr
    have hnet := of_decide_eq_true hnet
    -- its key is still there
    have hold : rowKey r ∈ (disableAll tx).rows.map (rowUpsert env).key :=
      List.mem_map.mpr ⟨_, List.mem_map_of_mem hr, rowKey_setStatus 0 r⟩
    obtain ⟨r', hr', hkey⟩ := List.mem_map.mp (Upsert.mem_map_key_all.mpr (.inl hold))
    have hkey : rowKey r' = rowKey r := hkey
    have hnet' : (base r'.row).netType = netType := (congrArg Prod.snd hkey).trans hnet
    have hr' : r' ∈ (tablesAfter env table calls tokens tx).rows := hr'
    have hactive := mem_activeOn.mpr
      ⟨hr', hnet', hstatus r' (List.mem_filter.mpr ⟨hr', decide_eq_true hnet'⟩)⟩
    obtain ⟨i, hi, hinet, hikey⟩ := exists_item_of_active hactive
    have hid : (base r.row).chainTokenSharedId = i.id := congrArg Prod.fst (hkey.symm.trans hikey)
    obtain ⟨a, ha, hsymbol, haid⟩ := exists_shared_of_ref htidy hr hi hid
    exact ⟨i.token, token_mem hi, hinet, a, ha, haid, hsymbol⟩
  · intro hlisted r hr
    obtain ⟨hr, hnet⟩ := List.mem_filter.mp hr
    have hnet := of_decide_eq_true hnet
    by_cases hkey : rowKey r ∈ (itemsOf env table calls tokens tx).map (rowUpsert env).keyOf
    · exact status_of_mem hr hkey
    · -- it was there before
      have hold : rowKey r ∈ (disableAll tx).rows.map (rowUpsert env).key :=
        (Upsert.mem_map_key_all.mp (List.mem_map_of_mem hr)).resolve_right hkey
      obtain ⟨r₀, hr₀, hkey₀⟩ := List.mem_map.mp hold
      obtain ⟨q, hq, rfl⟩ := List.mem_map.mp hr₀
      have hqkey : rowKey q = rowKey r := (rowKey_setStatus 0 q).symm.trans hkey₀
      have hqnet : (base q.row).netType = netType := (congrArg Prod.snd hqkey).trans hnet
      obtain ⟨token, ht, htnet, a, ha, hid, hsymbol⟩ :=
        hlisted q (List.mem_filter.mpr ⟨hq, decide_eq_true hqnet⟩)
      obtain ⟨i, hi, rfl⟩ : ∃ i ∈ itemsOf env table calls tokens tx, i.token = token :=
        exists_item ht
      have hai := (symbol_iff_old htidy hone hi a ha).mp hsymbol
      refine absurd (List.mem_map.mpr ⟨i, hi, ?_⟩) hkey
      exact (Prod.ext (hai.symm.trans hid) (htnet.trans hqnet.symm)).trans hqkey

omit htidy in
theorem knownOrOnce_iff (hdraws : env.DrawsOnce) (hinTx : table.inTx = false) :
    ConsistentOn (itemsOf env table calls tokens tx) netType ↔ KnownOrOnce tokens tx netType := by
  constructor
  · intro hsame token ht hnet
    by_cases hold : ∃ a ∈ tx.shared, a.row.symbol = token.symbol
    · exact .inl hold
    · refine .inr ?_
      by_contra hmany
      -- each of its places has an identifier of its own
      obtain ⟨k, k', t, t', hlt, htoken, htoken', hsymbol, hsymbol'⟩ :=
        (two_le_length_filter_iff (f := fun t : ListedToken ρ => (t.symbol, t.netType))).mp
          (Nat.lt_of_not_le hmany)
      obtain ⟨hs, hn⟩ := Prod.mk.inj hsymbol
      obtain ⟨hs', hn'⟩ := Prod.mk.inj hsymbol'
      have hid := hsame _ (mem_itemsOf.mpr ⟨k, t, htoken, rfl⟩) _
        (mem_itemsOf.mpr ⟨k', t', htoken', rfl⟩) hn hn' (hs.trans hs'.symm)
      have hdrawn : ∀ k {symbol : Text}, symbol = token.symbol →
          listingId env table (disableAll tx) (calls + 2) (tokens.map ListedToken.symbol) k
            symbol = env.uuid (calls + 2 + 4 * k + 1) 0 := by
        rintro k symbol rfl
        rcases listingId_eq env table (disableAll tx) (calls + 2)
          (tokens.map ListedToken.symbol) k token.symbol with ⟨a, ha, hsym, _⟩ | ⟨_, hid⟩
        · exact absurd ⟨a, ha, hsym⟩ hold
        · rwa [hinTx, if_neg Bool.false_ne_true] at hid
      have hdraw := hdraws.injective _ _
        ((hdrawn k hs).symm.trans (hid.trans (hdrawn k' hs')))
      omega
  · intro hknown i hi j hj hneti hnetj hsymbol
    obtain ⟨k, token, htoken, rfl⟩ := mem_itemsOf.mp hi
    obtain ⟨k', token', htoken', rfl⟩ := mem_itemsOf.mp hj
    have ht := List.mem_of_getElem? htoken
    have ht' := List.mem_of_getElem? htoken'
    rcases hknown token ht hneti with ⟨a, ha, hold⟩ | honce
    · exact (listingId_of_mem ha hold (hone token ht).shared _ _ k).trans
        (listingId_of_mem ha (hold.trans hsymbol) (hone token' ht').shared _ _ k').symm
    · -- both items are one
      have hplace : ∀ {m m' : Nat} {t t' : ListedToken ρ}, tokens[m]? = some t →
          tokens[m']? = some t' → (t.symbol, t.netType) = (token.symbol, netType) →
            (t'.symbol, t'.netType) = (token.symbol, netType) → ¬ m < m' := by
        intro m m' t t' hm hm' hpair hpair' hlt
        have htwo := (two_le_length_filter_iff
          (f := fun t : ListedToken ρ => (t.symbol, t.netType))).mpr
            ⟨m, m', t, t', hlt, hm, hm', hpair, hpair'⟩
        exact absurd (le_trans htwo honce) (by decide)
      have hpair : (token.symbol, token.netType) = (token.symbol, netType) :=
        Prod.ext rfl hneti
      have hpair' : (token'.symbol, token'.netType) = (token.symbol, netType) :=
        Prod.ext hsymbol.symm hnetj
      obtain rfl : k = k' := Nat.le_antisymm
        (Nat.le_of_not_lt (hplace htoken' htoken hpair' hpair))
        (Nat.le_of_not_lt (hplace htoken htoken' hpair hpair'))
      rw [show token = token' from Option.some.inj (htoken.symm.trans htoken')]

end Before

/-! ## When the list is read back -/

/-- The update ends with an error: a token has several rows, or an operation fails. -/
def UpdateFails (env : Surroundings) (table : TokenTable ρ) (tokens : List (ListedToken ρ))
    (s : Session TokenStore) : Prop :=
  (¬ ∀ token ∈ tokens, OneRow (table.read s.store.db.walletsDb) token) ∨
    ∃ i ≤ 2 + 4 * tokens.length, env.fails (s.calls + i) = true

section Runs

variable {env : Surroundings} {chain : DefaultChain ρ τ} {tokens : List (ListedToken ρ)}

/-- An update that fails has nothing to be read back. -/
theorem readsBackDefaults_of_not_ok {s : Session TokenStore}
    (h : ((chain.updateDefaultTokens env tokens).run s).2 ≠ .ok ()) :
    ReadsBackDefaults env chain tokens s := fun hok => absurd hok h

/-- What is read back is decided by the lists of the networks whose rows refer to shared
tokens. -/
theorem readsBackDefaults_iff (hdraws : env.DrawsOnce)
    (hunsaved : ∀ token ∈ tokens, token.Unsaved) {s : Session TokenStore}
    (htidy : Tidy env s.calls (chain.table.read s.store.db.walletsDb)) (reads : Text → Prop)
    (hreads : (∀ token ∈ tokens, OneRow (chain.table.read s.store.db.walletsDb) token) →
      ∀ netType tokensShared,
        (∀ r ∈ (tablesAfter env chain.table s.calls tokens
            (chain.table.read s.store.db.walletsDb)).rowsOn netType,
          ∀ a ∈ (tablesAfter env chain.table s.calls tokens
              (chain.table.read s.store.db.walletsDb)).shared,
            a.shared.id = (base r.row).chainTokenSharedId →
              findShared tokensShared (base r.row).chainTokenSharedId = a.row) →
        (ListReadsBack chain.tables.list tokens
          (tablesAfter env chain.table s.calls tokens (chain.table.read s.store.db.walletsDb))
            netType tokensShared ↔ reads netType)) :
    ReadsBackDefaults env chain tokens s ↔
      UpdateFails env chain.table tokens s ∨ ∀ netType : NetType,
        (chain.table.read s.store.db.walletsDb).ReferredOn netType.toString ∧
          reads netType.toString := by
  rw [UpdateFails, or_assoc]
  rcases run_fillTx_cases hdraws hunsaved htidy rfl with
    ⟨hends, s', e, hrun, _⟩ | ⟨hone, hnone, hrun⟩
  · -- the update itself fails
    refine iff_of_true (readsBackDefaults_of_not_ok ?_) (hends.imp_right fun h => .inl ?_)
    · rw [DefaultChain.updateDefaultTokens, run_updateTokens_of_err hrun]
      exact fun h => nomatch h
    · obtain ⟨i, hi, hfails⟩ := h
      exact ⟨i, Nat.le_of_lt hi, hfails⟩
  · have hcommit := run_updateTokens_of_filled hrun
    rw [or_iff_right (not_not.mpr hone)]
    -- the commit is the last of the operations
    cases hfails : env.fails (s.calls + (2 + 4 * tokens.length)) with
    | true =>
      rw [if_pos hfails] at hcommit
      refine iff_of_true (readsBackDefaults_of_not_ok ?_) (.inl ⟨_, Nat.le_refl _, hfails⟩)
      rw [DefaultChain.updateDefaultTokens, hcommit]
      exact fun h => nomatch h
    | false =>
      rw [if_neg (Bool.eq_false_iff.mp hfails)] at hcommit
      have hnone' : ¬ ∃ i ≤ 2 + 4 * tokens.length, env.fails (s.calls + i) = true := by
        rintro ⟨i, hi, hfails'⟩
        rcases Nat.lt_or_eq_of_le hi with hlt | rfl
        · rw [hnone i hlt] at hfails'
          cases hfails'
        · rw [hfails] at hfails'
          cases hfails'
      rw [or_iff_right hnone', ReadsBackDefaults, DefaultChain.updateDefaultTokens, hcommit]
      refine (forall_prop_of_true rfl).trans (forall_congr' fun netType => ?_)
      have hread := chain.table.read_commit (tablesAfter env chain.table s.calls tokens
        (chain.table.read s.store.db.walletsDb)) s.store.db
      have hkey : ((tablesAfter env chain.table s.calls tokens
          (chain.table.read s.store.db.walletsDb)).shared.map fun a => a.shared.id).Nodup :=
        nodup_shared htidy
      have hlist := fun (tokensShared : List (Saved MChainTokenShared)) hshared =>
        hreads hone netType.toString tokensShared fun r hr a ha hid =>
          findShared_sharedOn hshared hkey hr ha hid
      simp only [run_getDefaultTokens hread, hread]
      -- the reader answers exactly when every row of the network finds its shared token
      rw [← referredOn_tablesAfter htidy, ← exists_sharedOn_iff]
      constructor
      · rintro ⟨result, hok, hresult⟩
        obtain ⟨tokensShared, hshared, hok⟩ := Outcome.bind_eq_ok.mp hok
        obtain ⟨rows, hrows, heq⟩ := Outcome.bind_eq_ok.mp hok
        cases heq
        exact ⟨⟨tokensShared, hshared⟩, (hlist tokensShared hshared).mp ⟨rows, hrows, hresult⟩⟩
      · rintro ⟨⟨tokensShared, hshared⟩, hread⟩
        obtain ⟨rows, hrows, hresult⟩ := (hlist tokensShared hshared).mpr hread
        exact ⟨_, Outcome.bind_eq_ok.mpr
          ⟨tokensShared, hshared, Outcome.bind_eq_ok.mpr ⟨rows, hrows, rfl⟩⟩, hresult⟩

end Runs

/-! ### The lists of equal tables -/

/-- The columns that all chains have. -/
def baseRow (r : Saved MEthChainTokenDefault) : Saved MChainTokenDefault :=
  ⟨r.shared, r.row.toMChainTokenDefault⟩

/-- The tables of the three chains hold the same tokens. -/
structure SameDefaults (db : WalletsDb) : Prop where
  sharedEee : db.eeeChainTokenShared = db.ethChainTokenShared
  sharedBtc : db.btcChainTokenShared = db.ethChainTokenShared
  rowsEee : db.eeeChainTokenDefault =
    db.ethChainTokenDefault.map baseRow
  rowsBtc : db.btcChainTokenDefault =
    db.ethChainTokenDefault.map baseRow

/-- What a chain lists, without the columns that the other chains do not have. -/
def listedBases (env : Surroundings) (chain : DefaultChain ρ τ) (netType : NetType)
    (s : Session Databases) : Outcome WalletError (List (MChainTokenDefault × MChainTokenShared)) :=
  ((chain.getDefaultTokens env.calm netType).run s).2 >>= fun tokens =>
    pure (tokens.map fun t => (base t.1, t.2))

/-- The three chains list the same. -/
def ListsAgree (env : Surroundings) (netType : NetType) (s : Session Databases) : Prop :=
  listedBases env ethDefaults netType s = listedBases env eeeDefaults netType s ∧
    listedBases env eeeDefaults netType s = listedBases env btcDefaults netType s

/-- The rows without those columns refer to the same shared tokens. -/
theorem sharedOn_map_baseRow (shared : List (Saved MChainTokenShared))
    (rows : List (Saved MEthChainTokenDefault)) (netType : Text) :
    (TokenTables.mk shared (rows.map baseRow)).sharedOn netType =
      (TokenTables.mk shared rows).sharedOn netType := by
  unfold TokenTables.sharedOn TokenTables.rowsOn leftJoin
  rw [List.filter_map, List.flatMap_map]
  rfl

theorem listedBases_eq {env : Surroundings} (chain : DefaultChain ρ τ) {netType : NetType}
    {s : Session Databases} :
    listedBases env chain netType s =
      (chain.table.read s.store.walletsDb).sharedOn netType.toString >>= fun tokensShared =>
        chain.tables.list ((chain.table.read s.store.walletsDb).rowsOn netType.toString) >>=
          fun rows => pure (rows.map fun r => (base r.row, (entryOf tokensShared r).2)) := by
  have hrun : ((chain.getDefaultTokens env.calm netType).run ⟨s.store, s.calls⟩).2 = _ :=
    run_getDefaultTokens rfl netType s.calls
  unfold listedBases
  rw [hrun]
  cases (chain.table.read s.store.walletsDb).sharedOn netType.toString with
  | err e => rfl
  | panic why => rfl
  | ok tokensShared =>
    show ((chain.tables.list _ >>= _) >>= _) = (chain.tables.list _ >>= _)
    cases chain.tables.list ((chain.table.read s.store.walletsDb).rowsOn netType.toString) with
    | err e => rfl
    | panic why => rfl
    | ok rows =>
      refine congrArg Outcome.ok ?_
      rw [List.map_map]
      rfl

/-- **Equal tables are listed equally** exactly if a row refers to no shared token, so that none
of the three chains lists the network. -/
theorem listsAgree_iff {env : Surroundings} {netType : NetType} {s : Session Databases}
    (hsame : SameDefaults s.store.walletsDb) :
    ListsAgree env netType s ↔
      ¬ (ethDefaultTable.read s.store.walletsDb).ReferredOn netType.toString := by
  have heee : (eeeDefaultTable.read s.store.walletsDb).sharedOn netType.toString =
      (ethDefaultTable.read s.store.walletsDb).sharedOn netType.toString := by
    have hread : eeeDefaultTable.read s.store.walletsDb = _ :=
      congrArg₂ TokenTables.mk hsame.sharedEee hsame.rowsEee
    rw [hread, sharedOn_map_baseRow]
    rfl
  have hbtc : (btcDefaultTable.read s.store.walletsDb).sharedOn netType.toString =
      (ethDefaultTable.read s.store.walletsDb).sharedOn netType.toString := by
    have hread : btcDefaultTable.read s.store.walletsDb = _ :=
      congrArg₂ TokenTables.mk hsame.sharedBtc hsame.rowsBtc
    rw [hread, sharedOn_map_baseRow]
    rfl
  have hfails : ¬ (ethDefaultTable.read s.store.walletsDb).ReferredOn netType.toString →
      (ethDefaultTable.read s.store.walletsDb).sharedOn netType.toString = .err .rbatisError :=
    decodeRows_leftJoin_of_not_referred
  rw [ListsAgree, listedBases_eq, listedBases_eq, listedBases_eq]
  change ((ethDefaultTable.read s.store.walletsDb).sharedOn netType.toString >>= _) =
      ((eeeDefaultTable.read s.store.walletsDb).sharedOn netType.toString >>= _) ∧
    ((eeeDefaultTable.read s.store.walletsDb).sharedOn netType.toString >>= _) =
      ((btcDefaultTable.read s.store.walletsDb).sharedOn netType.toString >>= _) ↔ _
  rw [heee, hbtc]
  constructor
  · rintro ⟨hagree, _⟩ hreferred
    obtain ⟨tokensShared, hshared⟩ := exists_sharedOn_iff.mpr hreferred
    rw [hshared] at hagree
    -- one chain lists the network and the statement of the other is rejected
    cases hagree
  · intro hdangling
    rw [hfails hdangling]
    exact ⟨rfl, rfl⟩

/-! ## The three chains -/

/-- A default token of one chain, which is active. -/
def oneDefault : Databases :=
  { tokenDb [⟨⟨['s'], 1, 1⟩, usdt⟩] with
    walletsDb := { (tokenDb [⟨⟨['s'], 1, 1⟩, usdt⟩]).walletsDb with
      ethChainTokenDefault := [⟨⟨['d'], 1, 1⟩, ⟨['s'], NetType.main.toString, 0, 1⟩, []⟩] } }

end Cashbox.Wallets
