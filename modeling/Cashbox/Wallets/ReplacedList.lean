import Cashbox.Wallets.FilledTx

/-!
# Lists of tokens that are replaced

A list replaces what a table has: one row is active for each token and network of the list,
and it refers to the one shared token with the symbol. Calling the function again changes
nothing but the times of the updates, and an error changes nothing at all. The functions that
look shared tokens up outside of the transaction add a new token once for each time the list
names it; a new token that is named once loses the time at which it was created with the next
call; and once the guard of the transaction has lost its manager, no error is followed by a
rollback.
-/

namespace Cashbox.Wallets

open Cashbox.Lib TokenRow

variable {ρ : Type} [TokenRow ρ]

/-! ## What is required -/

/-- The active rows of the tokens with a symbol, on a network. -/
def TokenTables.active (tx : TokenTables ρ) (symbol netType : Text) : List (Saved ρ) :=
  tx.rows.filter fun r => (base r.row).status = 1 ∧ (base r.row).netType = netType ∧
    ∃ a ∈ tx.shared, a.row.symbol = symbol ∧ a.shared.id = (base r.row).chainTokenSharedId

/-- The last token of a list with a symbol, for a network. -/
def lastListed (tokens : List (ListedToken ρ)) (symbol netType : Text) :
    Option (ListedToken ρ) :=
  (tokens.filter fun token => token.symbol = symbol ∧ token.netType = netType).getLast?

/-- The tables `tx` are replaced by `tx'`. -/
structure Replaced (tokens : List (ListedToken ρ)) (tx tx' : TokenTables ρ) : Prop where
  /-- One row is active for each token of the list, in the place that the list says. -/
  active : ∀ token ∈ tokens, ∃ r last, tx'.active token.symbol token.netType = [r] ∧
    lastListed tokens token.symbol token.netType = some last ∧
    (base r.row).position = (base last.m.row).position ∧
    contractAddress r.row = contractAddress last.m.row
  /-- No other row is active. -/
  listed : ∀ r ∈ tx'.rows, (base r.row).status = 1 →
    ∃ token ∈ tokens, r ∈ tx'.active token.symbol token.netType
  disabled : ∀ r ∈ tx'.rows, (base r.row).status = 1 ∨ (base r.row).status = 0
  /-- A symbol has one shared token at most, if it had. -/
  shared : ∀ symbol, (tx.shared.filter fun a => a.row.symbol = symbol).length ≤ 1 →
    (tx'.shared.filter fun a => a.row.symbol = symbol).length ≤ 1

def Shared.timeless (shared : Shared) : Shared := { shared with updateTime := 0 }

/-- A row without the time of its update. -/
def Saved.timeless {α : Type} (r : Saved α) : Saved α := ⟨r.shared.timeless, r.row⟩

def TokenTables.timeless (tx : TokenTables ρ) : TokenTables ρ :=
  ⟨tx.shared.map Saved.timeless, tx.rows.map Saved.timeless⟩

/-- Nothing but times of updates has changed. -/
def SameButTimes (table : TokenTable ρ) (db db' : Databases) : Prop :=
  ∃ tx, db' = table.commit tx db ∧ tx.timeless = (table.read db.walletsDb).timeless

/-- The function replaces the list. -/
structure ReplacesList (env : Surroundings) (table : TokenTable ρ)
    (tokens : List (ListedToken ρ)) (s : Session TokenStore) : Prop where
  replaced : ((updateTokens env table tokens).run s).2 = .ok () →
    Replaced tokens (table.read s.store.db.walletsDb)
      (table.read ((updateTokens env table tokens).run s).1.store.db.walletsDb)
  again : ((updateTokens env table tokens).run s).2 = .ok () →
    SameButTimes table ((updateTokens env table tokens).run s).1.store.db
      ((updateTokens env.calm table tokens).run
        ((updateTokens env table tokens).run s).1).1.store.db
  unchanged : ((updateTokens env table tokens).run s).2 ≠ .ok () →
    ((updateTokens env table tokens).run s).1.store = s.store

/-! ## The tables that are committed -/

@[simp] theorem contractAddress_setStatus (status : Int64) (r : ρ) :
    contractAddress (setStatus status r) = contractAddress r := contractAddress_make _ _

@[simp] theorem contractAddress_setPosition (token r : ρ) :
    contractAddress (setPosition token r) = contractAddress token := contractAddress_make _ _

@[simp] theorem contractAddress_setSharedId (chainTokenSharedId : Text) (token : ρ) :
    contractAddress (setSharedId chainTokenSharedId token) = contractAddress token :=
  contractAddress_make _ _

/-- A row is what its columns are. -/
theorem row_ext {r r' : ρ} (hbase : base r = base r')
    (hcontract : contractAddress r = contractAddress r') : r = r' := by
  rw [← make_base r, hbase, hcontract, make_base]

/-- The row has what the item says. -/
structure Listing.Wrote (i : Listing ρ) (r : Saved ρ) : Prop where
  base : base r.row = ⟨i.id, i.token.netType, (TokenRow.base i.token.m.row).position, 1⟩
  contractAddress : contractAddress r.row = TokenRow.contractAddress i.token.m.row

variable {env : Surroundings}

theorem wrote_update {i : Listing ρ} {r : Saved ρ} (hkey : rowKey r = (i.id, i.token.netType)) :
    i.Wrote ((rowUpsert env).update i r) where
  base := by
    obtain ⟨hid, hnet⟩ := Prod.mk.inj hkey
    simp only [rowUpsert, base_setStatus, base_setPosition, hid, hnet]
  contractAddress := by simp [rowUpsert]

theorem wrote_new (i : Listing ρ) : i.Wrote ((rowUpsert env).new i) where
  base := by simp [rowUpsert, ListedToken.netType]
  contractAddress := by simp [rowUpsert]

/-! ### Items -/

section Items

variable {table : TokenTable ρ} {calls : Nat} {tokens : List (ListedToken ρ)} {tx : TokenTables ρ}

theorem mem_itemsOf {i : Listing ρ} :
    i ∈ itemsOf env table calls tokens tx ↔ ∃ k token, tokens[k]? = some token ∧
      i = listing env table (disableAll tx) (calls + 2) (tokens.map ListedToken.symbol) k token :=
  mem_listings

theorem map_token_itemsOf (env : Surroundings) (table : TokenTable ρ) (calls : Nat)
    (tokens : List (ListedToken ρ)) (tx : TokenTables ρ) :
    (itemsOf env table calls tokens tx).map Listing.token = tokens := by
  refine List.ext_getElem? fun k => ?_
  simp [itemsOf, listings, listing, Function.comp_def]

theorem token_mem {i : Listing ρ} (hi : i ∈ itemsOf env table calls tokens tx) :
    i.token ∈ tokens := by
  obtain ⟨k, token, htoken, rfl⟩ := mem_itemsOf.mp hi
  exact List.mem_of_getElem? htoken

theorem exists_item {token : ListedToken ρ} (ht : token ∈ tokens) :
    ∃ i ∈ itemsOf env table calls tokens tx, i.token = token := by
  obtain ⟨k, hk⟩ := List.getElem?_of_mem ht
  exact ⟨_, mem_itemsOf.mpr ⟨k, token, hk, rfl⟩, rfl⟩

omit [TokenRow ρ] in
/-- A symbol that was there has the identifier of its shared token. -/
theorem listingId_of_mem {a : Saved MChainTokenShared} {symbol : Text} (ha : a ∈ tx.shared)
    (hsymbol : a.row.symbol = symbol)
    (hone : (tx.shared.filter fun a => a.row.symbol = symbol).length ≤ 1) (n : Nat)
    (symbols : List Text) (k : Nat) :
    listingId env table tx n symbols k symbol = a.shared.id := by
  rcases listingId_eq env table tx n symbols k symbol with ⟨b, hb, hsymbol', hid⟩ | ⟨hnew, _⟩
  · have heq : a = b := eq_of_length_le_one hone
      (List.mem_filter.mpr ⟨ha, decide_eq_true hsymbol⟩)
      (List.mem_filter.mpr ⟨hb, decide_eq_true hsymbol'⟩)
    rw [hid, heq]
  · exact absurd hsymbol (hnew a ha)

/-- All items with a symbol have one identifier. -/
def Consistent (items : List (Listing ρ)) : Prop :=
  ∀ i ∈ items, ∀ j ∈ items, i.token.symbol = j.token.symbol → i.id = j.id

section Tables

variable (hdraws : env.DrawsOnce) (htidy : Tidy env calls tx)
include hdraws htidy

/-- Items with one identifier have one symbol. -/
theorem symbol_of_item {i j : Listing ρ} (hi : i ∈ itemsOf env table calls tokens tx)
    (hj : j ∈ itemsOf env table calls tokens tx) (hid : i.id = j.id) :
    i.token.symbol = j.token.symbol := by
  obtain ⟨k, token, htoken, rfl⟩ := mem_itemsOf.mp hi
  obtain ⟨k', token', htoken', rfl⟩ := mem_itemsOf.mp hj
  refine (htidy.mono (Nat.le_add_right calls 2)).disableAll.symbol_of_listingId hdraws ?_ ?_ hid
  · rw [List.getElem?_map, htoken]
    rfl
  · rw [List.getElem?_map, htoken']
    rfl

omit hdraws in
theorem symbol_of_old {a : Saved MChainTokenShared} (ha : a ∈ tx.shared) {i : Listing ρ}
    (hi : i ∈ itemsOf env table calls tokens tx) (hid : a.shared.id = i.id) :
    a.row.symbol = i.token.symbol := by
  obtain ⟨k, token, htoken, rfl⟩ := mem_itemsOf.mp hi
  exact (htidy.mono (Nat.le_add_right calls 2)).disableAll.symbol_of_id ha hid

/-- The shared token with the identifier of an item has its symbol. -/
theorem symbol_of_new {i : Listing ρ} (hi : i ∈ itemsOf env table calls tokens tx) :
    ∀ a ∈ (tablesAfter env table calls tokens tx).shared, a.shared.id = i.id →
      a.row.symbol = i.token.symbol :=
  Upsert.forall_mem_all (fun _ ha hid => symbol_of_old htidy ha hi hid)
    (fun _ hj _ hkey _ hid => symbol_of_item hdraws htidy hj hi (hkey.symm.trans hid))
    (fun _ hj hid => symbol_of_item hdraws htidy hj hi hid)

omit hdraws in
theorem nodup_shared : ((tablesAfter env table calls tokens tx).shared.map
    fun a => a.shared.id).Nodup :=
  Upsert.nodup_map_key_all (u := sharedUpsert env ρ) htidy.sharedKey

omit hdraws htidy in
theorem exists_shared {i : Listing ρ} (hi : i ∈ itemsOf env table calls tokens tx) :
    ∃ a ∈ (tablesAfter env table calls tokens tx).shared, a.shared.id = i.id :=
  List.mem_map.mp ((Upsert.mem_map_key_all (u := sharedUpsert env ρ)).mpr
    (.inr (List.mem_map_of_mem hi)))

section Shared

variable (hone : ∀ token ∈ tokens, OneRow tx token)
include hone

omit hdraws in
theorem symbol_iff_old {i : Listing ρ} (hi : i ∈ itemsOf env table calls tokens tx) :
    ∀ a ∈ tx.shared, a.row.symbol = i.token.symbol ↔ a.shared.id = i.id := by
  obtain ⟨k, token, htoken, rfl⟩ := mem_itemsOf.mp hi
  exact fun a ha => (htidy.mono (Nat.le_add_right calls 2)).disableAll.symbol_iff_id
    (hone token (List.mem_of_getElem? htoken)).shared k ha

/-- Where symbols have one identifier, they have one shared token. -/
theorem filter_symbol_tablesAfter (hsame : Consistent (itemsOf env table calls tokens tx))
    {i : Listing ρ} (hi : i ∈ itemsOf env table calls tokens tx) :
    (tablesAfter env table calls tokens tx).shared.filter
        (fun a => a.row.symbol = i.token.symbol) =
      (sharedUpsert env ρ).under i.id (tablesAfter env table calls tokens tx).shared :=
  filter_symbol_all (symbol_iff_old htidy hone hi) fun j hj =>
    ⟨hsame j hj i hi, symbol_of_item hdraws htidy hj hi⟩

theorem id_of_symbol (hsame : Consistent (itemsOf env table calls tokens tx))
    {i : Listing ρ} (hi : i ∈ itemsOf env table calls tokens tx) {a : Saved MChainTokenShared}
    (ha : a ∈ (tablesAfter env table calls tokens tx).shared)
    (hsymbol : a.row.symbol = i.token.symbol) : a.shared.id = i.id := by
  have hmem : a ∈ (tablesAfter env table calls tokens tx).shared.filter
      fun a => a.row.symbol = i.token.symbol := List.mem_filter.mpr ⟨ha, decide_eq_true hsymbol⟩
  rw [filter_symbol_tablesAfter hdraws htidy hone hsame hi] at hmem
  exact ((Upsert.mem_under (u := sharedUpsert env ρ)).mp hmem).2

/-- A symbol keeps one shared token exactly if its items have one identifier. -/
theorem consistent_iff :
    Consistent (itemsOf env table calls tokens tx) ↔
      ∀ symbol, (tx.shared.filter fun a => a.row.symbol = symbol).length ≤ 1 →
        ((tablesAfter env table calls tokens tx).shared.filter
          fun a => a.row.symbol = symbol).length ≤ 1 := by
  constructor
  · intro hsame symbol hold
    by_cases hlisted : ∃ i ∈ itemsOf env table calls tokens tx, i.token.symbol = symbol
    · obtain ⟨i, hi, rfl⟩ := hlisted
      rw [filter_symbol_tablesAfter hdraws htidy hone hsame hi]
      exact Upsert.length_under_le_one (nodup_shared htidy)
    · -- no token of the list has the symbol
      have hnot : ∀ i ∈ itemsOf env table calls tokens tx, i.token.symbol ≠ symbol :=
        fun i hi hsymbol => hlisted ⟨i, hi, hsymbol⟩
      have hstays : ∀ a ∈ (tablesAfter env table calls tokens tx).shared,
          a.row.symbol = symbol → a ∈ tx.shared :=
        Upsert.forall_mem_all (fun _ ha _ => ha)
          (fun i hi _ _ _ hsymbol => absurd hsymbol (hnot i hi))
          (fun i hi hsymbol => absurd hsymbol (hnot i hi))
      have hids : ((tablesAfter env table calls tokens tx).shared.map
          fun a => a.shared.id).Nodup := nodup_shared htidy
      have hnodup := (List.Nodup.of_map _ hids).filter fun a => decide (a.row.symbol = symbol)
      refine le_trans (List.Subperm.length_le (List.subperm_of_subset hnodup ?_)) hold
      intro a ha
      obtain ⟨ha, hsymbol⟩ := List.mem_filter.mp ha
      exact List.mem_filter.mpr ⟨hstays a ha (of_decide_eq_true hsymbol), hsymbol⟩
  · -- two items with one symbol are in two shared tokens, of which there is one only
    intro hshared i hi j hj hsymbol
    obtain ⟨a, ha, hai⟩ := exists_shared hi
    obtain ⟨b, hb, hbj⟩ := exists_shared hj
    obtain ⟨k, token, htoken, hik⟩ := mem_itemsOf.mp hi
    have hold : (tx.shared.filter fun a => a.row.symbol = i.token.symbol).length ≤ 1 := by
      rw [hik]
      exact (hone token (List.mem_of_getElem? htoken)).shared
    have heq : a = b := eq_of_length_le_one (hshared i.token.symbol hold)
      (List.mem_filter.mpr ⟨ha, decide_eq_true (symbol_of_new hdraws htidy hi a ha hai)⟩)
      (List.mem_filter.mpr ⟨hb, decide_eq_true
        ((symbol_of_new hdraws htidy hj b hb hbj).trans hsymbol.symm)⟩)
    rw [← hai, ← hbj, heq]

end Shared

/-! ### Rows -/

omit hdraws htidy in
/-- The last item with a key has written its rows. -/
theorem wrote_of_mem {k : Text × Text} {i : Listing ρ} {pre : List (Listing ρ)}
    (hlast : (itemsOf env table calls tokens tx).filter (fun i => (rowUpsert env).keyOf i = k) =
      pre ++ [i]) :
    ∀ r ∈ (rowUpsert env).under k (tablesAfter env table calls tokens tx).rows, i.Wrote r := by
  have hi : i ∈ (itemsOf env table calls tokens tx).filter
      fun i => (rowUpsert env).keyOf i = k := by
    rw [hlast]
    exact List.mem_append_right _ (List.mem_singleton_self i)
  have hkey : (rowUpsert env).keyOf i = k := of_decide_eq_true (List.mem_filter.mp hi).2
  exact Upsert.forall_mem_under_all hlast (fun r hr => wrote_update (hr.trans hkey.symm))
    (wrote_new i)

omit hdraws htidy in
theorem status_of_mem {r : Saved ρ} (hr : r ∈ (tablesAfter env table calls tokens tx).rows)
    (hkey : rowKey r ∈ (itemsOf env table calls tokens tx).map (rowUpsert env).keyOf) :
    (base r.row).status = 1 := by
  obtain ⟨i, pre, hlast⟩ := Upsert.exists_last hkey
  rw [(wrote_of_mem hlast r (Upsert.mem_under.mpr ⟨hr, rfl⟩)).base]

omit hdraws htidy in
/-- Rows that the list does not name are disabled. -/
theorem disabled_of_not_mem {r : Saved ρ} (hr : r ∈ (tablesAfter env table calls tokens tx).rows)
    (hkey : rowKey r ∉ (itemsOf env table calls tokens tx).map (rowUpsert env).keyOf) :
    (base r.row).status = 0 := by
  have hunder : r ∈ (rowUpsert env).under (rowKey r) (tablesAfter env table calls tokens tx).rows :=
    Upsert.mem_under.mpr ⟨hr, rfl⟩
  rw [tablesAfter, takeInAll, Upsert.under_all_of_not_mem hkey] at hunder
  obtain ⟨r', hr', rfl⟩ := List.mem_map.mp (Upsert.mem_under.mp hunder).1
  rw [base_setStatus]

omit hdraws in
/-- There is one row for each item. -/
theorem exists_under_eq (hone : ∀ token ∈ tokens, OneRow tx token) {i : Listing ρ}
    (hi : i ∈ itemsOf env table calls tokens tx) :
    ∃ r, (rowUpsert env).under ((rowUpsert env).keyOf i)
      (tablesAfter env table calls tokens tx).rows = [r] := by
  have hle : ((rowUpsert env).under ((rowUpsert env).keyOf i)
      (tablesAfter env table calls tokens tx).rows).length ≤ 1 := by
    obtain ⟨k, token, htoken, rfl⟩ := mem_itemsOf.mp hi
    exact Upsert.length_under_all_le_one_iff.mpr
      (length_under_listingId (htidy.mono (Nat.le_add_right calls 2)).disableAll
        (OneRow.disableAll_iff.mpr (hone token (List.mem_of_getElem? htoken))) k)
  have hne : (rowUpsert env).under ((rowUpsert env).keyOf i)
      (tablesAfter env table calls tokens tx).rows ≠ [] := fun hnil =>
    Upsert.under_eq_nil_iff.mp hnil (Upsert.mem_map_key_all.mpr (.inr (List.mem_map_of_mem hi)))
  exact List.length_eq_one_iff.mp (Nat.le_antisymm hle (List.length_pos_of_ne_nil hne))

variable (hone : ∀ token ∈ tokens, OneRow tx token)
  (hsame : Consistent (itemsOf env table calls tokens tx))
include hone hsame

/-- The active rows of a token are those with its key. -/
theorem active_tablesAfter {i : Listing ρ} (hi : i ∈ itemsOf env table calls tokens tx) :
    (tablesAfter env table calls tokens tx).active i.token.symbol i.token.netType =
      (rowUpsert env).under ((rowUpsert env).keyOf i)
        (tablesAfter env table calls tokens tx).rows := by
  refine List.filter_congr fun r hr => decide_eq_decide.mpr ⟨?_, fun hkey => ?_⟩
  · rintro ⟨_, hnet, a, ha, hsymbol, hid⟩
    have hai := id_of_symbol hdraws htidy hone hsame hi ha hsymbol
    exact Prod.ext (hid.symm.trans hai) hnet
  · have hstatus := status_of_mem hr (List.mem_map.mpr ⟨i, hi, hkey.symm⟩)
    obtain ⟨a, ha, hai⟩ := exists_shared hi
    obtain ⟨hid, hnet⟩ := Prod.mk.inj hkey
    exact ⟨hstatus, hnet, a, ha, symbol_of_new hdraws htidy hi a ha hai, hai.trans hid.symm⟩

omit hone hsame in
/-- The last item with a key is the last token with its symbol and network. -/
theorem lastListed_eq {i last : Listing ρ} {pre : List (Listing ρ)}
    (hi : i ∈ itemsOf env table calls tokens tx)
    (hsame : ∀ j ∈ itemsOf env table calls tokens tx, j.token.netType = i.token.netType →
      j.token.symbol = i.token.symbol → j.id = i.id)
    (hlast : (itemsOf env table calls tokens tx).filter
      (fun j => (rowUpsert env).keyOf j = (rowUpsert env).keyOf i) = pre ++ [last]) :
    lastListed tokens i.token.symbol i.token.netType = some last.token := by
  have hfilter : tokens.filter (fun token => token.symbol = i.token.symbol ∧
      token.netType = i.token.netType) = (pre ++ [last]).map Listing.token := by
    rw [← hlast]
    refine (congrArg _ (map_token_itemsOf env table calls tokens tx).symm).trans ?_
    rw [List.filter_map]
    refine congrArg (List.map Listing.token) (List.filter_congr fun j hj => ?_)
    refine decide_eq_decide.mpr ((and_congr_left fun hnet => ?_).trans Prod.mk_inj.symm)
    exact ⟨hsame j hj hnet, symbol_of_item hdraws htidy hj hi⟩
  rw [lastListed, hfilter, List.getLast?_map, List.getLast?_concat]
  rfl

omit hsame in
/-- **The list is replaced** exactly if a symbol has one identifier. -/
theorem replaced_iff :
    Replaced tokens tx (tablesAfter env table calls tokens tx) ↔
      Consistent (itemsOf env table calls tokens tx) := by
  refine ⟨fun h => (consistent_iff hdraws htidy hone).mpr h.shared, fun hsame => ?_⟩
  constructor
  · intro token htoken
    obtain ⟨i, hi, rfl⟩ := exists_item htoken
    obtain ⟨r, hr⟩ := exists_under_eq htidy hone hi
    obtain ⟨last, pre, hlast⟩ :=
      Upsert.exists_last (u := rowUpsert env) (List.mem_map_of_mem hi)
    have hwrote := wrote_of_mem hlast r (hr ▸ List.mem_singleton_self r)
    have hlisted := lastListed_eq hdraws htidy hi (fun j hj _ => hsame j hj i hi) hlast
    refine ⟨r, last.token, ?_, hlisted, ?_, hwrote.contractAddress⟩
    · rw [active_tablesAfter hdraws htidy hone hsame hi, hr]
    · rw [hwrote.base]
  · intro r hr hstatus
    have hkey : rowKey r ∈ (itemsOf env table calls tokens tx).map (rowUpsert env).keyOf := by
      by_contra hnot
      rw [disabled_of_not_mem hr hnot] at hstatus
      exact absurd hstatus (by decide)
    obtain ⟨i, hi, hik⟩ := List.mem_map.mp hkey
    refine ⟨i.token, token_mem hi, ?_⟩
    rw [active_tablesAfter hdraws htidy hone hsame hi]
    exact Upsert.mem_under.mpr ⟨hr, hik.symm⟩
  · intro r hr
    by_cases hkey : rowKey r ∈ (itemsOf env table calls tokens tx).map (rowUpsert env).keyOf
    · exact .inl (status_of_mem hr hkey)
    · exact .inr (disabled_of_not_mem hr hkey)
  · exact (consistent_iff hdraws htidy hone).mp hsame

end Tables

end Items

/-! ### The same list again -/

/-- What an item says, without the number of its operation. -/
def Listing.data (i : Listing ρ) : Text × ListedToken ρ := (i.id, i.token)

omit [TokenRow ρ] in
/-- Items that say the same have the same last item. -/
theorem data_last_eq {items items' pre pre' : List (Listing ρ)} {i i' : Listing ρ}
    (hdata : items.map Listing.data = items'.map Listing.data)
    (p : Text × ListedToken ρ → Bool)
    (hlast : items.filter (fun i => p i.data) = pre ++ [i])
    (hlast' : items'.filter (fun i => p i.data) = pre' ++ [i']) : i.data = i'.data := by
  have hmap := congrArg (List.filter p) hdata
  rw [List.filter_map, List.filter_map] at hmap
  have hlasts := congrArg List.getLast? hmap
  rw [show p ∘ Listing.data = fun i => p i.data from rfl, hlast, hlast', List.getLast?_map,
    List.getLast?_map, List.getLast?_concat, List.getLast?_concat] at hlasts
  exact Option.some.inj hlasts

section Again

variable {table : TokenTable ρ} {calls c : Nat} {tokens : List (ListedToken ρ)}
  {tx : TokenTables ρ} (hdraws : env.DrawsOnce) (htidy : Tidy env calls tx)

include hdraws htidy in
theorem tidy_tablesAfter (hcalls : calls + 2 + 4 * tokens.length ≤ c) :
    Tidy env c (tablesAfter env table calls tokens tx) := by
  have hsymbols : tokens.map ListedToken.symbol = (tokens ++ []).map ListedToken.symbol := by
    rw [List.append_nil]
  have h : Tidy env (calls + 2 + 4 * tokens.length) (tablesAfter env table calls tokens tx) :=
    (htidy.mono (Nat.le_add_right calls 2)).disableAll.takeInAll hdraws tokens hsymbols
  exact h.mono hcalls

variable (hone : ∀ token ∈ tokens, OneRow tx token)
  (hsame : Consistent (itemsOf env table calls tokens tx))
include hdraws htidy hone hsame

theorem oneRow_tablesAfter {token : ListedToken ρ} (ht : token ∈ tokens) :
    OneRow (tablesAfter env table calls tokens tx) token := by
  obtain ⟨i, hi, rfl⟩ : ∃ i ∈ itemsOf env table calls tokens tx, i.token = token :=
    exists_item ht
  constructor
  · rw [filter_symbol_tablesAfter hdraws htidy hone hsame hi]
    exact Upsert.length_under_le_one (nodup_shared htidy)
  · intro a ha hsymbol
    obtain ⟨r, hr⟩ := exists_under_eq htidy hone hi
    rw [id_of_symbol hdraws htidy hone hsame hi ha hsymbol, filter_eq_under env]
    exact le_of_eq (congrArg List.length hr)

/-- The items of the next call say the same. -/
theorem map_data_again : (itemsOf env.calm table c tokens
      (tablesAfter env table calls tokens tx)).map Listing.data =
    (itemsOf env table calls tokens tx).map Listing.data := by
  refine List.ext_getElem? fun k => ?_
  simp only [itemsOf, listings, List.getElem?_map, List.getElem?_mapIdx, Option.map_map]
  refine Option.map_congr fun token htoken => ?_
  have hi : listing env table (disableAll tx) (calls + 2) (tokens.map ListedToken.symbol) k token ∈
      itemsOf env table calls tokens tx := mem_itemsOf.mpr ⟨k, token, htoken, rfl⟩
  obtain ⟨a, ha, hid⟩ := exists_shared hi
  refine Prod.ext ?_ rfl
  refine (listingId_of_mem ha (symbol_of_new hdraws htidy hi a ha hid) ?_ _ _ k).trans hid
  exact (oneRow_tablesAfter hdraws htidy hone hsame (List.mem_of_getElem? htoken)).shared

/-! #### Rows -/

theorem map_keyOf_again :
    (itemsOf env.calm table c tokens (tablesAfter env table calls tokens tx)).map
        (rowUpsert env.calm).keyOf =
      (itemsOf env table calls tokens tx).map (rowUpsert env).keyOf := by
  have hmap := congrArg (List.map fun d : Text × ListedToken ρ => (d.1, d.2.netType))
    (map_data_again (c := c) hdraws htidy hone hsame)
  rw [List.map_map, List.map_map] at hmap
  exact hmap

omit hdraws htidy hone hsame in
theorem timeless_putAll (items : List (Listing ρ)) (r : Saved ρ) :
    ((rowUpsert env).putAll items r).shared.timeless = r.shared.timeless :=
  Upsert.putAll_invariant (f := fun r : Saved ρ => r.shared.timeless) (fun _ _ => rfl) items r

omit hdraws htidy hone hsame in
theorem setStatus_of_eq {status : Int64} {r : ρ} (h : (base r).status = status) :
    setStatus status r = r := by
  refine row_ext ?_ (contractAddress_setStatus status r)
  rw [base_setStatus, ← h]

/-- What the next call makes of a row. -/
theorem rows_tablesAfter_again :
    (tablesAfter env.calm table c tokens (tablesAfter env table calls tokens tx)).rows =
      (disableAll (tablesAfter env table calls tokens tx)).rows.map
        ((rowUpsert env.calm).putAll (itemsOf env.calm table c tokens
          (tablesAfter env table calls tokens tx))) := by
  refine Upsert.all_eq_map fun i' hi' => ?_
  have hkey : (rowUpsert env.calm).keyOf i' ∈
      (itemsOf env table calls tokens tx).map (rowUpsert env).keyOf := by
    rw [← map_keyOf_again (c := c) hdraws htidy hone hsame]
    exact List.mem_map_of_mem hi'
  have hmem : (rowUpsert env.calm).keyOf i' ∈
      (tablesAfter env table calls tokens tx).rows.map (rowUpsert env).key :=
    Upsert.mem_map_key_all.mpr (.inr hkey)
  obtain ⟨r, hr, hrkey⟩ := List.mem_map.mp hmem
  exact List.mem_map.mpr ⟨_, List.mem_map_of_mem hr, (rowKey_setStatus 0 r).trans hrkey⟩

/-- Rows change their times only. -/
theorem rows_again :
    (tablesAfter env.calm table c tokens
      (tablesAfter env table calls tokens tx)).rows.map Saved.timeless =
      (tablesAfter env table calls tokens tx).rows.map Saved.timeless := by
  have hrows := rows_tablesAfter_again (c := c) hdraws htidy hone hsame
  have hkeys := map_keyOf_again (c := c) hdraws htidy hone hsame
  rw [hrows, disableAll, List.map_map, List.map_map]
  refine List.map_congr_left fun r hr => congrArg₂ Saved.mk (timeless_putAll _ _) ?_
  by_cases hkey : rowKey r ∈ (itemsOf env table calls tokens tx).map (rowUpsert env).keyOf
  · -- both calls wrote what the last item says
    obtain ⟨i, pre, hlast⟩ := Upsert.exists_last hkey
    obtain ⟨i', pre', hlast'⟩ := Upsert.exists_last (hkeys ▸ hkey)
    have hdata : i'.data = i.data :=
      data_last_eq (map_data_again hdraws htidy hone hsame)
        (fun d => decide ((d.1, d.2.netType) = rowKey r)) hlast' hlast
    obtain ⟨hid, htoken⟩ := Prod.mk.inj hdata
    have hwrote := wrote_of_mem hlast r (Upsert.mem_under.mpr ⟨hr, rfl⟩)
    have hwrote' := wrote_of_mem hlast' _ (Upsert.mem_under.mpr
      ⟨hrows ▸ List.mem_map_of_mem (List.mem_map_of_mem hr),
        (Upsert.key_putAll _ _).trans (rowKey_setStatus 0 r)⟩)
    refine row_ext ?_ ?_
    · rw [hwrote.base, ← hid, ← htoken]
      exact hwrote'.base
    · rw [hwrote.contractAddress, ← htoken]
      exact hwrote'.contractAddress
  · have hnot : (rowUpsert env.calm).key ⟨r.shared, setStatus 0 r.row⟩ ∉
        (itemsOf env.calm table c tokens (tablesAfter env table calls tokens tx)).map
          (rowUpsert env.calm).keyOf := by
      rw [hkeys]
      show rowKey _ ∉ _
      rwa [rowKey_setStatus]
    refine (congrArg Saved.row (Upsert.putAll_of_not_mem hnot)).trans ?_
    exact setStatus_of_eq (disabled_of_not_mem hr hkey)

/-! #### Shared tokens -/

theorem map_id_again :
    (itemsOf env.calm table c tokens (tablesAfter env table calls tokens tx)).map
        (sharedUpsert env.calm ρ).keyOf =
      (itemsOf env table calls tokens tx).map (sharedUpsert env ρ).keyOf := by
  have hmap := congrArg (List.map Prod.fst) (map_data_again (c := c) hdraws htidy hone hsame)
  rw [List.map_map, List.map_map] at hmap
  exact hmap

/-- What the next call makes of a shared token. -/
theorem shared_tablesAfter_again :
    (tablesAfter env.calm table c tokens (tablesAfter env table calls tokens tx)).shared =
      (tablesAfter env table calls tokens tx).shared.map
        ((sharedUpsert env.calm ρ).putAll (itemsOf env.calm table c tokens
          (tablesAfter env table calls tokens tx))) := by
  refine Upsert.all_eq_map (u := sharedUpsert env.calm ρ) fun i' hi' => ?_
  have hkey : (sharedUpsert env.calm ρ).keyOf i' ∈
      (itemsOf env table calls tokens tx).map (sharedUpsert env ρ).keyOf := by
    rw [← map_id_again (c := c) hdraws htidy hone hsame]
    exact List.mem_map_of_mem hi'
  exact (Upsert.mem_map_key_all (u := sharedUpsert env ρ)).mpr (.inr hkey)

variable (hunsaved : ∀ token ∈ tokens, token.Unsaved)
include hunsaved

/-- What the next call makes of a shared token has no time at which it was created. -/
theorem timeless_again_iff {a : Saved MChainTokenShared}
    (ha : a ∈ (tablesAfter env table calls tokens tx).shared) :
    ((sharedUpsert env.calm ρ).putAll (itemsOf env.calm table c tokens
        (tablesAfter env table calls tokens tx)) a).timeless = a.timeless ↔
      (a.shared.id ∈ (itemsOf env table calls tokens tx).map Listing.id →
        a.shared.createTime = 0) := by
  have hids := map_id_again (c := c) hdraws htidy hone hsame
  by_cases hmem : a.shared.id ∈ (itemsOf env table calls tokens tx).map Listing.id
  · -- both calls wrote what the last item says
    obtain ⟨i, pre, hlast⟩ := Upsert.exists_last (u := sharedUpsert env ρ) hmem
    have hmem' : (sharedUpsert env.calm ρ).key a ∈
        (itemsOf env.calm table c tokens (tablesAfter env table calls tokens tx)).map
          (sharedUpsert env.calm ρ).keyOf := by
      rw [hids]
      exact hmem
    obtain ⟨i', pre', before, hlast', hput⟩ := Upsert.exists_putAll_eq hmem'
    have hdata : i'.data = i.data :=
      data_last_eq (map_data_again hdraws htidy hone hsame)
        (fun d => decide (d.1 = a.shared.id)) hlast' hlast
    obtain ⟨-, htoken⟩ := Prod.mk.inj hdata
    have hrow : a.row = i.token.tokenShared.row :=
      Upsert.forall_mem_under_all (u := sharedUpsert env ρ)
        (p := fun a => a.row = i.token.tokenShared.row) hlast (fun _ _ => rfl) rfl a
        ((Upsert.mem_under (u := sharedUpsert env ρ)).mpr ⟨ha, rfl⟩)
    have hi : i ∈ itemsOf env table calls tokens tx := by
      have hi : i ∈ (itemsOf env table calls tokens tx).filter
          fun i => (sharedUpsert env ρ).keyOf i = a.shared.id := by
        rw [hlast]
        exact List.mem_append_right _ (List.mem_singleton_self i)
      exact (List.mem_filter.mp hi).1
    have hid := Upsert.key_putAll (u := sharedUpsert env.calm ρ) before a
    rw [hput]
    have htimeless : (((sharedUpsert env.calm ρ).update i'
        ((sharedUpsert env.calm ρ).putAll before a)) : Saved MChainTokenShared).timeless =
        ⟨⟨a.shared.id, 0, 0⟩, a.row⟩ := by
      rw [hrow, ← htoken]
      refine congrArg₂ Saved.mk ?_ rfl
      refine (congrArg₂ (fun id time => Shared.mk id time 0) hid ?_)
      show i'.token.tokenShared.shared.createTime = 0
      rw [htoken, (hunsaved i.token (token_mem hi)).2]
      rfl
    rw [htimeless]
    constructor
    · intro heq _
      exact (congrArg (fun a => a.shared.createTime) heq).symm
    · intro hzero
      refine congrArg₂ Saved.mk (congrArg (fun time => Shared.mk a.shared.id time 0) ?_) rfl
      exact (hzero hmem).symm
  · -- neither call wrote the shared token
    have hnot : (sharedUpsert env.calm ρ).key a ∉
        (itemsOf env.calm table c tokens (tablesAfter env table calls tokens tx)).map
          (sharedUpsert env.calm ρ).keyOf := by
      rw [hids]
      exact hmem
    rw [Upsert.putAll_of_not_mem hnot]
    exact iff_of_true rfl fun h => absurd h hmem

omit hone hunsaved in
/-- There are as many items with an identifier as tokens with its symbol. -/
theorem length_filter_id {i : Listing ρ} (hi : i ∈ itemsOf env table calls tokens tx) :
    ((itemsOf env table calls tokens tx).filter fun j => (sharedUpsert env ρ).keyOf j = i.id).length
      = (tokens.filter fun token => token.symbol = i.token.symbol).length := by
  have hmap := congrArg (List.filter fun token => token.symbol = i.token.symbol)
    (map_token_itemsOf env table calls tokens tx)
  rw [← hmap, List.filter_map, List.length_map]
  refine congrArg List.length (List.filter_congr fun j hj => decide_eq_decide.mpr ?_)
  exact ⟨symbol_of_item hdraws htidy hj hi, hsame j hj i hi⟩

/-- Shared tokens have lost the times at which they were created exactly if each was there, or is
listed again. -/
theorem createTime_iff (hclock : ∀ n, env.nowTsSeconds n ≠ 0) :
    (∀ a ∈ (tablesAfter env table calls tokens tx).shared,
        a.shared.id ∈ (itemsOf env table calls tokens tx).map Listing.id →
          a.shared.createTime = 0) ↔
      ∀ token ∈ tokens, (∃ a ∈ tx.shared, a.row.symbol = token.symbol) ∨
        2 ≤ (tokens.filter fun t => t.symbol = token.symbol).length := by
  constructor
  · intro hzero token ht
    obtain ⟨i, hi, rfl⟩ : ∃ i ∈ itemsOf env table calls tokens tx, i.token = token :=
      exists_item ht
    by_contra hnew
    rw [not_or, ← length_filter_id hdraws htidy hsame hi] at hnew
    obtain ⟨hnew, hfew⟩ := hnew
    -- its only item has added it
    have hitem : i ∈ (itemsOf env table calls tokens tx).filter
        fun j => (sharedUpsert env ρ).keyOf j = i.id :=
      List.mem_filter.mpr ⟨hi, decide_eq_true rfl⟩
    have honce : (itemsOf env table calls tokens tx).filter
        (fun j => (sharedUpsert env ρ).keyOf j = i.id) = [i] := by
      obtain ⟨j, hj⟩ := List.length_eq_one_iff.mp
        (Nat.le_antisymm (Nat.le_of_lt_succ (Nat.lt_of_not_le hfew)) (List.length_pos_of_mem hitem))
      rw [hj] at hitem ⊢
      rw [List.mem_singleton.mp hitem]
    have hkey : i.id ∉ tx.shared.map (sharedUpsert env ρ).key := fun hmem => by
      obtain ⟨a, ha, hai⟩ := List.mem_map.mp hmem
      exact hnew ⟨a, ha, symbol_of_old htidy ha hi hai⟩
    have hunder : (sharedUpsert env ρ).under i.id
        (tablesAfter env table calls tokens tx).shared = [(sharedUpsert env ρ).new i] :=
      Upsert.under_all_new hkey honce
    have hmem : (sharedUpsert env ρ).new i ∈ (tablesAfter env table calls tokens tx).shared :=
      ((Upsert.mem_under (u := sharedUpsert env ρ)).mp
        (hunder ▸ List.mem_singleton_self _)).1
    exact hclock (i.n + 1) (hzero _ hmem (List.mem_map_of_mem hi))
  · intro hold a ha hmem
    obtain ⟨i, hi, hia⟩ := List.mem_map.mp hmem
    obtain ⟨last, pre, hlast⟩ := Upsert.exists_last (u := sharedUpsert env ρ) hmem
    have hupdated : a.shared.id ∈ tx.shared.map (sharedUpsert env ρ).key ∨ pre ≠ [] := by
      rcases hold i.token (token_mem hi) with ⟨b, hb, hsymbol⟩ | hmany
      · refine .inl (List.mem_map.mpr ⟨b, hb, ?_⟩)
        rw [← hia]
        exact (symbol_iff_old htidy hone hi b hb).mp hsymbol
      · right
        rintro rfl
        rw [← length_filter_id hdraws htidy hsame hi, hia, hlast] at hmany
        simp at hmany
    obtain ⟨rows, _, _, hunder⟩ := Upsert.under_all_update hlast hupdated
    have hmem' : a ∈ (sharedUpsert env ρ).under a.shared.id
        (tablesAfter env table calls tokens tx).shared :=
      (Upsert.mem_under (u := sharedUpsert env ρ)).mpr ⟨ha, rfl⟩
    have hitem : last ∈ (itemsOf env table calls tokens tx).filter
        fun j => (sharedUpsert env ρ).keyOf j = a.shared.id := by
      rw [hlast]
      exact List.mem_append_right _ (List.mem_singleton_self last)
    rw [show (sharedUpsert env ρ).under a.shared.id (tablesAfter env table calls tokens tx).shared =
      rows.map ((sharedUpsert env ρ).update last) from hunder] at hmem'
    obtain ⟨b, _, rfl⟩ := List.mem_map.mp hmem'
    show last.token.tokenShared.shared.createTime = 0
    rw [(hunsaved last.token (token_mem (List.mem_filter.mp hitem).1)).2]
    rfl

/-- **The next call changes nothing but times** exactly if every token was there before, or is
listed again. -/
theorem timeless_tablesAfter_iff (hclock : ∀ n, env.nowTsSeconds n ≠ 0) :
    (tablesAfter env.calm table c tokens (tablesAfter env table calls tokens tx)).timeless =
        (tablesAfter env table calls tokens tx).timeless ↔
      ∀ token ∈ tokens, (∃ a ∈ tx.shared, a.row.symbol = token.symbol) ∨
        2 ≤ (tokens.filter fun t => t.symbol = token.symbol).length := by
  rw [← createTime_iff hdraws htidy hone hsame hunsaved hclock, TokenTables.timeless,
    TokenTables.timeless, TokenTables.mk.injEq,
    and_iff_left (rows_again hdraws htidy hone hsame),
    shared_tablesAfter_again hdraws htidy hone hsame, List.map_map, List.map_inj_left]
  exact forall₂_congr fun a ha => timeless_again_iff hdraws htidy hone hsame hunsaved ha

end Again

/-! ## When the list is replaced -/

/-- Each token of the list was there before, or is listed again and looked up in the
transaction. -/
def KnownOrRelisted (table : TokenTable ρ) (tokens : List (ListedToken ρ))
    (tx : TokenTables ρ) : Prop :=
  ∀ token ∈ tokens, (∃ a ∈ tx.shared, a.row.symbol = token.symbol) ∨
    table.inTx = true ∧ 2 ≤ (tokens.filter fun t => t.symbol = token.symbol).length

/-- What is listed twice has two places. -/
theorem two_le_length_filter_iff {α β : Type} [DecidableEq β] {l : List α} {f : α → β} {b : β} :
    2 ≤ (l.filter fun a => f a = b).length ↔
      ∃ (k k' : Nat) (a a' : α), k < k' ∧ l[k]? = some a ∧ l[k']? = some a' ∧
        f a = b ∧ f a' = b := by
  have hplace : ∀ k : Fin (l.map f).length, b = (l.map f).get k ↔
      ∃ a, l[(k : Nat)]? = some a ∧ f a = b := by
    intro k
    have hget : (l.map f)[(k : Nat)]? = some ((l.map f).get k) := List.getElem?_eq_getElem k.isLt
    rw [List.getElem?_map] at hget
    constructor
    · rintro rfl
      exact Option.map_eq_some_iff.mp hget
    · rintro ⟨a, ha, rfl⟩
      rw [ha] at hget
      exact Option.some.inj hget
  have hcount : (l.filter fun a => f a = b).length = (l.map f).count b := by
    rw [List.count, List.countP_map, List.countP_eq_length_filter]
    rfl
  rw [hcount, ← List.duplicate_iff_two_le_count, List.duplicate_iff_exists_distinct_get]
  constructor
  · rintro ⟨k, k', hlt, hk, hk'⟩
    obtain ⟨a, ha, hab⟩ := (hplace k).mp hk
    obtain ⟨a', ha', hab'⟩ := (hplace k').mp hk'
    exact ⟨k, k', a, a', hlt, ha, ha', hab, hab'⟩
  · rintro ⟨k, k', a, a', hlt, ha, ha', hab, hab'⟩
    have hk : k < (l.map f).length := by
      rw [List.length_map]
      exact (List.getElem?_eq_some_iff.mp ha).1
    have hk' : k' < (l.map f).length := by
      rw [List.length_map]
      exact (List.getElem?_eq_some_iff.mp ha').1
    exact ⟨⟨k, hk⟩, ⟨k', hk'⟩, hlt, (hplace ⟨k, hk⟩).mpr ⟨a, ha, hab⟩,
      (hplace ⟨k', hk'⟩).mpr ⟨a', ha', hab'⟩⟩

section Known

variable {table : TokenTable ρ} {calls : Nat} {tokens : List (ListedToken ρ)}
  {tx : TokenTables ρ} (hdraws : env.DrawsOnce)
  (hone : ∀ token ∈ tokens, OneRow tx token)
include hdraws hone

theorem knownOrRelisted_iff :
    KnownOrRelisted table tokens tx ↔ Consistent (itemsOf env table calls tokens tx) ∧
      ∀ token ∈ tokens, (∃ a ∈ tx.shared, a.row.symbol = token.symbol) ∨
        2 ≤ (tokens.filter fun t => t.symbol = token.symbol).length := by
  constructor
  · intro hknown
    refine ⟨fun i hi j hj hsymbol => ?_, fun token ht => (hknown token ht).imp_right And.right⟩
    obtain ⟨k, token, htoken, rfl⟩ := mem_itemsOf.mp hi
    obtain ⟨k', token', htoken', rfl⟩ := mem_itemsOf.mp hj
    have ht := List.mem_of_getElem? htoken
    have ht' := List.mem_of_getElem? htoken'
    rcases hknown token ht with ⟨a, ha, hold⟩ | ⟨hinTx, _⟩
    · exact (listingId_of_mem ha hold (hone token ht).shared _ _ k).trans
        (listingId_of_mem ha (hold.trans hsymbol) (hone token' ht').shared _ _ k').symm
    · exact listingId_of_inTx hinTx hsymbol k k'
  · rintro ⟨hsame, hold⟩ token ht
    by_cases hnew : ∃ a ∈ tx.shared, a.row.symbol = token.symbol
    · exact .inl hnew
    · have hmany := (hold token ht).resolve_left hnew
      refine .inr ⟨?_, hmany⟩
      by_contra hinTx
      -- each of its places has an identifier of its own
      obtain ⟨k, k', t, t', hlt, htoken, htoken', hsymbol, hsymbol'⟩ :=
        two_le_length_filter_iff.mp hmany
      have hid : listingId env table (disableAll tx) (calls + 2)
          (tokens.map ListedToken.symbol) k t.symbol =
          listingId env table (disableAll tx) (calls + 2)
            (tokens.map ListedToken.symbol) k' t'.symbol :=
        hsame _ (mem_itemsOf.mpr ⟨k, t, htoken, rfl⟩) _ (mem_itemsOf.mpr ⟨k', t', htoken', rfl⟩)
          (hsymbol.trans hsymbol'.symm)
      have hdrawn : ∀ k {symbol : Text}, symbol = token.symbol →
          listingId env table (disableAll tx) (calls + 2) (tokens.map ListedToken.symbol) k
            symbol = env.uuid (calls + 2 + 4 * k + 1) 0 := by
        rintro k symbol rfl
        rcases listingId_eq env table (disableAll tx) (calls + 2)
          (tokens.map ListedToken.symbol) k token.symbol with ⟨a, ha, hold, _⟩ | ⟨_, hid⟩
        · exact absurd ⟨a, ha, hold⟩ hnew
        · rwa [if_neg hinTx] at hid
      rw [hdrawn k hsymbol, hdrawn k' hsymbol'] at hid
      have heq := hdraws.injective _ _ hid
      omega

end Known

/-! ## Runs -/

section Runs

variable {table : TokenTable ρ} {tokens : List (ListedToken ρ)}

/-- From here on nothing is rolled back. -/
theorem run_updateTokens_of_filled {s s' : Session TokenStore} {tx : TokenTables ρ}
    (h : (fillTx env table tokens).run s = (s', .ok tx)) :
    (updateTokens env table tokens).run s =
      if env.fails s'.calls then
        (⟨{ s'.store with left := some (table.write tx s'.store.db.walletsDb) }, s'.calls + 1⟩,
          .err .rbatisError)
      else
        (⟨{ db := table.commit tx s'.store.db, left := none }, s'.calls + 1⟩, .ok ()) := by
  unfold updateTokens
  rw [Method.run_bind_of_ok h, Method.run_bind_of_ok (Method.run_modify _ _)]
  by_cases hfails : env.fails s'.calls = true
  · rw [if_pos hfails]
    exact run_execute_of_fails hfails
  · rw [if_neg hfails]
    exact run_execute_of_not_fails (Bool.eq_false_iff.mpr hfails)

theorem run_updateTokens_of_err {s s' : Session TokenStore} {e : WalletError}
    (h : (fillTx env table tokens).run s = (s', .err e)) :
    (updateTokens env table tokens).run s = (s', .err e) := by
  unfold updateTokens
  exact Method.run_bind_of_err h

/-- A call that ends before its transaction is filled changes nothing. -/
theorem replacesList_of_err {s s' : Session TokenStore} {e : WalletError}
    (h : (fillTx env table tokens).run s = (s', .err e)) (hstore : s'.store = s.store) :
    ReplacesList env table tokens s := by
  have hrun := run_updateTokens_of_err h
  constructor
  · intro hok
    rw [hrun] at hok
    cases hok
  · intro hok
    rw [hrun] at hok
    cases hok
  · intro _
    rw [hrun]
    exact hstore

theorem Surroundings.DrawsOnce.calm (h : env.DrawsOnce) : env.calm.DrawsOnce :=
  ⟨h.ne_nil, h.injective⟩

theorem Tidy.calm {n : Nat} {tx : TokenTables ρ} (h : Tidy env n tx) : Tidy env.calm n tx :=
  ⟨h.sharedKey, h.rowsKey, h.shared, h.rows, h.refs⟩

/-- Where nothing fails, the list is taken in. -/
theorem run_updateTokens_calm (hdraws : env.DrawsOnce) {db : Databases} {calls : Nat}
    {tx : TokenTables ρ} (htidy : Tidy env calls tx) (hd : table.read db.walletsDb = tx)
    (hunsaved : ∀ token ∈ tokens, token.Unsaved) (hone : ∀ token ∈ tokens, OneRow tx token)
    (left : Option WalletsDb) :
    ((updateTokens env.calm table tokens).run ⟨⟨db, left⟩, calls⟩).1.store.db =
      table.commit (tablesAfter env.calm table calls tokens tx) db := by
  have hfill := performs_fillTx (d := ⟨db, left⟩) hdraws.calm htidy.calm hd hunsaved hone
  have hrun := hfill.ends fun _ _ => rfl
  have hcalm : ∀ n, ¬ env.calm.fails n = true := fun _ => Bool.false_ne_true
  rw [endOf_replicate] at hrun
  rw [run_updateTokens_of_filled hrun, if_neg (hcalm _)]

omit [TokenRow ρ] in
theorem sameButTimes_iff {db : Databases} {tx : TokenTables ρ} :
    SameButTimes table db (table.commit tx db) ↔
      tx.timeless = (table.read db.walletsDb).timeless := by
  constructor
  · rintro ⟨tx', hdb, htimeless⟩
    have hread := congrArg (fun db : Databases => table.read db.walletsDb) hdb
    simp only [TokenTable.read_commit] at hread
    rw [hread]
    exact htimeless
  · exact fun h => ⟨tx, rfl, h⟩

theorem replacesList_iff_of_commit (hdraws : env.DrawsOnce)
    (hclock : ∀ n, env.nowTsSeconds n ≠ 0) (hunsaved : ∀ token ∈ tokens, token.Unsaved)
    {s : Session TokenStore} {tx : TokenTables ρ} (htidy : Tidy env s.calls tx)
    (hone : ∀ token ∈ tokens, OneRow tx token) (htx : table.read s.store.db.walletsDb = tx)
    (hcommit : (updateTokens env table tokens).run s =
      (⟨⟨table.commit (tablesAfter env table s.calls tokens tx) s.store.db, none⟩,
        s.calls + (2 + 4 * tokens.length) + 1⟩, .ok ())) :
    ReplacesList env table tokens s ↔ KnownOrRelisted table tokens tx := by
  have hcalls : s.calls + 2 + 4 * tokens.length ≤ s.calls + (2 + 4 * tokens.length) + 1 := by
    omega
  have hread : table.read (table.commit (tablesAfter env table s.calls tokens tx)
      s.store.db).walletsDb = tablesAfter env table s.calls tokens tx := table.read_commit ..
  -- what the next call changes
  have hagain (hsame : Consistent (itemsOf env table s.calls tokens tx)) :=
    run_updateTokens_calm hdraws (tidy_tablesAfter hdraws htidy hcalls) hread hunsaved
      (fun _ => oneRow_tablesAfter hdraws htidy hone hsame) none
  have hknown : KnownOrRelisted table tokens tx ↔
      Consistent (itemsOf env table s.calls tokens tx) ∧
        ∀ token ∈ tokens, (∃ a ∈ tx.shared, a.row.symbol = token.symbol) ∨
          2 ≤ (tokens.filter fun t => t.symbol = token.symbol).length :=
    knownOrRelisted_iff hdraws hone
  rw [hknown]
  constructor
  · intro h
    have hreplaced := h.replaced (by rw [hcommit])
    rw [hcommit, htx, hread] at hreplaced
    have hsame := (replaced_iff hdraws htidy hone).mp hreplaced
    have htimes := h.again (by rw [hcommit])
    rw [hcommit, hagain hsame, sameButTimes_iff, hread] at htimes
    exact ⟨hsame, (timeless_tablesAfter_iff hdraws htidy hone hsame hunsaved hclock).mp htimes⟩
  · rintro ⟨hsame, hold⟩
    constructor
    · intro _
      rw [hcommit, htx, hread]
      exact (replaced_iff hdraws htidy hone).mpr hsame
    · intro _
      rw [hcommit, hagain hsame, sameButTimes_iff, hread]
      exact (timeless_tablesAfter_iff hdraws htidy hone hsame hunsaved hclock).mpr hold
    · intro hnot
      rw [hcommit] at hnot
      exact absurd rfl hnot

/-- The transaction is filled, or an error ends the call and has changed nothing. -/
theorem run_fillTx_cases (hdraws : env.DrawsOnce)
    (hunsaved : ∀ token ∈ tokens, token.Unsaved) {s : Session TokenStore}
    {tx : TokenTables ρ} (htidy : Tidy env s.calls tx)
    (htx : table.read s.store.db.walletsDb = tx) :
    ((¬ ∀ token ∈ tokens, OneRow tx token) ∨
        ∃ i < 2 + 4 * tokens.length, env.fails (s.calls + i) = true) ∧
        (∃ s' e, (fillTx env table tokens).run s = (s', .err e) ∧ s'.store = s.store) ∨
      (∀ token ∈ tokens, OneRow tx token) ∧
        (∀ i < 2 + 4 * tokens.length, env.fails (s.calls + i) = false) ∧
        (fillTx env table tokens).run s = (⟨s.store, s.calls + (2 + 4 * tokens.length)⟩,
          .ok (tablesAfter env table s.calls tokens tx)) := by
  by_cases hone : ∀ token ∈ tokens, OneRow tx token
  · have hfill := performs_fillTx hdraws htidy htx hunsaved hone
    rcases hfill.cases with ⟨i, e, hi, hfails, _, hrun⟩ | ⟨hnone, hrun⟩
    · rw [List.length_replicate] at hi
      exact .inl ⟨.inr ⟨i, hi, hfails⟩, _, e, hrun, storeAfter_replicate ..⟩
    · rw [endOf_replicate, List.length_replicate] at hrun
      rw [List.length_replicate] at hnone
      exact .inr ⟨hone, hnone, hrun⟩
  · obtain ⟨m, hfill⟩ := performs_fillTx_of_not hdraws htidy htx hunsaved hone
    refine .inl ⟨.inl hone, ?_⟩
    rcases hfill.cases with ⟨i, e, _, _, _, hrun⟩ | ⟨_, hrun⟩
    · exact ⟨_, e, hrun, storeAfter_replicate ..⟩
    · exact ⟨_, _, hrun, endOf_replicate ..⟩

/-- **Lists of tokens are replaced** exactly if the call ends before its transaction loses its
guard, because a token has several rows or an operation fails, or if it commits and each token
was there before, or is listed again and looked up in the transaction. -/
theorem replacesList_iff (hdraws : env.DrawsOnce) (hclock : ∀ n, env.nowTsSeconds n ≠ 0)
    (hunsaved : ∀ token ∈ tokens, token.Unsaved) {s : Session TokenStore}
    (htidy : Tidy env s.calls (table.read s.store.db.walletsDb)) (hleft : s.store.left = none) :
    ReplacesList env table tokens s ↔
      (¬ ∀ token ∈ tokens, OneRow (table.read s.store.db.walletsDb) token) ∨
        (∃ i < 2 + 4 * tokens.length, env.fails (s.calls + i) = true) ∨
        env.fails (s.calls + (2 + 4 * tokens.length)) = false ∧
          KnownOrRelisted table tokens (table.read s.store.db.walletsDb) := by
  rcases run_fillTx_cases hdraws hunsaved htidy rfl with
    ⟨hends, s', e, hrun, hstore⟩ | ⟨hone, hnone, hrun⟩
  · exact iff_of_true (replacesList_of_err hrun hstore) (hends.imp_right .inl)
  · have hnone' : ¬ ∃ i < 2 + 4 * tokens.length, env.fails (s.calls + i) = true := by
      rintro ⟨i, hi, hfails⟩
      rw [hnone i hi] at hfails
      cases hfails
    rw [or_iff_right (not_not.mpr hone), or_iff_right hnone']
    have hcommit := run_updateTokens_of_filled hrun
    cases hfails : env.fails (s.calls + (2 + 4 * tokens.length)) with
    | true =>
      -- the transaction is left as it is
      rw [if_pos hfails] at hcommit
      refine iff_of_false (fun h => ?_) fun h => Bool.noConfusion h.1
      have hstore := h.unchanged (by rw [hcommit]; exact fun h => nomatch h)
      rw [hcommit] at hstore
      exact absurd ((congrArg TokenStore.left hstore).trans hleft) (Option.some_ne_none _)
    | false =>
      rw [if_neg (Bool.eq_false_iff.mp hfails)] at hcommit
      rw [and_iff_right rfl]
      exact replacesList_iff_of_commit hdraws hclock hunsaved htidy hone rfl hcommit

end Runs

/-! ## Lists of two tokens -/

/-- Nothing fails, and the identifiers are all different. -/
def drawing : Surroundings where
  fails _ := false
  uuid n k := List.replicate (n + 1) 'u' ++ List.replicate k 'k'
  nowTsSeconds _ := 1

/-- The databases with some tokens. -/
def tokenDb (shared : List (Saved MEthChainTokenShared)) : Databases where
  walletsDb := ⟨[], [], [], shared, [], [], [], [], [], [], [], [], []⟩
  mnemonicDb := []
  dataDb _ := ⟨[], [], [], [], [], [], []⟩

def usdt : MEthChainTokenShared := { (default : MChainTokenShared) with symbol := ['U'] }

def dai : MEthChainTokenShared := { (default : MChainTokenShared) with symbol := ['D'] }

/-- A token on a network. -/
def usdtOn (netType : NetType) : ListedToken MEthChainTokenAuth where
  m := ⟨default, ⟨[], netType.toString, 0, 0⟩, []⟩
  tokenShared := ⟨default, usdt⟩

/-- Another token, which has the second place and a contract. -/
def daiOn (netType : NetType) : ListedToken MEthChainTokenAuth where
  m := ⟨default, ⟨[], netType.toString, 1, 0⟩, ['c']⟩
  tokenShared := ⟨default, dai⟩

/-- Both tokens are known, one of them on one network and the other one on another network. -/
def knownRows : List (Saved MEthChainTokenAuth) :=
  [⟨⟨['q'], 1, 1⟩, ⟨['s'], NetType.main.toString, 3, 1⟩, []⟩,
    ⟨⟨['r'], 1, 1⟩, ⟨['t'], NetType.test.toString, 0, 1⟩, []⟩]

def knownTables : TokenTables MEthChainTokenAuth :=
  ⟨[⟨⟨['s'], 1, 1⟩, usdt⟩, ⟨⟨['t'], 1, 1⟩, dai⟩], knownRows⟩

theorem drawsOnce_drawing : drawing.DrawsOnce where
  ne_nil _ _ h := by cases h
  injective n n' h := by simpa [drawing] using congrArg List.length h

theorem tidy_knownTables : Tidy drawing 0 knownTables := by
  have hdrawn : ∀ (c : Char) (m : Nat), c ≠ 'u' → [c] ≠ drawing.uuid m 0 := by
    intro c m hc h
    exact hc (by simpa [drawing, List.replicate_succ] using congrArg List.head? h)
  refine ⟨by decide, by decide, ?_, ?_, ?_⟩
  · intro a ha
    simp only [knownTables, List.mem_cons, List.not_mem_nil, or_false] at ha
    rcases ha with rfl | rfl
    · exact ⟨by decide, fun m _ => hdrawn 's' m (by decide)⟩
    · exact ⟨by decide, fun m _ => hdrawn 't' m (by decide)⟩
  · intro r hr
    simp only [knownTables, knownRows, List.mem_cons, List.not_mem_nil, or_false] at hr
    rcases hr with rfl | rfl
    · exact ⟨by decide, fun m _ => hdrawn 'q' m (by decide)⟩
    · exact ⟨by decide, fun m _ => hdrawn 'r' m (by decide)⟩
  · intro r hr m _
    simp only [knownTables, knownRows, List.mem_cons, List.not_mem_nil, or_false] at hr
    rcases hr with rfl | rfl
    · exact hdrawn 's' m (by decide)
    · exact hdrawn 't' m (by decide)

/-- Tokens that are there are replaced: one keeps its row, one has a row disabled, and both are
added on a network. -/
theorem replacesList_of_known :
    ReplacesList drawing ethAuthTable [daiOn .main, usdtOn .main, usdtOn .test]
      ⟨⟨{ tokenDb [] with walletsDb := ethAuthTable.write knownTables (tokenDb []).walletsDb },
        none⟩, 0⟩ := by
  refine (replacesList_iff drawsOnce_drawing (fun _ => show (1 : Int64) ≠ 0 by decide) ?_
    tidy_knownTables rfl).mpr (.inr (.inr ⟨rfl, ?_⟩))
  · intro token ht
    simp only [List.mem_cons, List.not_mem_nil, or_false] at ht
    rcases ht with rfl | rfl | rfl
    · exact ⟨rfl, rfl⟩
    · exact ⟨rfl, rfl⟩
    · exact ⟨rfl, rfl⟩
  · intro token ht
    simp only [List.mem_cons, List.not_mem_nil, or_false] at ht
    rcases ht with rfl | rfl | rfl
    · exact .inl ⟨⟨⟨['t'], 1, 1⟩, dai⟩, .tail _ (.head _), rfl⟩
    · exact .inl ⟨⟨⟨['s'], 1, 1⟩, usdt⟩, .head _, rfl⟩
    · exact .inl ⟨⟨⟨['s'], 1, 1⟩, usdt⟩, .head _, rfl⟩

/-- A new token that the list names for two networks is added twice. -/
theorem not_replacesList_of_two_networks :
    ¬ ReplacesList drawing ethAuthTable [usdtOn .main, usdtOn .test] ⟨⟨tokenDb [], none⟩, 0⟩ := by
  intro h
  have hok : ((updateTokens drawing ethAuthTable [usdtOn .main, usdtOn .test]).run
      ⟨⟨tokenDb [], none⟩, 0⟩).2 = .ok () := by rfl
  have hshared := (h.replaced hok).shared ['U'] (by decide)
  exact absurd hshared (by decide)

end Cashbox.Wallets
