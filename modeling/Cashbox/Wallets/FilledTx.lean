import Cashbox.Wallets.TokenLists

/-!
# What a transaction is filled with

The statements of the functions that replace a list save one row after the other. What they
come to is that the tables take in the list: the shared tokens under their identifiers, and
the rows under the shared token and the network.
-/

namespace Cashbox.Wallets

open Cashbox.Lib TokenRow

variable {ρ : Type} [TokenRow ρ]

/-! ## Items -/

def ListedToken.symbol (token : ListedToken ρ) : Text := token.tokenShared.row.symbol

def ListedToken.netType (token : ListedToken ρ) : Text := (base token.m.row).netType

/-- A token of the list with the number of its first operation, and with the identifier of its
shared token. -/
structure Listing (ρ : Type) where
  n : Nat
  id : Text
  token : ListedToken ρ

variable (env : Surroundings)

/-- Shared tokens are taken in under their identifiers. -/
def sharedUpsert (ρ : Type) : Upsert (Saved MChainTokenShared) Text (Listing ρ) where
  key a := a.shared.id
  keyOf i := i.id
  update i a := ⟨{ a.shared with
    createTime := i.token.tokenShared.shared.createTime
    updateTime := env.nowTsSeconds (i.n + 1) }, i.token.tokenShared.row⟩
  new i :=
    ⟨⟨i.id, env.nowTsSeconds (i.n + 1), env.nowTsSeconds (i.n + 1)⟩, i.token.tokenShared.row⟩
  key_update _ _ := rfl
  key_new _ := rfl

def rowKey (r : Saved ρ) : Text × Text := ((base r.row).chainTokenSharedId, (base r.row).netType)

@[simp] theorem base_setStatus (status : Int64) (r : ρ) :
    base (setStatus status r) = { base r with status } := base_make _ _

@[simp] theorem base_setPosition (token r : ρ) :
    base (setPosition token r) = { base r with position := (base token).position } := base_make _ _

@[simp] theorem base_setSharedId (chainTokenSharedId : Text) (token : ρ) :
    base (setSharedId chainTokenSharedId token) = { base token with chainTokenSharedId } :=
  base_make _ _

/-- Rows are taken in under the shared token and the network. -/
def rowUpsert : Upsert (Saved ρ) (Text × Text) (Listing ρ) where
  key := rowKey
  keyOf i := (i.id, i.token.netType)
  update i r :=
    ⟨beforeUpdate env (i.n + 3) r.shared, setStatus 1 (setPosition i.token.m.row r.row)⟩
  new i :=
    ⟨⟨env.uuid (i.n + 3) 0, env.nowTsSeconds (i.n + 3), env.nowTsSeconds (i.n + 3)⟩,
      setStatus 1 (setSharedId i.id i.token.m.row)⟩
  key_update i r := by
    simp only [rowKey, base_setStatus, base_setPosition]
  key_new i := by
    simp only [rowKey, base_setStatus, base_setSharedId, ListedToken.netType]

def takeIn (tx : TokenTables ρ) (i : Listing ρ) : TokenTables ρ where
  shared := (sharedUpsert env ρ).step tx.shared i
  rows := (rowUpsert env).step tx.rows i

variable {env}

/-! ## One token -/

/-- A list of tokens that was made from structures without identifiers and times. -/
def ListedToken.Unsaved (token : ListedToken ρ) : Prop :=
  token.m.shared = default ∧ token.tokenShared.shared = default

/-- What holds of the tables before an operation: identifiers are keys, and none is one that is
drawn later. -/
structure Tidy (env : Surroundings) (n : Nat) (tx : TokenTables ρ) : Prop where
  sharedKey : (tx.shared.map fun a => a.shared.id).Nodup
  rowsKey : (tx.rows.map fun r => r.shared.id).Nodup
  shared : ∀ a ∈ tx.shared, a.shared.id ≠ [] ∧ ∀ m, n ≤ m → a.shared.id ≠ env.uuid m 0
  rows : ∀ r ∈ tx.rows, r.shared.id ≠ [] ∧ ∀ m, n ≤ m → r.shared.id ≠ env.uuid m 0
  refs : ∀ r ∈ tx.rows, ∀ m, n ≤ m → (rowKey r).1 ≠ env.uuid m 0

/-- The identifier of the shared token that is saved: that of the one which is seen, or a new
one. -/
def seenId (env : Surroundings) (n : Nat) (seen : List (Saved MChainTokenShared)) : Text :=
  (seen.head?.map fun a => a.shared.id).getD (env.uuid (n + 1) 0)

section One

variable {tx : TokenTables ρ} {i : Listing ρ} {seen : List (Saved MChainTokenShared)}

/-- The shared token is updated if one is seen, and otherwise added. -/
theorem saveUpdate_shared (htidy : Tidy env i.n tx) (hunsaved : i.token.Unsaved)
    (hid : i.id = seenId env i.n seen)
    (hkept : ∀ a ∈ seen, a.shared.id ∈ tx.shared.map fun a => a.shared.id) :
    ∃ m : Saved MChainTokenShared, m.shared.id = i.id ∧
      saveUpdate env (i.n + 1) (i.token.sharedToSave seen.head?) tx.shared =
        (m, (sharedUpsert env ρ).step tx.shared i) := by
  cases hhead : seen.head? with
  | some a =>
    rw [seenId, hhead] at hid
    have hmem : i.id ∈ tx.shared.map fun a => a.shared.id := by
      rw [hid]
      exact hkept a (List.mem_of_head? hhead)
    -- an identifier that is found is not empty, so that the row is updated
    have hne : a.shared.id ≠ [] := by
      obtain ⟨b, hb, hba⟩ := List.mem_map.mp (hkept a (List.mem_of_head? hhead))
      rw [← hba]
      exact (htidy.shared b hb).1
    refine ⟨⟨beforeUpdate env (i.n + 1) { i.token.tokenShared.shared with id := a.shared.id },
      i.token.tokenShared.row⟩, hid.symm, ?_⟩
    rw [Upsert.step_of_mem hmem]
    refine (if_neg hne).trans (congrArg (Prod.mk _) ?_)
    refine List.map_congr_left fun b _ => ?_
    by_cases hb : b.shared.id = i.id
    · refine (if_pos (hb.trans hid)).trans (Eq.trans ?_ (if_pos hb).symm)
      rw [hid] at hb
      simp [sharedUpsert, beforeUpdate, ListedToken.sharedToSave, hb]
    · exact (if_neg fun heq => hb (heq.trans hid.symm)).trans (if_neg hb).symm
  | none =>
    rw [seenId, hhead] at hid
    have hnil : i.token.tokenShared.shared.id = [] := by
      rw [hunsaved.2]
      rfl
    -- one that is drawn now is in no row
    have hnew : i.id ∉ tx.shared.map fun a => a.shared.id := by
      intro hmem
      obtain ⟨b, hb, hbi⟩ := List.mem_map.mp hmem
      exact (htidy.shared b hb).2 (i.n + 1) (Nat.le_succ _) (hbi.trans hid)
    refine ⟨(sharedUpsert env ρ).new i, rfl, ?_⟩
    rw [Upsert.step_of_not_mem hnew]
    refine (if_pos hnil).trans ?_
    simp [sharedUpsert, beforeSave, ListedToken.sharedToSave, hnil, hid]

/-- The row is updated if it is found, and otherwise added. -/
theorem saveUpdate_row (htidy : Tidy env i.n tx) (hunsaved : i.token.Unsaved)
    (hone : ((rowUpsert env).under (i.id, i.token.netType) tx.rows).length ≤ 1) :
    (saveUpdate env (i.n + 3) (i.token.rowToSave i.id
      ((rowUpsert env).under (i.id, i.token.netType) tx.rows).head?) tx.rows).2 =
      (rowUpsert env).step tx.rows i := by
  cases hhead : ((rowUpsert env).under (i.id, i.token.netType) tx.rows).head? with
  | some r =>
    have hunder : (rowUpsert env).under (i.id, i.token.netType) tx.rows = [r] := by
      generalize (rowUpsert env).under (i.id, i.token.netType) tx.rows = found at hhead hone
      rcases found with _ | ⟨r', _ | ⟨r'', rest⟩⟩
      · cases hhead
      · rw [Option.some.inj hhead]
      · simp at hone
    obtain ⟨hr, hkey⟩ := Upsert.mem_under.mp (hunder ▸ List.mem_singleton_self r)
    have hmem : (rowUpsert env).keyOf i ∈ tx.rows.map (rowUpsert env).key :=
      List.mem_map.mpr ⟨r, hr, hkey⟩
    rw [Upsert.step_of_mem hmem]
    refine (congrArg Prod.snd (if_neg (htidy.rows r hr).1)).trans ?_
    refine List.map_congr_left fun b hb => ?_
    by_cases hbkey : (rowUpsert env).key b = (rowUpsert env).keyOf i
    · -- it is the row that was found
      obtain rfl : b = r := List.mem_singleton.mp (hunder ▸ Upsert.mem_under.mpr ⟨hb, hbkey⟩)
      rw [Upsert.put, if_pos hbkey]
      exact if_pos rfl
    · rw [Upsert.put, if_neg hbkey]
      refine if_neg fun hid => hbkey ?_
      rw [List.inj_on_of_nodup_map htidy.rowsKey hb hr hid]
      exact hkey
  | none =>
    have hnew : (rowUpsert env).keyOf i ∉ tx.rows.map (rowUpsert env).key :=
      Upsert.under_eq_nil_iff.mp (List.head?_eq_none_iff.mp hhead)
    have hnil : i.token.m.shared.id = [] := by
      rw [hunsaved.1]
      rfl
    rw [Upsert.step_of_not_mem hnew]
    refine (congrArg Prod.snd (if_pos hnil)).trans ?_
    simp [rowUpsert, beforeSave, ListedToken.rowToSave, hnil]

/-! ### The first block of the loop -/

theorem performs_saveShared (table : TokenTable ρ) {s : Session TokenStore}
    (hs : s.calls = i.n) (htidy : Tidy env i.n tx) (hunsaved : i.token.Unsaved)
    (hseen : (sharedSeen table tx s.store).filter (fun a => a.row.symbol = i.token.symbol) = seen)
    (hlen : seen.length ≤ 1) (hid : i.id = seenId env i.n seen)
    (hkept : ∀ a ∈ seen, a.shared.id ∈ tx.shared.map fun a => a.shared.id) :
    ∃ m : Saved MChainTokenShared, m.shared.id = i.id ∧
      Performs env.fails (saveShared env table i.token tx) s [s.store, s.store]
        (.ok (m, ⟨(sharedUpsert env ρ).step tx.shared i, tx.rows⟩)) := by
  have hread : fetchShared i.token.tokenShared.row.symbol (sharedSeen table tx s.store) =
      .ok seen.head? := by
    rw [← fetchOne_of_le .rbatisError hlen, ← hseen]
    rfl
  obtain ⟨m, hm, hsave⟩ := saveUpdate_shared htidy hunsaved hid hkept
  rw [← hs] at hsave
  refine ⟨m, hm, (Performs.query_of_eq hread).bind (Performs.inTx_of_eq ?_)⟩
  exact congrArg (fun saved => (saved.1, TokenTables.mk saved.2 tx.rows)) hsave

omit [TokenRow ρ] in
/-- Several shared tokens with the symbol are an error. -/
theorem performs_saveShared_of_many (table : TokenTable ρ) {token : ListedToken ρ}
    {s : Session TokenStore}
    (hmany : 1 < ((sharedSeen table tx s.store).filter
      fun a => a.row.symbol = token.symbol).length) :
    Performs env.fails (saveShared env table token tx) s [s.store] (.err .rbatisError) := by
  have hread : fetchShared token.tokenShared.row.symbol (sharedSeen table tx s.store) =
      .err .rbatisError := fetchOne_of_lt _ hmany
  exact (Performs.query_of_eq hread).bind_err

/-! ### The second block of the loop -/

theorem filter_eq_under (env : Surroundings) (id netType : Text) (rows : List (Saved ρ)) :
    rows.filter (fun r => (base r.row).chainTokenSharedId = id ∧ (base r.row).netType = netType) =
      (rowUpsert env).under (id, netType) rows :=
  List.filter_congr fun _ _ => decide_eq_decide.mpr Prod.mk_inj.symm

theorem performs_saveRow {s : Session TokenStore} (hs : s.calls = i.n + 2)
    (htidy : Tidy env i.n tx) (hunsaved : i.token.Unsaved)
    (hone : ((rowUpsert env).under (i.id, i.token.netType) tx.rows).length ≤ 1)
    (shared : List (Saved MChainTokenShared)) :
    Performs env.fails (saveRow env i.token i.id ⟨shared, tx.rows⟩) s [s.store, s.store]
      (.ok ⟨shared, (rowUpsert env).step tx.rows i⟩) := by
  have hfind : fetchRow i.id (base i.token.m.row).netType tx.rows =
      .ok ((rowUpsert env).under (i.id, i.token.netType) tx.rows).head? := by
    rw [← fetchOne_of_le .rbatisError hone, ← filter_eq_under]
    rfl
  have hrow := saveUpdate_row htidy hunsaved hone
  rw [show i.n + 3 = s.calls + 1 by rw [hs]] at hrow
  refine (Performs.query_of_eq hfind).bind (Performs.inTx_of_eq ?_)
  exact congrArg (TokenTables.mk shared) hrow

/-- Several rows of the token and the network are an error. -/
theorem performs_saveRow_of_many {token : ListedToken ρ} {id : Text} {s : Session TokenStore}
    (hmany : 1 < ((rowUpsert env).under (id, token.netType) tx.rows).length) :
    Performs env.fails (saveRow env token id tx) s [s.store] (.err .rbatisError) := by
  rw [← filter_eq_under] at hmany
  have hfind : fetchRow id (base token.m.row).netType tx.rows = .err .rbatisError :=
    fetchOne_of_lt _ hmany
  exact (Performs.query_of_eq hfind).bind_err

/-- One token of the list is taken in by four operations. -/
theorem performs_updateToken (table : TokenTable ρ) {d : TokenStore} (htidy : Tidy env i.n tx)
    (hunsaved : i.token.Unsaved)
    (hseen : (sharedSeen table tx d).filter (fun a => a.row.symbol = i.token.symbol) = seen)
    (hlen : seen.length ≤ 1) (hid : i.id = seenId env i.n seen)
    (hkept : ∀ a ∈ seen, a.shared.id ∈ tx.shared.map fun a => a.shared.id)
    (hone : ((rowUpsert env).under (i.id, i.token.netType) tx.rows).length ≤ 1) :
    Performs env.fails (updateToken env table i.token tx) ⟨d, i.n⟩ (List.replicate 4 d)
      (.ok (takeIn env tx i)) := by
  obtain ⟨m, hm, hshared⟩ :=
    performs_saveShared table (s := ⟨d, i.n⟩) rfl htidy hunsaved hseen hlen hid hkept
  refine hshared.bind ?_
  show Performs _ (saveRow env i.token m.shared.id _) _ _ _
  rw [hm]
  exact performs_saveRow rfl htidy hunsaved hone _

/-- A token with several rows is an error. -/
theorem performs_updateToken_of_many (table : TokenTable ρ) {d : TokenStore}
    (htidy : Tidy env i.n tx) (hunsaved : i.token.Unsaved)
    (hseen : (sharedSeen table tx d).filter (fun a => a.row.symbol = i.token.symbol) = seen)
    (hlen : seen.length ≤ 1) (hid : i.id = seenId env i.n seen)
    (hkept : ∀ a ∈ seen, a.shared.id ∈ tx.shared.map fun a => a.shared.id)
    (hmany : 1 < ((rowUpsert env).under (i.id, i.token.netType) tx.rows).length) :
    Performs env.fails (updateToken env table i.token tx) ⟨d, i.n⟩ (List.replicate 3 d)
      (.err .rbatisError) := by
  obtain ⟨m, hm, hshared⟩ :=
    performs_saveShared table (s := ⟨d, i.n⟩) rfl htidy hunsaved hseen hlen hid hkept
  refine hshared.bind ?_
  show Performs _ (saveRow env i.token m.shared.id _) _ _ _
  rw [hm]
  exact performs_saveRow_of_many hmany

/-- What is taken in is tidy again. -/
theorem Tidy.takeIn (hdraws : env.DrawsOnce) (h : Tidy env i.n tx)
    (hid : i.id ∈ (tx.shared.map fun a => a.shared.id) ∨ i.id = env.uuid (i.n + 1) 0) :
    Tidy env (i.n + 4) (takeIn env tx i) := by
  have hdrawn : ∀ {m m' : Nat}, m < m' → env.uuid m 0 ≠ env.uuid m' 0 := fun hlt heq =>
    Nat.ne_of_lt hlt (hdraws.injective _ _ heq)
  -- the identifier of the shared token is not drawn later
  have hold : i.id ≠ [] ∧ ∀ m, i.n + 4 ≤ m → i.id ≠ env.uuid m 0 := by
    rcases hid with hmem | hnew
    · obtain ⟨a, ha, hai⟩ := List.mem_map.mp hmem
      rw [← hai]
      exact ⟨(h.shared a ha).1, fun m hm => (h.shared a ha).2 m (by omega)⟩
    · rw [hnew]
      exact ⟨hdraws.ne_nil _ _, fun m hm => hdrawn (by omega)⟩
  constructor
  · exact Upsert.nodup_map_key_step (u := sharedUpsert env ρ) h.sharedKey
  · show (((rowUpsert env).step tx.rows i).map fun r => r.shared.id).Nodup
    by_cases hmem : (rowUpsert env).keyOf i ∈ tx.rows.map (rowUpsert env).key
    · rw [Upsert.step_of_mem hmem, List.map_map]
      refine (List.map_congr_left fun r _ => ?_).symm ▸ h.rowsKey
      simp only [Function.comp, Upsert.put]
      split <;> rfl
    · rw [Upsert.step_of_not_mem hmem, List.map_append, List.nodup_append]
      refine ⟨h.rowsKey, List.nodup_singleton _, ?_⟩
      intro id hid id' hid'
      obtain ⟨r, hr, rfl⟩ := List.mem_map.mp hid
      rw [List.map_singleton, List.mem_singleton] at hid'
      rw [hid']
      exact (h.rows r hr).2 (i.n + 3) (Nat.le_add_right _ _)
  · refine Upsert.forall_mem_step (fun a ha => ?_) (fun a _ ha => ha) hold
    exact ⟨(h.shared a ha).1, fun m hm => (h.shared a ha).2 m (by omega)⟩
  · refine Upsert.forall_mem_step (fun r hr => ?_) (fun r _ hr => hr) ?_
    · exact ⟨(h.rows r hr).1, fun m hm => (h.rows r hr).2 m (by omega)⟩
    · exact ⟨hdraws.ne_nil _ _, fun m hm => hdrawn (by omega)⟩
  · refine Upsert.forall_mem_step (fun r hr m hm => h.refs r hr m (by omega)) ?_ ?_
    · intro r _ hr m hm
      have hkey := congrArg Prod.fst ((rowUpsert env).key_update i r)
      exact hkey.trans_ne (hr m hm)
    · intro m hm
      have hkey := congrArg Prod.fst ((rowUpsert (ρ := ρ) env).key_new i)
      exact hkey.trans_ne (hold.2 m hm)

end One

/-! ## The list -/

/-- The tables after some items. -/
def takeInAll (env : Surroundings) (items : List (Listing ρ)) (tx : TokenTables ρ) :
    TokenTables ρ where
  shared := (sharedUpsert env ρ).all items tx.shared
  rows := (rowUpsert env).all items tx.rows

theorem takeInAll_concat (items : List (Listing ρ)) (i : Listing ρ) (tx : TokenTables ρ) :
    takeInAll env (items ++ [i]) tx = takeIn env (takeInAll env items tx) i := by
  unfold takeInAll takeIn
  rw [Upsert.all_concat, Upsert.all_concat]

/-- A token has one shared token at most, and that has one row at most on the network. -/
structure OneRow (tx : TokenTables ρ) (token : ListedToken ρ) : Prop where
  shared : (tx.shared.filter fun a => a.row.symbol = token.symbol).length ≤ 1
  rows : ∀ a ∈ tx.shared, a.row.symbol = token.symbol →
    (tx.rows.filter fun r => (base r.row).chainTokenSharedId = a.shared.id ∧
      (base r.row).netType = token.netType).length ≤ 1

section List

variable (env) (table : TokenTable ρ) (tx : TokenTables ρ) (n : Nat) (symbols : List Text)

/-- The identifier of the shared token of the `k`-th token. If it is looked up in the
transaction, a new one has the identifier that is drawn when its symbol comes first. -/
def listingId (k : Nat) (symbol : Text) : Text :=
  seenId env (n + 4 * if table.inTx then symbols.idxOf symbol else k)
    (tx.shared.filter fun a => a.row.symbol = symbol)

def listing (k : Nat) (token : ListedToken ρ) : Listing ρ :=
  ⟨n + 4 * k, listingId env table tx n symbols k token.symbol, token⟩

/-- The items that a list comes to. -/
def listings (tokens : List (ListedToken ρ)) : List (Listing ρ) :=
  tokens.mapIdx (listing env table tx n symbols)

variable {env table tx n symbols}

omit [TokenRow ρ] in
theorem listings_concat (tokens : List (ListedToken ρ)) (token : ListedToken ρ) :
    listings env table tx n symbols (tokens ++ [token]) =
      listings env table tx n symbols tokens ++
        [listing env table tx n symbols tokens.length token] :=
  List.mapIdx_concat

omit [TokenRow ρ] in
theorem mem_listings {tokens : List (ListedToken ρ)} {i : Listing ρ} :
    i ∈ listings env table tx n symbols tokens ↔
      ∃ k token, tokens[k]? = some token ∧ i = listing env table tx n symbols k token := by
  unfold listings
  rw [List.mem_mapIdx]
  constructor
  · rintro ⟨k, hk, rfl⟩
    exact ⟨k, tokens[k], List.getElem?_eq_getElem hk, rfl⟩
  · rintro ⟨k, token, htoken, rfl⟩
    obtain ⟨hk, rfl⟩ := List.getElem?_eq_some_iff.mp htoken
    exact ⟨k, hk, rfl⟩

/-! ### Identifiers and symbols -/

theorem seenId_eq (env : Surroundings) (m : Nat) (seen : List (Saved MChainTokenShared)) :
    (∃ a ∈ seen, seenId env m seen = a.shared.id) ∨
      seen = [] ∧ seenId env m seen = env.uuid (m + 1) 0 := by
  rcases seen with _ | ⟨a, seen⟩
  · exact .inr ⟨rfl, rfl⟩
  · exact .inl ⟨a, List.mem_cons_self, rfl⟩

omit [TokenRow ρ] in
/-- The identifier is that of the token with the symbol, or a new one. -/
theorem listingId_eq (env : Surroundings) (table : TokenTable ρ) (tx : TokenTables ρ) (n : Nat)
    (symbols : List Text) (k : Nat) (symbol : Text) :
    (∃ a ∈ tx.shared, a.row.symbol = symbol ∧
        listingId env table tx n symbols k symbol = a.shared.id) ∨
      (∀ a ∈ tx.shared, a.row.symbol ≠ symbol) ∧
        listingId env table tx n symbols k symbol =
          env.uuid (n + 4 * (if table.inTx then symbols.idxOf symbol else k) + 1) 0 := by
  rcases seenId_eq env (n + 4 * if table.inTx then symbols.idxOf symbol else k)
    (tx.shared.filter fun a => a.row.symbol = symbol) with ⟨a, ha, hid⟩ | ⟨hnil, hid⟩
  · obtain ⟨ha, hsymbol⟩ := List.mem_filter.mp ha
    exact .inl ⟨a, ha, of_decide_eq_true hsymbol, hid⟩
  · refine .inr ⟨fun a ha hsymbol => ?_, hid⟩
    exact List.filter_eq_nil_iff.mp hnil a ha (decide_eq_true hsymbol)

omit [TokenRow ρ] in
/-- Where it is looked up in the transaction, a symbol has one identifier. -/
theorem listingId_of_inTx (hinTx : table.inTx = true) {symbol symbol' : Text}
    (hsymbol : symbol = symbol') (k k' : Nat) :
    listingId env table tx n symbols k symbol = listingId env table tx n symbols k' symbol' := by
  unfold listingId
  rw [hinTx, hsymbol]
  rfl

section Tidy

variable (htidy : Tidy env n tx)
include htidy

theorem Tidy.eq_of_id {a b : Saved MChainTokenShared} (ha : a ∈ tx.shared) (hb : b ∈ tx.shared)
    (hid : a.shared.id = b.shared.id) : a = b :=
  List.inj_on_of_nodup_map htidy.sharedKey ha hb hid

/-- A shared token that is there has the symbol of the items with its identifier. -/
theorem Tidy.symbol_of_id {a : Saved MChainTokenShared} (ha : a ∈ tx.shared) {k : Nat}
    {symbol : Text} (hid : a.shared.id = listingId env table tx n symbols k symbol) :
    a.row.symbol = symbol := by
  rcases listingId_eq env table tx n symbols k symbol with ⟨b, hb, hsymbol, hid'⟩ | ⟨_, hid'⟩
  · rw [htidy.eq_of_id ha hb (hid.trans hid')]
    exact hsymbol
  · exact absurd (hid.trans hid') ((htidy.shared a ha).2 _ (by omega))

/-- The shared tokens with a symbol are those with its identifier. -/
theorem Tidy.symbol_iff_id {symbol : Text}
    (hone : (tx.shared.filter fun a => a.row.symbol = symbol).length ≤ 1) (k : Nat)
    {a : Saved MChainTokenShared} (ha : a ∈ tx.shared) :
    a.row.symbol = symbol ↔ a.shared.id = listingId env table tx n symbols k symbol := by
  refine ⟨fun hsymbol => ?_, htidy.symbol_of_id ha⟩
  rcases listingId_eq env table tx n symbols k symbol with ⟨b, hb, hsymbol', hid⟩ | ⟨hnew, _⟩
  · have heq : a = b := eq_of_length_le_one hone
      (List.mem_filter.mpr ⟨ha, decide_eq_true hsymbol⟩)
      (List.mem_filter.mpr ⟨hb, decide_eq_true hsymbol'⟩)
    rw [heq, hid]
  · exact absurd hsymbol (hnew a ha)

/-- Items with one identifier have one symbol. -/
theorem Tidy.symbol_of_listingId (hdraws : env.DrawsOnce) {k k' : Nat} {symbol symbol' : Text}
    (hk : symbols[k]? = some symbol) (hk' : symbols[k']? = some symbol')
    (hid : listingId env table tx n symbols k symbol =
      listingId env table tx n symbols k' symbol') : symbol = symbol' := by
  rcases listingId_eq env table tx n symbols k symbol with ⟨a, ha, hsymbol, hida⟩ | ⟨_, hnew⟩
  · rw [← hsymbol]
    exact htidy.symbol_of_id ha (hida.symm.trans hid)
  · rcases listingId_eq env table tx n symbols k' symbol' with ⟨a, ha, hsymbol, hida⟩ | ⟨_, hnew'⟩
    · rw [← hsymbol]
      exact (htidy.symbol_of_id ha (hida.symm.trans hid.symm)).symm
    · have hdrawn := hdraws.injective _ _ (hnew.symm.trans (hid.trans hnew'))
      cases hinTx : table.inTx
      · rw [hinTx] at hdrawn
        obtain rfl : k = k' := by simpa using hdrawn
        exact Option.some.inj (hk.symm.trans hk')
      · rw [hinTx] at hdrawn
        have hidx : symbols.idxOf symbol = symbols.idxOf symbol' := by simpa using hdrawn
        exact (List.idxOf_inj (List.mem_of_getElem? hk)).mp hidx

end Tidy

/-! ### One round -/

omit [TokenRow ρ] in
/-- The shared tokens with a symbol are those with its identifier, also after some items. -/
theorem filter_symbol_all {shared : List (Saved MChainTokenShared)} {items : List (Listing ρ)}
    {symbol id : Text} (hshared : ∀ a ∈ shared, a.row.symbol = symbol ↔ a.shared.id = id)
    (hitems : ∀ i ∈ items, i.token.symbol = symbol ↔ i.id = id) :
    ((sharedUpsert env ρ).all items shared).filter (fun a => a.row.symbol = symbol) =
      (sharedUpsert env ρ).under id ((sharedUpsert env ρ).all items shared) := by
  have hall := Upsert.forall_mem_all (u := sharedUpsert env ρ)
    (p := fun a => a.row.symbol = symbol ↔ a.shared.id = id) hshared
    (fun i hi a (hkey : a.shared.id = i.id) _ => by
      show i.token.symbol = symbol ↔ a.shared.id = id
      rw [hkey]
      exact hitems i hi) hitems
  exact List.filter_congr fun a ha => decide_eq_decide.mpr (hall a ha)

section Round

variable {done rest : List (ListedToken ρ)} {token : ListedToken ρ}
  (hdraws : env.DrawsOnce) (htidy : Tidy env n tx)
  (hsymbols : symbols = (done ++ token :: rest).map ListedToken.symbol)
include hdraws htidy hsymbols

omit hdraws htidy in
/-- The shared token is there, or has the identifier that is drawn for it. -/
theorem mem_or_new :
    listingId env table tx n symbols done.length token.symbol ∈
        (takeInAll env (listings env table tx n symbols done) tx).shared.map
          (fun a => a.shared.id) ∨
      listingId env table tx n symbols done.length token.symbol =
        env.uuid (n + 4 * done.length + 1) 0 := by
  rcases listingId_eq env table tx n symbols done.length token.symbol with
    ⟨a, ha, _, hid⟩ | ⟨_, hid⟩
  · refine .inl ((Upsert.mem_map_key_all (u := sharedUpsert env ρ)).mpr (.inl ?_))
    exact List.mem_map.mpr ⟨a, ha, hid.symm⟩
  · cases hinTx : table.inTx with
    | false =>
      rw [hinTx] at hid
      exact .inr hid
    | true =>
      by_cases hmem : token.symbol ∈ done.map ListedToken.symbol
      · -- it comes again
        obtain ⟨t, ht, hsymbol⟩ := List.mem_map.mp hmem
        obtain ⟨k, hk⟩ := List.getElem?_of_mem ht
        refine .inl ((Upsert.mem_map_key_all (u := sharedUpsert env ρ)).mpr (.inr ?_))
        refine List.mem_map.mpr ⟨_, mem_listings.mpr ⟨k, t, hk, rfl⟩, ?_⟩
        exact listingId_of_inTx hinTx hsymbol k done.length
      · -- it comes for the first time
        have hfirst : symbols.idxOf token.symbol = done.length := by
          rw [hsymbols, List.map_append, List.map_cons, List.idxOf_append_of_notMem hmem,
            List.idxOf_cons_self, List.length_map, Nat.add_zero]
        rw [hinTx, if_pos rfl, hfirst] at hid
        exact .inr hid

/-- The items before have the symbol of the token if they have its identifier. -/
theorem symbol_of_mem_listings {i : Listing ρ} (hi : i ∈ listings env table tx n symbols done)
    (hid : i.id = listingId env table tx n symbols done.length token.symbol) :
    i.token.symbol = token.symbol := by
  obtain ⟨k, t, ht, rfl⟩ := mem_listings.mp hi
  have hk : symbols[k]? = some t.symbol := by
    obtain ⟨hlt, _⟩ := List.getElem?_eq_some_iff.mp ht
    rw [hsymbols, List.getElem?_map, List.getElem?_append_left hlt, ht]
    rfl
  have hlast : symbols[done.length]? = some token.symbol := by
    rw [hsymbols, List.getElem?_map, List.getElem?_append_right (Nat.le_refl _)]
    simp
  exact htidy.symbol_of_listingId hdraws hk hlast hid

/-- Where it is looked up in the transaction, the shared token is that of the items before. -/
theorem filter_symbol_listings (hinTx : table.inTx = true)
    (hone : (tx.shared.filter fun a => a.row.symbol = token.symbol).length ≤ 1) :
    ((sharedUpsert env ρ).all (listings env table tx n symbols done) tx.shared).filter
        (fun a => a.row.symbol = token.symbol) =
      (sharedUpsert env ρ).under (listingId env table tx n symbols done.length token.symbol)
        ((sharedUpsert env ρ).all (listings env table tx n symbols done) tx.shared) := by
  refine filter_symbol_all (fun a ha => htidy.symbol_iff_id hone _ ha) fun i hi => ?_
  refine ⟨fun hsymbol => ?_, symbol_of_mem_listings hdraws htidy hsymbols hi⟩
  obtain ⟨k, t, ht, rfl⟩ := mem_listings.mp hi
  exact listingId_of_inTx hinTx hsymbol k done.length

/-- What is seen of the shared token. -/
theorem exists_seen {d : TokenStore} (hd : (table.read d.db.walletsDb).shared = tx.shared)
    (hone : (tx.shared.filter fun a => a.row.symbol = token.symbol).length ≤ 1) :
    ∃ seen, (sharedSeen table (takeInAll env (listings env table tx n symbols done) tx) d).filter
        (fun a => a.row.symbol = token.symbol) = seen ∧ seen.length ≤ 1 ∧
      listingId env table tx n symbols done.length token.symbol =
        seenId env (n + 4 * done.length) seen ∧
      ∀ a ∈ seen, a.shared.id ∈
        (takeInAll env (listings env table tx n symbols done) tx).shared.map
          fun a => a.shared.id := by
  refine ⟨_, rfl, ?_⟩
  cases hinTx : table.inTx with
  | false =>
    rw [sharedSeen, hinTx, if_neg Bool.false_ne_true, hd]
    refine ⟨hone, ?_, fun a ha => ?_⟩
    · rw [listingId, hinTx]
      rfl
    · exact (Upsert.mem_map_key_all (u := sharedUpsert env ρ)).mpr
        (.inl (List.mem_map_of_mem (List.mem_filter.mp ha).1))
  | true =>
    rw [sharedSeen, hinTx, if_pos rfl]
    refine ⟨?_, ?_, fun a ha => List.mem_map_of_mem (List.mem_filter.mp ha).1⟩
    · rw [takeInAll, filter_symbol_listings hdraws htidy hsymbols hinTx hone,
        Upsert.length_under_all_le_one_iff]
      exact Upsert.length_under_le_one htidy.sharedKey
    · rcases seenId_eq env (n + 4 * done.length) ((takeInAll env
        (listings env table tx n symbols done) tx).shared.filter
          fun a => a.row.symbol = token.symbol) with ⟨a, ha, hid⟩ | ⟨hnil, hid⟩
      · rw [takeInAll, filter_symbol_listings hdraws htidy hsymbols hinTx hone] at ha
        have hkey := (Upsert.mem_under (u := sharedUpsert env ρ)).mp ha
        exact hkey.2.symm.trans hid.symm
      · rw [takeInAll, filter_symbol_listings hdraws htidy hsymbols hinTx hone,
          Upsert.under_eq_nil_iff] at hnil
        rw [hid]
        exact (mem_or_new hsymbols).resolve_left hnil

end Round

/-! ### Rows of one token -/

/-- A new shared token has no rows. -/
theorem Tidy.under_eq_nil (htidy : Tidy env n tx) {m : Nat} (hm : n ≤ m) (netType : Text) :
    (rowUpsert env).under (env.uuid m 0, netType) tx.rows = [] := by
  rw [Upsert.under_eq_nil_iff]
  intro hmem
  obtain ⟨r, hr, hkey⟩ := List.mem_map.mp hmem
  exact htidy.refs r hr m hm (congrArg Prod.fst hkey)

theorem length_under_listingId (htidy : Tidy env n tx) {token : ListedToken ρ}
    (hone : OneRow tx token) (k : Nat) :
    ((rowUpsert env).under (listingId env table tx n symbols k token.symbol, token.netType)
      tx.rows).length ≤ 1 := by
  rcases listingId_eq env table tx n symbols k token.symbol with
    ⟨a, ha, hsymbol, hid⟩ | ⟨_, hid⟩
  · rw [hid, ← filter_eq_under]
    exact hone.rows a ha hsymbol
  · rw [hid, htidy.under_eq_nil (by omega)]
    exact Nat.zero_le 1

/-! ### All rounds -/

section Rounds

variable (hdraws : env.DrawsOnce) (htidy : Tidy env n tx)
include hdraws htidy

theorem Tidy.takeInAll (done : List (ListedToken ρ)) : ∀ {rest : List (ListedToken ρ)},
    symbols = (done ++ rest).map ListedToken.symbol →
      Tidy env (n + 4 * done.length) (takeInAll env (listings env table tx n symbols done) tx) := by
  induction done using List.reverseRecOn with
  | nil => exact fun _ => htidy
  | append_singleton done token ih =>
    intro rest hsymbols
    rw [List.append_assoc, List.singleton_append] at hsymbols
    rw [listings_concat, takeInAll_concat, List.length_append, List.length_singleton]
    exact Tidy.takeIn (i := listing env table tx n symbols done.length token) hdraws (ih hsymbols)
      (mem_or_new hsymbols)

variable {d : TokenStore} (hd : (table.read d.db.walletsDb).shared = tx.shared)
include hd

/-- A round. -/
theorem performs_round {done rest : List (ListedToken ρ)} {token : ListedToken ρ}
    (hsymbols : symbols = (done ++ token :: rest).map ListedToken.symbol)
    (hunsaved : token.Unsaved) (hone : OneRow tx token) :
    Performs env.fails
      (updateToken env table token
        (Wallets.takeInAll env (listings env table tx n symbols done) tx))
      ⟨d, n + 4 * done.length⟩ (List.replicate 4 d)
      (.ok (Wallets.takeInAll env (listings env table tx n symbols (done ++ [token])) tx)) := by
  obtain ⟨seen, hseen, hlen, hid, hkept⟩ := exists_seen hdraws htidy hsymbols hd hone.shared
  rw [listings_concat, takeInAll_concat]
  refine performs_updateToken (i := listing env table tx n symbols done.length token) table
    (htidy.takeInAll hdraws done hsymbols) hunsaved hseen hlen hid hkept ?_
  exact Upsert.length_under_all_le_one_iff.mpr (length_under_listingId htidy hone _)

/-- The rounds of some tokens, and what follows. -/
theorem performs_rounds {rest : List (ListedToken ρ)} {m : Nat}
    {r : Outcome WalletError (TokenTables ρ)} (mid : List (ListedToken ρ)) :
    ∀ done : List (ListedToken ρ), symbols = (done ++ (mid ++ rest)).map ListedToken.symbol →
      (∀ token ∈ mid, token.Unsaved ∧ OneRow tx token) →
      Performs env.fails
        (updateEach env table rest
          (Wallets.takeInAll env (listings env table tx n symbols (done ++ mid)) tx))
        ⟨d, n + 4 * (done ++ mid).length⟩ (List.replicate m d) r →
      Performs env.fails
        (updateEach env table (mid ++ rest)
          (Wallets.takeInAll env (listings env table tx n symbols done) tx))
        ⟨d, n + 4 * done.length⟩ (List.replicate (4 * mid.length + m) d) r := by
  induction mid with
  | nil =>
    intro done _ _ hrest
    simpa using hrest
  | cons token mid ih =>
    intro done hsymbols hmid hrest
    obtain ⟨⟨hunsaved, hone⟩, hmid⟩ := List.forall_mem_cons.mp hmid
    have hround := performs_round hdraws htidy hd hsymbols hunsaved hone
    have hothers := ih (done ++ [token]) (by simpa using hsymbols) hmid
      (by simpa using hrest)
    have hlen : 4 * (token :: mid).length + m = 4 + (4 * mid.length + m) := by
      rw [List.length_cons]
      omega
    rw [hlen]
    refine hround.bind_replicate ?_
    rwa [List.length_append, List.length_singleton] at hothers

/-- The first token that has several rows ends the loop. -/
theorem performs_round_of_not {done rest : List (ListedToken ρ)} {token : ListedToken ρ}
    (hsymbols : symbols = (done ++ token :: rest).map ListedToken.symbol)
    (hdone : ∀ token ∈ done, OneRow tx token) (hunsaved : token.Unsaved)
    (hnot : ¬ OneRow tx token) :
    ∃ m, Performs env.fails
      (updateToken env table token
        (Wallets.takeInAll env (listings env table tx n symbols done) tx))
      ⟨d, n + 4 * done.length⟩ (List.replicate m d) (.err .rbatisError) := by
  by_cases hshared : (tx.shared.filter fun a => a.row.symbol = token.symbol).length ≤ 1
  · -- it has several rows
    have hrows : ∃ a ∈ tx.shared, a.row.symbol = token.symbol ∧
        1 < (tx.rows.filter fun r => (base r.row).chainTokenSharedId = a.shared.id ∧
          (base r.row).netType = token.netType).length := by
      by_contra hall
      refine hnot ⟨hshared, fun a ha hsymbol => ?_⟩
      exact Nat.le_of_not_lt fun hlt => hall ⟨a, ha, hsymbol, hlt⟩
    obtain ⟨a, ha, hsymbol, hlt⟩ := hrows
    rw [(htidy.symbol_iff_id hshared done.length ha).mp hsymbol, filter_eq_under env] at hlt
    obtain ⟨seen, hseen, hlen, hid, hkept⟩ := exists_seen hdraws htidy hsymbols hd hshared
    refine ⟨3, performs_updateToken_of_many
      (i := listing env table tx n symbols done.length token) table
      (htidy.takeInAll hdraws done hsymbols) hunsaved hseen hlen hid hkept ?_⟩
    rw [← Nat.not_le] at hlt ⊢
    exact fun hle => hlt (Upsert.length_under_all_le_one_iff.mp hle)
  · -- it has several shared tokens, which are still there
    refine ⟨1, (performs_saveShared_of_many table ?_).bind_err⟩
    have hmany := Nat.lt_of_not_le hshared
    cases hinTx : table.inTx with
    | false =>
      rw [sharedSeen, hinTx, if_neg Bool.false_ne_true]
      show 1 < ((table.read d.db.walletsDb).shared.filter _).length
      rwa [hd]
    | true =>
      rw [sharedSeen, hinTx, if_pos rfl]
      have hstays : ∀ a ∈ tx.shared.filter (fun a => a.row.symbol = token.symbol),
          a ∈ (Wallets.takeInAll env (listings env table tx n symbols done) tx).shared.filter
            fun a => a.row.symbol = token.symbol := by
        intro a ha
        obtain ⟨ha, hsymbol⟩ := List.mem_filter.mp ha
        refine List.mem_filter.mpr ⟨Upsert.mem_all_of_not_mem ha fun hmem => hshared ?_, hsymbol⟩
        obtain ⟨i, hi, hid⟩ := List.mem_map.mp hmem
        obtain ⟨k, t, ht, rfl⟩ := mem_listings.mp hi
        have hsame : a.row.symbol = t.symbol := htidy.symbol_of_id ha hid.symm
        rw [← of_decide_eq_true hsymbol, hsame]
        exact (hdone t (List.mem_of_getElem? ht)).shared
      -- two rows with the symbol cannot both be the one that is left
      by_contra hle
      have hnodup : (tx.shared.filter fun a => a.row.symbol = token.symbol).Nodup :=
        (List.Nodup.of_map _ htidy.sharedKey).filter _
      generalize tx.shared.filter (fun a => a.row.symbol = token.symbol) = found
        at hmany hstays hnodup
      rcases found with _ | ⟨a, _ | ⟨b, found⟩⟩
      · simp at hmany
      · simp at hmany
      · have heq : a = b := eq_of_length_le_one (Nat.le_of_not_lt hle)
          (hstays a List.mem_cons_self) (hstays b (List.mem_cons_of_mem a List.mem_cons_self))
        exact (List.nodup_cons.mp hnodup).1 (heq ▸ List.mem_cons_self)

end Rounds

end List

/-! ## The transaction -/

section Disabled

variable {tx : TokenTables ρ}

theorem rowKey_setStatus (status : Int64) (r : Saved ρ) :
    rowKey ⟨r.shared, setStatus status r.row⟩ = rowKey r := by
  simp only [rowKey, base_setStatus]

theorem OneRow.disableAll_iff {token : ListedToken ρ} :
    OneRow (disableAll tx) token ↔ OneRow tx token := by
  have hrows : ∀ id, ((disableAll tx).rows.filter fun r =>
      (base r.row).chainTokenSharedId = id ∧ (base r.row).netType = token.netType).length =
      (tx.rows.filter fun r =>
        (base r.row).chainTokenSharedId = id ∧ (base r.row).netType = token.netType).length := by
    intro id
    rw [disableAll, List.filter_map, List.length_map]
    simp only [Function.comp_def, base_setStatus]
  constructor
  · exact fun h => ⟨h.shared, fun a ha hsymbol => hrows a.shared.id ▸ h.rows a ha hsymbol⟩
  · exact fun h => ⟨h.shared, fun a ha hsymbol => (hrows a.shared.id).symm ▸ h.rows a ha hsymbol⟩

theorem Tidy.disableAll {n : Nat} (h : Tidy env n tx) : Tidy env n (disableAll tx) where
  sharedKey := h.sharedKey
  rowsKey := by
    rw [Wallets.disableAll, List.map_map]
    exact h.rowsKey
  shared := h.shared
  rows := List.forall_mem_map.mpr h.rows
  refs := List.forall_mem_map.mpr fun r hr m hm => by
    rw [rowKey_setStatus]
    exact h.refs r hr m hm

theorem Tidy.mono {n n' : Nat} (hle : n ≤ n') (h : Tidy env n tx) : Tidy env n' tx where
  sharedKey := h.sharedKey
  rowsKey := h.rowsKey
  shared a ha := ⟨(h.shared a ha).1, fun m hm => (h.shared a ha).2 m (Nat.le_trans hle hm)⟩
  rows r hr := ⟨(h.rows r hr).1, fun m hm => (h.rows r hr).2 m (Nat.le_trans hle hm)⟩
  refs r hr m hm := h.refs r hr m (Nat.le_trans hle hm)

end Disabled

section Fill

variable (env) (table : TokenTable ρ) (calls : Nat) (tokens : List (ListedToken ρ))
  (tx : TokenTables ρ)

/-- What the list comes to if the function is called before operation `calls`. -/
def itemsOf : List (Listing ρ) :=
  listings env table (disableAll tx) (calls + 2) (tokens.map ListedToken.symbol) tokens

/-- The tables that are committed. -/
def tablesAfter : TokenTables ρ :=
  takeInAll env (itemsOf env table calls tokens tx) (disableAll tx)

variable {env table calls tokens tx} {d : TokenStore}

theorem performs_fillTx_of {m : Nat} {r : Outcome WalletError (TokenTables ρ)}
    (hd : table.read d.db.walletsDb = tx)
    (h : Performs env.fails (updateEach env table tokens (disableAll tx)) ⟨d, calls + 2⟩
      (List.replicate m d) r) :
    Performs env.fails (fillTx env table tokens) ⟨d, calls⟩ (List.replicate (2 + m) d) r := by
  have hbegin : Performs env.fails
      (beginTx env.fails WalletError.rbatisError fun store : TokenStore =>
        table.read store.db.walletsDb)
      ⟨d, calls⟩ (List.replicate 1 d) (.ok tx) := by
    rw [← hd]
    exact Performs.beginTx ..
  have hdisable :
      Performs env.fails (inTx env.fails WalletError.rbatisError (fun _ => disableAll) tx)
      ⟨d, calls + 1⟩ (List.replicate 1 d) (.ok (disableAll tx)) := Performs.inTx ..
  rw [show 2 + m = 1 + (1 + m) by omega]
  exact hbegin.bind_replicate (hdisable.bind_replicate h)

variable (hdraws : env.DrawsOnce) (htidy : Tidy env calls tx)
  (hd : table.read d.db.walletsDb = tx) (hunsaved : ∀ token ∈ tokens, token.Unsaved)
include hdraws htidy hd hunsaved

/-- The transaction takes in the list. -/
theorem performs_fillTx (hone : ∀ token ∈ tokens, OneRow tx token) :
    Performs env.fails (fillTx env table tokens) ⟨d, calls⟩
      (List.replicate (2 + 4 * tokens.length) d)
      (.ok (tablesAfter env table calls tokens tx)) := by
  refine performs_fillTx_of hd ?_
  have hd' : (table.read d.db.walletsDb).shared = (disableAll tx).shared :=
    (congrArg TokenTables.shared hd).trans rfl
  have hsymbols : tokens.map ListedToken.symbol =
      ([] ++ (tokens ++ [])).map ListedToken.symbol := by simp
  have hend : Performs env.fails (updateEach env table [] (tablesAfter env table calls tokens tx))
      ⟨d, calls + 2 + 4 * ([] ++ tokens).length⟩ (List.replicate 0 d)
      (.ok (tablesAfter env table calls tokens tx)) := Performs.pure ..
  have hrounds := performs_rounds hdraws (htidy.mono (Nat.le_add_right calls 2)).disableAll hd'
    tokens [] hsymbols
    (fun token ht => ⟨hunsaved token ht, OneRow.disableAll_iff.mpr (hone token ht)⟩) hend
  rw [List.append_nil] at hrounds
  exact hrounds

/-- Several rows of one token are an error. -/
theorem performs_fillTx_of_not (hnot : ¬ ∀ token ∈ tokens, OneRow tx token) :
    ∃ m, Performs env.fails (fillTx env table tokens) ⟨d, calls⟩ (List.replicate m d)
      (.err .rbatisError) := by
  classical
  -- the first token that has several
  obtain ⟨token, hfind⟩ : ∃ token, tokens.find? (fun token => ¬ OneRow tx token) = some token := by
    rw [← Option.isSome_iff_exists, List.find?_isSome]
    push Not at hnot
    simpa using hnot
  obtain ⟨hbad, done, rest, rfl, hdone⟩ := List.find?_eq_some_iff_append.mp hfind
  have hbad : ¬ OneRow (disableAll tx) token := fun h =>
    of_decide_eq_true hbad (OneRow.disableAll_iff.mp h)
  have hdone : ∀ token ∈ done, OneRow (disableAll tx) token := fun t ht =>
    OneRow.disableAll_iff.mpr (by simpa using hdone t ht)
  have htidy := (htidy.mono (Nat.le_add_right calls 2)).disableAll
  have hd' : (table.read d.db.walletsDb).shared = (disableAll tx).shared :=
    (congrArg TokenTables.shared hd).trans rfl
  have hsymbols : (done ++ token :: rest).map ListedToken.symbol =
      ([] ++ (done ++ token :: rest)).map ListedToken.symbol := rfl
  obtain ⟨m, hround⟩ := performs_round_of_not hdraws htidy hd' hsymbols hdone
    (hunsaved token (by simp)) hbad
  have hrounds := performs_rounds hdraws htidy hd' done [] hsymbols
    (fun t ht => ⟨hunsaved t (by simp [ht]), hdone t ht⟩) hround.bind_err
  exact ⟨_, performs_fillTx_of hd hrounds⟩

end Fill

end Cashbox.Wallets
