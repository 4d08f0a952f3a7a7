import Mathlib.Data.Char
import Mathlib.Data.List.Lex
import Mathlib.Data.List.Sort
import Cashbox.Macro.Columns

/-!
# Declarations in any order

The order in which the macros see the structs is up to the compiler, and the order of the flattened
structs of a table is up to the hash map that they are in. Neither matters: when all structs have
been seen, each table has the script that its declaration and those of its structs make.
-/

namespace Cashbox.Macro

open Cashbox.Lib Cashbox.Lib.Text

/-! ## Declarations -/

def Call.ast : Call → DeriveInput
  | push ast => ast
  | pushSubStruct ast => ast

/-- The structs of the tables. -/
def tables (calls : List Call) : List DeriveInput :=
  calls.filterMap fun
    | .push ast => some ast
    | .pushSubStruct _ => none

/-- The structs that may be flattened. -/
def subStructs (calls : List Call) : List DeriveInput :=
  calls.filterMap fun
    | .push _ => none
    | .pushSubStruct ast => some ast

/-- The names of structs. -/
def names (asts : List DeriveInput) : List Text := asts.map fun ast => ast.ident.text

def findSub (calls : List Call) (n : Text) : Option DeriveInput :=
  (subStructs calls).find? fun sub => sub.ident.text = n

/-- Each struct is declared once, the macros do not panic on its fields, structs that are flattened
have no flattened fields, and they are declared. -/
structure Declarations (calls : List Call) : Prop where
  tablesOnce : (names (tables calls)).Nodup
  subsOnce : (names (subStructs calls)).Nodup
  supported : ∀ call ∈ calls, call.ast.Supported
  flat : ∀ sub ∈ subStructs calls, sub.Flat
  declared : ∀ ast ∈ tables calls, ∀ n, Col.flattened n ∈ ast.cols → n ∈ names (subStructs calls)

section Declared

variable {calls calls' : List Call} {sub ast : DeriveInput} {n : Text}

theorem mem_subStructs : ast ∈ subStructs calls ↔ Call.pushSubStruct ast ∈ calls := by
  unfold subStructs
  rw [List.mem_filterMap]
  constructor
  · rintro ⟨call, hcall, heq⟩
    cases call with
    | push ast' => cases heq
    | pushSubStruct ast' => exact Option.some.inj heq ▸ hcall
  · exact fun h => ⟨_, h, rfl⟩

theorem findSub_eq_some_iff (honce : (names (subStructs calls)).Nodup) :
    findSub calls n = some sub ↔ sub ∈ subStructs calls ∧ sub.ident.text = n := by
  unfold findSub
  constructor
  · intro h
    exact ⟨List.mem_of_find?_eq_some h, by simpa using List.find?_some h⟩
  · rintro ⟨hsub, rfl⟩
    cases hfind : (subStructs calls).find? fun s => s.ident.text = sub.ident.text with
    | none =>
      have hnot := List.find?_eq_none.mp hfind sub hsub
      simp at hnot
    | some found =>
      have hfound : found.ident.text = sub.ident.text := by simpa using List.find?_some hfind
      rw [List.inj_on_of_nodup_map honce (List.mem_of_find?_eq_some hfind) hsub hfound]

namespace Declarations

/-- The declarations do not depend on the order of the calls. -/
theorem perm (h : Declarations calls) (hperm : calls'.Perm calls) : Declarations calls' := by
  have htables : (tables calls').Perm (tables calls) := hperm.filterMap _
  have hsubs : (subStructs calls').Perm (subStructs calls) := hperm.filterMap _
  constructor
  · exact (htables.map _).nodup_iff.mpr h.tablesOnce
  · exact (hsubs.map _).nodup_iff.mpr h.subsOnce
  · exact fun call hcall => h.supported call (hperm.mem_iff.mp hcall)
  · exact fun sub hsub => h.flat sub (hsubs.mem_iff.mp hsub)
  · exact fun ast hast n hn => (hsubs.map _).mem_iff.mpr
      (h.declared ast (htables.mem_iff.mp hast) n hn)

theorem findSub_perm (h : Declarations calls) (hperm : calls'.Perm calls) :
    findSub calls' = findSub calls := by
  have hsubs : (subStructs calls').Perm (subStructs calls) := hperm.filterMap _
  funext n
  apply Option.ext
  intro sub
  rw [findSub_eq_some_iff (h.perm hperm).subsOnce, findSub_eq_some_iff h.subsOnce, hsubs.mem_iff]

theorem known (h : Declarations calls) (hast : ast ∈ tables calls) :
    ast.Known (findSub calls) := by
  intro n hn
  obtain ⟨sub, hsub, hname⟩ := List.mem_map.mp (h.declared ast hast n hn)
  exact ⟨sub, (findSub_eq_some_iff h.subsOnce).mpr ⟨hsub, hname⟩, hname, h.flat sub hsub⟩

end Declarations

end Declared

/-! ## One script -/

section Script

variable {casing : Casing} {find : Text → Option DeriveInput} {ast : DeriveInput}
  {subStruct : List (Text × Text)}

theorem script_ne_nil : ast.script casing find ≠ [] := by
  simp [DeriveInput.script, DeriveInput.pieces, renderAll, Piece.filled, Piece.render,
    DeriveInput.head]

/-- The loop over the structs of a table. -/
theorem foldlM_replaceSub {subs : List (Text × Text)}
    (hkeys : ∀ sub ∈ subs, sub.2 = typeNameToKey sub.1)
    (hfind : ∀ sub ∈ subs, ∃ s, find sub.1 = some s ∧ subStruct.lookup sub.1 = some s.subText)
    (sql : Text) :
    subs.foldlM (replaceSub subStruct) sql = .ok ((subs.map Prod.fst).foldl
      (fillMark '{' '}' ',' (fun n => (find n).elim [] DeriveInput.commaText)
        fun n => (find n).elim [] DeriveInput.subText) sql) := by
  induction subs generalizing sql with
  | nil => rfl
  | cons sub subs ih =>
    obtain ⟨hkey, hkeys⟩ := List.forall_mem_cons.mp hkeys
    obtain ⟨⟨s, hs, hlookup⟩, hfind⟩ := List.forall_mem_cons.mp hfind
    have hround : replaceSub subStruct sql sub = .ok (fillMark '{' '}' ','
        (fun n => (find n).elim [] DeriveInput.commaText)
          (fun n => (find n).elim [] DeriveInput.subText) sql sub.1) := by
      unfold replaceSub fillMark
      rw [hlookup, hkey]
      simp only [Outcome.ofSome, Outcome.ok_bind, withComma_subText, hs, Option.elim]
      unfold typeNameToKey
      split_ifs <;> rfl
    rw [List.foldlM_cons, hround, Outcome.ok_bind, ih hkeys hfind, List.map_cons, List.foldl_cons]

/-- **The script of a table** comes out of its template in any order of its structs. -/
theorem foldlM_template (hknown : ast.Known find) {subs : List (Text × Text)}
    (hsubs : subs.Perm (subsOf ast.cols))
    (hlookup : ∀ n sub, Col.flattened n ∈ ast.cols → find n = some sub →
      subStruct.lookup n = some sub.subText) :
    subs.foldlM (replaceSub subStruct) (ast.template casing) = .ok (ast.script casing find) := by
  obtain ⟨hnodup, hmem, hvalues⟩ := subs_subsOf ast.cols
  have hkeys : (subs.map Prod.fst).Perm ((subsOf ast.cols).map Prod.fst) := hsubs.map _
  have hcol : ∀ k ∈ subs.map Prod.fst, Col.flattened k ∈ ast.cols := fun k hk =>
    (hmem k).mp (hkeys.mem_iff.mp hk)
  have hfind : ∀ sub ∈ subs, ∃ s, find sub.1 = some s ∧
      subStruct.lookup sub.1 = some s.subText := by
    intro sub hsub
    have hn := hcol sub.1 (List.mem_map_of_mem hsub)
    obtain ⟨s, hs, -, -⟩ := hknown sub.1 hn
    exact ⟨s, hs, hlookup sub.1 s hn hs⟩
  rw [foldlM_replaceSub (fun sub hsub => hvalues sub (hsubs.mem_iff.mp hsub)) hfind,
    ← renderAll_pieces, foldl_fillMark (plain_pieces hknown) (by decide)
      (hkeys.nodup_iff.mpr hnodup)]
  · unfold DeriveInput.script
    rw [filled_congr fun k => hkeys.mem_iff]
  · intro k hk
    obtain ⟨s, -, rfl, -⟩ := hknown k (hcol k hk)
    exact clean_ident s.ident '}' (by decide)
  · intro k hk
    obtain ⟨s, hs, -, hflat⟩ := hknown k (hcol k hk)
    rw [hs]
    exact (brace_not_mem hflat).2
  · intro k hk
    obtain ⟨s, hs, -, hflat⟩ := hknown k (hcol k hk)
    rw [hs]
    exact (brace_not_mem hflat).1

end Script

/-! ## What is known after some calls -/

/-- All structs that are flattened in a table have been seen. -/
def Ready (calls : List Call) (ast : DeriveInput) : Prop :=
  ∀ n, Col.flattened n ∈ ast.cols → n ∈ names (subStructs calls)

/-- The file of the table is that of no other table, and not the one of all tables. -/
def Lone (casing : Casing) (calls : List Call) (ast : DeriveInput) : Prop :=
  (∀ other ∈ tables calls, fileName casing other.ident.text = fileName casing ast.ident.text →
    other.ident.text = ast.ident.text) ∧ fileName casing ast.ident.text ≠ "all.sql".toList

/-- What is kept of a table after some calls of all. -/
structure IsMeta (casing : Casing) (all calls : List Call) (ast : DeriveInput) (tm : TableMeta) :
    Prop where
  typeName : tm.typeName = ast.ident.text
  template : tm.template = ast.template casing
  subs : tm.subs = subsOf ast.cols
  sql : tm.sql = [] ∨ Ready calls ast ∧ tm.sql = ast.script casing (findSub all)
  written : tm.writeFile = true ↔ tm.sql ≠ []

/-- What is kept after some calls of all, where scripts may still have to be made. -/
structure Collected (casing : Casing) (all calls : List Call) (db : DbMeta) : Prop where
  subs : ∀ n, db.subStruct.lookup n = (findSub calls n).map DeriveInput.subText
  sorted : db.tableMetas.Pairwise fun a b => a.typeName < b.typeName
  metas : ∀ tm ∈ db.tableMetas, ∃ ast ∈ tables calls, IsMeta casing all calls ast tm
  tables : ∀ ast ∈ tables calls, ∃ tm ∈ db.tableMetas, IsMeta casing all calls ast tm
  files : ∀ tm ∈ db.tableMetas, ∀ ast ∈ Macro.tables calls, tm.typeName = ast.ident.text →
    tm.writeFile = true → Lone casing all ast →
      db.files (fileName casing tm.typeName) = some tm.sql
  none : (∀ tm ∈ db.tableMetas, tm.sql = []) → db.files "all.sql".toList = none

/-- What is kept after some calls of all. -/
structure Completed (casing : Casing) (all calls : List Call) (db : DbMeta) : Prop
    extends Collected casing all calls db where
  done : ∀ tm ∈ db.tableMetas, ∀ ast ∈ Macro.tables calls, tm.typeName = ast.ident.text →
    Ready calls ast → tm.sql = ast.script casing (findSub all)
  all : (∃ tm ∈ db.tableMetas, tm.sql ≠ []) →
    db.files "all.sql".toList = some (db.tableMetas.flatMap TableMeta.sql)

section Steps

variable {casing : Casing} {iter : Text → List (Text × Text) → List (Text × Text)}
  {all calls : List Call} {db : DbMeta} {ast sub : DeriveInput} {tm : TableMeta} {n : Text}

theorem subStructs_sublist (h : calls <+: all) : (subStructs calls).Sublist (subStructs all) :=
  h.sublist.filterMap _

theorem tables_sublist (h : calls <+: all) : (tables calls).Sublist (tables all) :=
  h.sublist.filterMap _

/-- The structs that have been seen. -/
theorem findSub_seen (hall : Declarations all) (h : calls <+: all) :
    findSub calls n = some sub ↔ n ∈ names (subStructs calls) ∧ findSub all n = some sub := by
  have hsub := subStructs_sublist h
  have honce : (names (subStructs calls)).Nodup := hall.subsOnce.sublist (hsub.map _)
  rw [findSub_eq_some_iff honce, findSub_eq_some_iff hall.subsOnce]
  constructor
  · rintro ⟨hmem, rfl⟩
    exact ⟨List.mem_map_of_mem hmem, hsub.subset hmem, rfl⟩
  · rintro ⟨hname, hmem, rfl⟩
    obtain ⟨sub', hmem', heq⟩ := List.mem_map.mp hname
    rw [← List.inj_on_of_nodup_map hall.subsOnce (hsub.subset hmem') hmem heq]
    exact ⟨hmem', rfl⟩

/-- A table is done when all its structs have been seen. -/
theorem complete_eq (hall : Declarations all) (hcalls : calls <+: all)
    (hiter : ∀ n l, (iter n l).Perm l) (h : Collected casing all calls db)
    (hast : ast ∈ tables calls) (hmeta : IsMeta casing all calls ast tm) :
    Ready calls ast ∧ complete iter db.subStruct tm =
        .ok ({ tm with sql := ast.script casing (findSub all) }, true) ∨
      ¬ Ready calls ast ∧ tm.sql = [] ∧ complete iter db.subStruct tm = .ok (tm, false) := by
  -- the keys of the map are the names of the structs that were seen
  have hready : Ready calls ast ↔ ∀ sub ∈ tm.subs, sub.1 ∈ db.subStruct.map Prod.fst := by
    have hkeys := (subs_subsOf ast.cols).keys
    have hseen (n : Text) : n ∈ db.subStruct.map Prod.fst ↔ n ∈ names (subStructs calls) := by
      have hlookup : (db.subStruct.lookup n).isSome = (findSub calls n).isSome := by
        rw [h.subs, Option.isSome_map]
      have hleft : n ∈ db.subStruct.map Prod.fst ↔ (db.subStruct.lookup n).isSome = true := by
        rw [List.lookup_isSome_iff, List.mem_map]
        constructor
        · rintro ⟨sub, hsub, rfl⟩
          exact ⟨sub, hsub, by simp⟩
        · rintro ⟨sub, hsub, heq⟩
          exact ⟨sub, hsub, (eq_of_beq heq).symm⟩
      have hright : n ∈ names (subStructs calls) ↔ (findSub calls n).isSome = true := by
        unfold findSub names
        rw [List.find?_isSome, List.mem_map]
        simp
      rw [hleft, hlookup, hright]
    rw [hmeta.subs]
    constructor
    · intro hready sub hsub
      exact (hseen _).mpr (hready _ ((hkeys _).mp (List.mem_map_of_mem hsub)))
    · intro hsubs n hn
      obtain ⟨sub, hsub, rfl⟩ := List.mem_map.mp ((hkeys n).mpr hn)
      exact (hseen _).mp (hsubs sub hsub)
  unfold complete
  by_cases hempty : tm.sql = []
  · rw [if_pos hempty]
    by_cases hsubs : ∀ sub ∈ tm.subs, sub.1 ∈ db.subStruct.map Prod.fst
    · rw [if_pos hsubs]
      refine .inl ⟨hready.mpr hsubs, ?_⟩
      have hperm : (iter tm.typeName tm.subs).Perm (subsOf ast.cols) := by
        rw [← hmeta.subs]
        exact hiter _ _
      have hknown := hall.known ((tables_sublist hcalls).subset hast)
      -- the template is filled in whatever order the map goes over its keys
      rw [hmeta.template, foldlM_template hknown hperm]
      · rfl
      · intro n sub hn hfind
        rw [h.subs, (findSub_seen hall hcalls).mpr ⟨hready.mpr hsubs n hn, hfind⟩]
        rfl
    · rw [if_neg hsubs]
      exact .inr ⟨fun h => hsubs (hready.mp h), hempty, rfl⟩
  · -- the script was made before, and is the same
    rw [if_neg hempty]
    obtain ⟨hseen, hsql⟩ := hmeta.sql.resolve_left hempty
    refine .inl ⟨hseen, ?_⟩
    rw [← hsql]

theorem mapM_ok {α β : Type} {f : α → Outcome Empty β} {g : α → β} {l : List α}
    (h : ∀ x ∈ l, f x = .ok (g x)) : l.mapM f = .ok (l.map g) := by
  induction l with
  | nil => rfl
  | cons x l ih =>
    obtain ⟨hx, hl⟩ := List.forall_mem_cons.mp h
    rw [List.mapM_cons, hx, ih hl]
    rfl

/-- The result of a step that does not panic. -/
def completed (iter : Text → List (Text × Text) → List (Text × Text))
    (subStruct : List (Text × Text)) (tm : TableMeta) : TableMeta × Bool :=
  match complete iter subStruct tm with
  | .ok result => result
  | _ => (tm, false)

/-- What becomes of a table. -/
def finished (m : TableMeta × Bool) : TableMeta :=
  if m.2 then { m.1 with writeFile := true } else m.1

/-- What a step does with a table. -/
theorem completed_cases (hall : Declarations all) (hcalls : calls <+: all)
    (hiter : ∀ n l, (iter n l).Perm l) (h : Collected casing all calls db)
    (hast : ast ∈ tables calls) (hmeta : IsMeta casing all calls ast tm) :
    complete iter db.subStruct tm = .ok (completed iter db.subStruct tm) ∧
      (Ready calls ast ∧ completed iter db.subStruct tm =
          ({ tm with sql := ast.script casing (findSub all) }, true) ∨
        ¬ Ready calls ast ∧ tm.sql = [] ∧ completed iter db.subStruct tm = (tm, false)) := by
  unfold completed
  rcases complete_eq hall hcalls hiter h hast hmeta with ⟨hready, hcomplete⟩ |
    ⟨hnot, hempty, hcomplete⟩
  · rw [hcomplete]
    exact ⟨rfl, .inl ⟨hready, rfl⟩⟩
  · rw [hcomplete]
    exact ⟨rfl, .inr ⟨hnot, hempty, rfl⟩⟩

/-- The files that are written, as far as one name is concerned. -/
theorem foldl_files {dones : List TableMeta} {files : Text → Option Text} {f sql : Text}
    (hsql : ∀ tm ∈ dones, tm.writeFile = false → fileName casing tm.typeName = f → tm.sql = sql)
    (hf : files f = some sql ∨
      ∃ tm ∈ dones, tm.writeFile = false ∧ fileName casing tm.typeName = f) :
    (dones.foldl (fun files tm => if tm.writeFile then files
      else Function.update files (fileName casing tm.typeName) (some tm.sql)) files) f =
        some sql := by
  induction dones generalizing files with
  | nil =>
    rcases hf with hf | ⟨tm, htm, -⟩
    · exact hf
    · cases htm
  | cons tm dones ih =>
    obtain ⟨htm, hsql⟩ := List.forall_mem_cons.mp hsql
    rw [List.foldl_cons]
    apply ih hsql
    by_cases hwritten : tm.writeFile = true
    · rw [if_pos hwritten]
      refine hf.imp id ?_
      rintro ⟨tm', htm', hnot, hname⟩
      rcases List.mem_cons.mp htm' with rfl | htm'
      · rw [hwritten] at hnot
        cases hnot
      · exact ⟨tm', htm', hnot, hname⟩
    · rw [if_neg hwritten]
      by_cases hname : fileName casing tm.typeName = f
      · left
        rw [hname, Function.update_self, htm (by simpa using hwritten) hname]
      · rw [Function.update_of_ne (Ne.symm hname)]
        refine hf.imp id ?_
        rintro ⟨tm', htm', hnot, hname'⟩
        rcases List.mem_cons.mp htm' with rfl | htm'
        · exact absurd hname' hname
        · exact ⟨tm', htm', hnot, hname'⟩

/-- Tables that are not done have no script. -/
theorem flatMap_sql_dones {g : TableMeta → TableMeta × Bool} {l : List TableMeta}
    (h : ∀ tm ∈ l, (g tm).2 = false → (g tm).1.sql = []) :
    (((l.map g).filter Prod.snd).map Prod.fst).flatMap TableMeta.sql =
      (l.map fun tm => finished (g tm)).flatMap TableMeta.sql := by
  induction l with
  | nil => rfl
  | cons tm l ih =>
    obtain ⟨htm, hl⟩ := List.forall_mem_cons.mp h
    rw [List.map_cons, List.map_cons, List.flatMap_cons, ← ih hl]
    unfold finished
    cases hdone : (g tm).2 with
    | true => simp [hdone]
    | false => simp [hdone, htm hdone]

/-- What becomes of a table in a step. -/
theorem isMeta_finished {result : TableMeta × Bool} (hmeta : IsMeta casing all calls ast tm)
    (h : Ready calls ast ∧ result = ({ tm with sql := ast.script casing (findSub all) }, true) ∨
      ¬ Ready calls ast ∧ tm.sql = [] ∧ result = (tm, false)) :
    IsMeta casing all calls ast (finished result) ∧
      (Ready calls ast → (finished result).sql = ast.script casing (findSub all)) ∧
        (finished result).typeName = tm.typeName := by
  rcases h with ⟨hready, rfl⟩ | ⟨hnot, -, rfl⟩
  · refine ⟨⟨hmeta.typeName, hmeta.template, hmeta.subs, .inr ⟨hready, rfl⟩, ?_⟩, fun _ => rfl, rfl⟩
    exact iff_of_true rfl script_ne_nil
  · exact ⟨hmeta, fun hready => absurd hready hnot, rfl⟩

/-- **One call** makes the scripts of the tables that have all their structs now. -/
theorem fullTemplate_spec (hall : Declarations all) (hcalls : calls <+: all)
    (hiter : ∀ n l, (iter n l).Perm l) (h : Collected casing all calls db) :
    ∃ db', fullTemplate casing iter db = .ok db' ∧ Completed casing all calls db' := by
  generalize hgdef : completed iter db.subStruct = g
  have htables : (names (tables calls)).Nodup :=
    hall.tablesOnce.sublist ((tables_sublist hcalls).map _)
  have hg : ∀ tm ∈ db.tableMetas, ∀ ast ∈ tables calls, IsMeta casing all calls ast tm →
      complete iter db.subStruct tm = .ok (g tm) ∧
        (Ready calls ast ∧ g tm = ({ tm with sql := ast.script casing (findSub all) }, true) ∨
          ¬ Ready calls ast ∧ tm.sql = [] ∧ g tm = (tm, false)) := by
    intro tm htm ast hast hmeta
    rw [← hgdef]
    exact completed_cases hall hcalls hiter h hast hmeta
  have hmapM : db.tableMetas.mapM (complete iter db.subStruct) = .ok (db.tableMetas.map g) := by
    apply mapM_ok
    intro tm htm
    obtain ⟨ast, hast, hmeta⟩ := h.metas tm htm
    exact (hg tm htm ast hast hmeta).1
  have hnot : ∀ tm ∈ db.tableMetas, (g tm).2 = false → (g tm).1.sql = [] := by
    intro tm htm hflag
    obtain ⟨ast, hast, hmeta⟩ := h.metas tm htm
    rcases (hg tm htm ast hast hmeta).2 with ⟨-, heq⟩ | ⟨-, hempty, heq⟩
    · rw [heq] at hflag
      cases hflag
    · rw [heq]
      exact hempty
  have hfinished := fun tm htm ast hast (hmeta : IsMeta casing all calls ast tm) =>
    isMeta_finished hmeta (hg tm htm ast hast hmeta).2
  have hname : ∀ tm ∈ db.tableMetas, (finished (g tm)).typeName = tm.typeName := by
    intro tm htm
    obtain ⟨ast, hast, hmeta⟩ := h.metas tm htm
    exact (hfinished tm htm ast hast hmeta).2.2
  have hsqls := flatMap_sql_dones hnot
  have hdone : ∀ done, done ∈ ((db.tableMetas.map g).filter Prod.snd).map Prod.fst ↔
      ∃ tm ∈ db.tableMetas, g tm = (done, true) := by
    intro done
    rw [List.mem_map]
    constructor
    · rintro ⟨⟨done', flag⟩, hmem, rfl⟩
      obtain ⟨hmem, hflag⟩ := List.mem_filter.mp hmem
      obtain ⟨tm, htm, heq⟩ := List.mem_map.mp hmem
      obtain rfl : flag = true := hflag
      exact ⟨tm, htm, heq⟩
    · rintro ⟨tm, htm, heq⟩
      exact ⟨(done, true), List.mem_filter.mpr ⟨List.mem_map.mpr ⟨tm, htm, heq⟩, rfl⟩, rfl⟩
  generalize hdones : ((db.tableMetas.map g).filter Prod.snd).map Prod.fst = dones at hsqls hdone
  generalize hfiles : (if dones = [] then db.files else
    Function.update (dones.foldl (fun files tm => if tm.writeFile then files
      else Function.update files (fileName casing tm.typeName) (some tm.sql)) db.files)
        "all.sql".toList (some (dones.flatMap TableMeta.sql))) = files
  refine ⟨{ db with tableMetas := db.tableMetas.map fun tm => finished (g tm), files := files },
    ?_, ⟨?_, ?_, ?_, ?_, ?_, ?_⟩, ?_, ?_⟩
  · unfold fullTemplate
    rw [hmapM, Outcome.ok_bind, hdones]
    dsimp only
    by_cases hnil : dones = []
    · have hnone : ∀ tm ∈ db.tableMetas, (g tm).2 = false := by
        intro tm htm
        by_contra hflag
        have hflag : (g tm).2 = true := by simpa using hflag
        have hmem : (g tm).1 ∈ dones := (hdone _).mpr ⟨tm, htm, Prod.ext rfl hflag⟩
        rw [hnil] at hmem
        cases hmem
      rw [if_pos hnil] at hfiles ⊢
      rw [← hfiles, List.map_map]
      congr 2
      apply List.map_congr_left
      intro tm htm
      simp [finished, hnone tm htm]
    · rw [if_neg hnil] at hfiles ⊢
      rw [hfiles, List.map_map]
      rfl
  · exact h.subs
  · rw [List.pairwise_map]
    apply h.sorted.imp_of_mem
    intro a b ha hb hlt
    rwa [hname a ha, hname b hb]
  · intro tm' htm'
    obtain ⟨tm, htm, rfl⟩ := List.mem_map.mp htm'
    obtain ⟨ast, hast, hmeta⟩ := h.metas tm htm
    exact ⟨ast, hast, (hfinished tm htm ast hast hmeta).1⟩
  · intro ast hast
    obtain ⟨tm, htm, hmeta⟩ := h.tables ast hast
    exact ⟨_, List.mem_map_of_mem htm, (hfinished tm htm ast hast hmeta).1⟩
  · intro tm' htm' ast hast htype hwritten hlone
    obtain ⟨tm, htm, rfl⟩ := List.mem_map.mp htm'
    obtain ⟨ast', hast', hmeta⟩ := h.metas tm htm
    obtain ⟨hmeta', hscript, hsame⟩ := hfinished tm htm ast' hast' hmeta
    obtain rfl : ast' = ast :=
      List.inj_on_of_nodup_map htables hast' hast (hmeta'.typeName.symm.trans htype)
    have hready := (hmeta'.sql.resolve_left (hmeta'.written.mp hwritten)).1
    have hmem : ({ tm with sql := ast'.script casing (findSub all) } : TableMeta) ∈ dones := by
      rcases (hg tm htm ast' hast' hmeta).2 with ⟨-, heq⟩ | ⟨hno, -⟩
      · exact (hdone _).mpr ⟨tm, htm, heq⟩
      · exact absurd hready hno
    show files (fileName casing (finished (g tm)).typeName) = some (finished (g tm)).sql
    rw [← hfiles, if_neg (List.ne_nil_of_mem hmem), htype, Function.update_of_ne hlone.2,
      hscript hready]
    apply foldl_files
    · intro done hdoneMem _ hfile
      obtain ⟨tm₂, htm₂, heq⟩ := (hdone done).mp hdoneMem
      obtain ⟨ast₂, hast₂, hmeta₂⟩ := h.metas tm₂ htm₂
      rcases (hg tm₂ htm₂ ast₂ hast₂ hmeta₂).2 with ⟨-, heq₂⟩ | ⟨-, -, heq₂⟩
      · obtain rfl : _ = done := congrArg Prod.fst (heq₂.symm.trans heq)
        -- no other table has the file
        have hsub := (tables_sublist hcalls).subset hast₂
        rw [hmeta₂.typeName] at hfile
        have hsame₂ : ast₂ = ast' :=
          List.inj_on_of_nodup_map htables hast₂ hast' (hlone.1 ast₂ hsub hfile)
        rw [hsame₂]
      · have hflag := congrArg Prod.snd (heq₂.symm.trans heq)
        cases hflag
    · by_cases hbefore : tm.writeFile = true
      · left
        have hsql := (hmeta.sql.resolve_left (hmeta.written.mp hbefore)).2
        have hfile := h.files tm htm ast' hast hmeta.typeName hbefore hlone
        rw [hmeta.typeName, hsql] at hfile
        exact hfile
      · right
        refine ⟨_, hmem, by simpa using hbefore, ?_⟩
        show fileName casing tm.typeName = _
        rw [hmeta.typeName]
  · intro hempty
    have hnil : dones = [] := by
      apply List.eq_nil_iff_forall_not_mem.mpr
      intro done hmem
      obtain ⟨tm, htm, heq⟩ := (hdone done).mp hmem
      obtain ⟨ast, hast, hmeta⟩ := h.metas tm htm
      have hsql := hempty _ (List.mem_map_of_mem htm)
      rcases (hg tm htm ast hast hmeta).2 with ⟨hready, -⟩ | ⟨-, -, heq'⟩
      · rw [(hfinished tm htm ast hast hmeta).2.1 hready] at hsql
        exact script_ne_nil hsql
      · cases heq'.symm.trans heq
    have hbefore : ∀ tm ∈ db.tableMetas, tm.sql = [] := by
      intro tm htm
      obtain ⟨ast, hast, hmeta⟩ := h.metas tm htm
      rcases (hg tm htm ast hast hmeta).2 with ⟨-, heq⟩ | ⟨-, hsql, -⟩
      · have hmem := (hdone _).mpr ⟨tm, htm, heq⟩
        rw [hnil] at hmem
        cases hmem
      · exact hsql
    show files "all.sql".toList = none
    rw [← hfiles, if_pos hnil]
    exact h.none hbefore
  · intro tm' htm' ast hast htype hready
    obtain ⟨tm, htm, rfl⟩ := List.mem_map.mp htm'
    obtain ⟨ast', hast', hmeta⟩ := h.metas tm htm
    obtain ⟨hmeta', hscript, -⟩ := hfinished tm htm ast' hast' hmeta
    obtain rfl : ast' = ast :=
      List.inj_on_of_nodup_map htables hast' hast (hmeta'.typeName.symm.trans htype)
    exact hscript hready
  · rintro ⟨tm', htm', hsql⟩
    obtain ⟨tm, htm, rfl⟩ := List.mem_map.mp htm'
    obtain ⟨ast, hast, hmeta⟩ := h.metas tm htm
    have hne : dones ≠ [] := by
      rcases (hg tm htm ast hast hmeta).2 with ⟨-, heq⟩ | ⟨-, hempty, heq⟩
      · exact List.ne_nil_of_mem ((hdone _).mpr ⟨tm, htm, heq⟩)
      · rw [heq] at hsql
        exact absurd hempty hsql
    show files "all.sql".toList = some _
    rw [← hfiles, if_neg hne, Function.update_self, hsqls]

theorem mem_insertMeta {t : TableMeta} {metas : List TableMeta}
    (h : ∀ t ∈ metas, t.typeName ≠ tm.typeName) : t ∈ insertMeta tm metas ↔ t = tm ∨ t ∈ metas := by
  induction metas with
  | nil => simp [insertMeta]
  | cons m metas ih =>
    obtain ⟨hm, hmetas⟩ := List.forall_mem_cons.mp h
    unfold insertMeta
    split_ifs with hlt heq
    · simp
    · exact absurd heq.symm hm
    · rw [List.mem_cons, ih hmetas, List.mem_cons]
      tauto

theorem sorted_insertMeta {metas : List TableMeta} (h : ∀ t ∈ metas, t.typeName ≠ tm.typeName)
    (hsorted : metas.Pairwise fun a b => a.typeName < b.typeName) :
    (insertMeta tm metas).Pairwise fun a b => a.typeName < b.typeName := by
  induction metas with
  | nil => exact List.pairwise_singleton _ _
  | cons m metas ih =>
    obtain ⟨hm, hmetas⟩ := List.forall_mem_cons.mp h
    obtain ⟨hfirst, hrest⟩ := List.pairwise_cons.mp hsorted
    unfold insertMeta
    split_ifs with hlt heq
    · refine List.pairwise_cons.mpr ⟨?_, hsorted⟩
      exact List.forall_mem_cons.mpr ⟨hlt, fun t ht => lt_trans hlt (hfirst t ht)⟩
    · exact absurd heq.symm hm
    · refine List.pairwise_cons.mpr ⟨fun t ht => ?_, ih hmetas hrest⟩
      rcases (mem_insertMeta hmetas).mp ht with rfl | ht
      · exact lt_of_le_of_ne (not_lt.mp hlt) hm
      · exact hfirst t ht

/-- A table that is kept is still kept when more structs have been seen. -/
theorem IsMeta.mono {calls' : List Call} (h : IsMeta casing all calls ast tm)
    (hready : Ready calls ast → Ready calls' ast) : IsMeta casing all calls' ast tm where
  typeName := h.typeName
  template := h.template
  subs := h.subs
  sql := h.sql.imp id fun hscript => ⟨hready hscript.1, hscript.2⟩
  written := h.written

theorem tables_push : tables (calls ++ [.push ast]) = tables calls ++ [ast] :=
  List.filterMap_append

theorem subStructs_push : subStructs (calls ++ [.push ast]) = subStructs calls :=
  List.filterMap_append.trans (List.append_nil _)

theorem tables_pushSubStruct : tables (calls ++ [.pushSubStruct sub]) = tables calls :=
  List.filterMap_append.trans (List.append_nil _)

theorem subStructs_pushSubStruct :
    subStructs (calls ++ [.pushSubStruct sub]) = subStructs calls ++ [sub] :=
  List.filterMap_append

/-- A new table is kept with its template. -/
theorem collected_push (hall : Declarations all) (hcalls : calls ++ [.push ast] <+: all)
    (h : Completed casing all calls db) : Collected casing all (calls ++ [.push ast])
      { db with tableMetas := insertMeta (ast.tableMeta casing) db.tableMetas } := by
  -- each table is declared once, so that no row is replaced
  have honce : (names (tables calls ++ [ast])).Nodup := by
    rw [← tables_push]
    exact hall.tablesOnce.sublist ((tables_sublist hcalls).map _)
  have hnew : ∀ other ∈ tables calls, other.ident.text ≠ ast.ident.text := by
    intro other hother heq
    unfold names at honce
    rw [List.map_append, List.nodup_append] at honce
    exact honce.2.2 _ (List.mem_map_of_mem hother) _ (by simp) heq
  have hne : ∀ t ∈ db.tableMetas, t.typeName ≠ (ast.tableMeta casing).typeName := by
    intro t ht heq
    obtain ⟨other, hother, hmeta⟩ := h.metas t ht
    exact hnew other hother (hmeta.typeName.symm.trans heq)
  have hready (a : DeriveInput) : Ready calls a → Ready (calls ++ [.push ast]) a := by
    unfold Ready
    rw [subStructs_push]
    exact id
  have hself : IsMeta casing all (calls ++ [.push ast]) ast (ast.tableMeta casing) :=
    ⟨rfl, rfl, rfl, .inl rfl, iff_of_false Bool.false_ne_true fun hsql => hsql rfl⟩
  constructor
  · unfold findSub
    rw [subStructs_push]
    exact h.subs
  · exact sorted_insertMeta hne h.sorted
  · intro tm htm
    rw [tables_push]
    rcases (mem_insertMeta hne).mp htm with rfl | htm
    · exact ⟨ast, by simp, hself⟩
    · obtain ⟨other, hother, hmeta⟩ := h.metas tm htm
      exact ⟨other, List.mem_append_left _ hother, hmeta.mono (hready other)⟩
  · intro other hother
    rw [tables_push] at hother
    rcases List.mem_append.mp hother with hother | hother
    · obtain ⟨tm, htm, hmeta⟩ := h.tables other hother
      exact ⟨tm, (mem_insertMeta hne).mpr (.inr htm), hmeta.mono (hready other)⟩
    · obtain rfl := List.mem_singleton.mp hother
      exact ⟨_, (mem_insertMeta hne).mpr (.inl rfl), hself⟩
  · intro tm htm other hother htype hwritten hlone
    rcases (mem_insertMeta hne).mp htm with rfl | hbefore
    · -- a new table has no file yet
      cases hwritten
    · rw [tables_push] at hother
      rcases List.mem_append.mp hother with hother | hother
      · exact h.files tm hbefore other hother htype hwritten hlone
      · have heq := List.mem_singleton.mp hother
        rw [heq] at htype
        exact absurd htype (hne tm hbefore)
  · exact fun hempty => h.none fun tm htm => hempty tm ((mem_insertMeta hne).mpr (.inr htm))

theorem lookup_mapInsert {κ β : Type} [BEq κ] [LawfulBEq κ] [DecidableEq κ] (k k' : κ) (v : β)
    (map : List (κ × β)) :
    (mapInsert k v map).lookup k' = if k' = k then some v else map.lookup k' := by
  unfold mapInsert
  rw [List.lookup_cons]
  by_cases hk : k' = k
  · simp [hk]
  · have hfilter : (map.filter fun entry => entry.1 ≠ k).lookup k' = map.lookup k' := by
      induction map with
      | nil => rfl
      | cons entry map ih =>
        by_cases hentry : entry.1 = k
        · have hne : (k' == entry.1) = false := beq_false_of_ne fun heq => hk (heq.trans hentry)
          rw [List.filter_cons_of_neg (by simpa using hentry), ih, List.lookup_cons, hne]
        · rw [List.filter_cons_of_pos (by simpa using hentry), List.lookup_cons, ih,
            List.lookup_cons]
    rw [beq_false_of_ne hk, if_neg hk]
    exact hfilter

/-- A new struct is kept with its columns. -/
theorem collected_pushSubStruct (hall : Declarations all)
    (hcalls : calls ++ [.pushSubStruct sub] <+: all) (h : Completed casing all calls db) :
    Collected casing all (calls ++ [.pushSubStruct sub])
      { db with subStruct := mapInsert sub.ident.text sub.subText db.subStruct } := by
  have hready (a : DeriveInput) : Ready calls a → Ready (calls ++ [.pushSubStruct sub]) a := by
    unfold Ready names
    rw [subStructs_pushSubStruct, List.map_append]
    exact fun h n hn => List.mem_append_left _ (h n hn)
  have honce : (names (subStructs calls ++ [sub])).Nodup := by
    rw [← subStructs_pushSubStruct]
    exact hall.subsOnce.sublist ((subStructs_sublist hcalls).map _)
  constructor
  · intro n
    show (mapInsert sub.ident.text sub.subText db.subStruct).lookup n = _
    rw [lookup_mapInsert, h.subs]
    by_cases hn : n = sub.ident.text
    · have hfind : findSub (calls ++ [.pushSubStruct sub]) n = some sub := by
        rw [findSub_eq_some_iff (subStructs_pushSubStruct ▸ honce), subStructs_pushSubStruct]
        exact ⟨by simp, hn.symm⟩
      rw [if_pos hn, hfind]
      rfl
    · have hfind : findSub (calls ++ [.pushSubStruct sub]) n = findSub calls n := by
        unfold findSub
        rw [subStructs_pushSubStruct, List.find?_append]
        simp [Ne.symm hn]
      rw [if_neg hn, hfind]
  · exact h.sorted
  · intro tm htm
    rw [tables_pushSubStruct]
    obtain ⟨ast, hast, hmeta⟩ := h.metas tm htm
    exact ⟨ast, hast, hmeta.mono (hready ast)⟩
  · intro ast hast
    rw [tables_pushSubStruct] at hast
    obtain ⟨tm, htm, hmeta⟩ := h.tables ast hast
    exact ⟨tm, htm, hmeta.mono (hready ast)⟩
  · rw [tables_pushSubStruct]
    exact h.files
  · exact h.none

/-- **A run** over a part of the declarations keeps what they make. -/
theorem completed_calls (hall : Declarations all) (hiter : ∀ n l, (iter n l).Perm l)
    (hcalls : calls <+: all) :
    ∃ db, DbMeta.calls casing iter calls = .ok db ∧ Completed casing all calls db := by
  -- on the calls: the last one is put on top of what the others made
  induction calls using List.reverseRecOn with
  | nil =>
    refine ⟨.new, rfl, ⟨fun n => rfl, List.Pairwise.nil, ?_, ?_, ?_, fun _ => rfl⟩, ?_, ?_⟩
    · exact List.forall_mem_nil _
    · exact List.forall_mem_nil _
    · exact List.forall_mem_nil _
    · exact List.forall_mem_nil _
    · rintro ⟨tm, htm, -⟩
      cases htm
  | append_singleton calls call ih =>
    obtain ⟨db, hrun, hdb⟩ := ih ((List.prefix_append calls [call]).trans hcalls)
    have hmem : call ∈ all := hcalls.subset (by simp)
    have hmeta : generateTableMeta casing call.ast = .ok (call.ast.tableMeta casing) :=
      generateTableMeta_eq (hall.supported call hmem)
    have hlast : DbMeta.calls casing iter (calls ++ [call]) = DbMeta.call casing iter db call := by
      unfold DbMeta.calls at hrun ⊢
      rw [List.foldlM_append, hrun, Outcome.ok_bind, List.foldlM_cons]
      exact bind_pure _
    rw [hlast]
    cases call with
    | push ast =>
      have hstep : DbMeta.call casing iter db (.push ast) = fullTemplate casing iter
          { db with tableMetas := insertMeta (ast.tableMeta casing) db.tableMetas } := by
        show (generateTableMeta casing ast >>= _) = _
        rw [show generateTableMeta casing ast = _ from hmeta, Outcome.ok_bind]
        rfl
      rw [hstep]
      exact fullTemplate_spec hall hcalls hiter (collected_push hall hcalls hdb)
    | pushSubStruct sub =>
      have hflat := hall.flat sub (mem_subStructs.mpr hmem)
      -- a struct without flattened fields has nothing to wait for
      have hsubs : (sub.tableMeta casing).subs = [] := by
        have hkeys := (subs_subsOf sub.cols).keys
        apply List.eq_nil_iff_forall_not_mem.mpr
        intro entry hentry
        exact hflat _ ((hkeys _).mp (List.mem_map_of_mem hentry))
      have hstep : DbMeta.call casing iter db (.pushSubStruct sub) = fullTemplate casing iter
          { db with subStruct := mapInsert sub.ident.text sub.subText db.subStruct } := by
        show (generateTableMeta casing sub >>= _) = _
        rw [show generateTableMeta casing sub = _ from hmeta, Outcome.ok_bind]
        exact if_pos hsubs
      rw [hstep]
      exact fullTemplate_spec hall hcalls hiter (collected_pushSubStruct hall hcalls hdb)

end Steps

/-! ## What comes out -/

/-- The scripts by the type names of the tables. -/
def DbMeta.sqls (db : DbMeta) : List (Text × Text) :=
  db.tableMetas.map fun tm => (tm.typeName, tm.sql)

/-- Two orders of the calls end with the same script of each table and with the same file of all
tables; where a table has a file of its own, its script is in it. -/
structure SameScripts (casing : Casing) (calls : List Call) (db db' : DbMeta) : Prop where
  sqls : db.sqls = db'.sqls
  all : db.files "all.sql".toList = db'.files "all.sql".toList
  files : ∀ ast ∈ tables calls, Lone casing calls ast →
    db.files (fileName casing ast.ident.text) = db.sqls.lookup ast.ident.text ∧
      db'.files (fileName casing ast.ident.text) = db.sqls.lookup ast.ident.text

/-- What is promised of two orders of the calls: they end with the same scripts, and each of them
declares the columns of its table. -/
def Generates (casing : Casing) (iter iter' : Text → List (Text × Text) → List (Text × Text))
    (calls calls' : List Call) : Prop :=
  ∃ db db', DbMeta.calls casing iter calls = .ok db ∧ DbMeta.calls casing iter' calls' = .ok db' ∧
    SameScripts casing calls db db' ∧
      ∀ ast ∈ tables calls, ∃ script, db.sqls.lookup ast.ident.text = some script ∧
        ast.Declares casing (findSub calls) script

section Ends

variable {casing : Casing} {calls calls' : List Call} {db db' : DbMeta} {ast : DeriveInput}

/-- The names of the tables increase. -/
instance : Std.Antisymm fun a b : Text × Text => a.1 < b.1 :=
  ⟨fun _ _ hab hba => absurd hba (lt_asymm hab)⟩

instance : Std.Irrefl fun a b : Text × Text => a.1 < b.1 := ⟨fun a => lt_irrefl a.1⟩

theorem Completed.pairwise_sqls (h : Completed casing calls calls db) :
    db.sqls.Pairwise fun a b => a.1 < b.1 := List.pairwise_map.mpr h.sorted

/-- When all structs have been seen each table has its script. -/
theorem Completed.mem_sqls (hall : Declarations calls) (h : Completed casing calls calls db)
    {entry : Text × Text} : entry ∈ db.sqls ↔ ∃ ast ∈ tables calls,
      entry = (ast.ident.text, ast.script casing (findSub calls)) := by
  have hsql : ∀ tm ∈ db.tableMetas, ∀ ast ∈ tables calls, tm.typeName = ast.ident.text →
      tm.sql = ast.script casing (findSub calls) := fun tm htm ast hast htype =>
    h.done tm htm ast hast htype (hall.declared ast hast)
  constructor
  · intro hmem
    obtain ⟨tm, htm, rfl⟩ := List.mem_map.mp hmem
    obtain ⟨ast, hast, hmeta⟩ := h.metas tm htm
    exact ⟨ast, hast, Prod.ext hmeta.typeName (hsql tm htm ast hast hmeta.typeName)⟩
  · rintro ⟨ast, hast, rfl⟩
    obtain ⟨tm, htm, hmeta⟩ := h.tables ast hast
    exact List.mem_map.mpr
      ⟨tm, htm, Prod.ext hmeta.typeName (hsql tm htm ast hast hmeta.typeName)⟩

/-- A table has one script. -/
theorem lookup_of_mem {entries : List (Text × Text)} {entry : Text × Text}
    (h : entries.Pairwise fun a b => a.1 < b.1) (hmem : entry ∈ entries) :
    entries.lookup entry.1 = some entry.2 := by
  obtain ⟨front, back, rfl⟩ := List.append_of_mem hmem
  refine List.lookup_eq_some_iff.mpr ⟨front, back, rfl, fun other hother => ?_⟩
  have hlt := (List.pairwise_append.mp h).2.2 other hother entry List.mem_cons_self
  simpa using (ne_of_lt hlt).symm

theorem Completed.lookup_sqls (hall : Declarations calls) (h : Completed casing calls calls db)
    (hast : ast ∈ tables calls) :
    db.sqls.lookup ast.ident.text = some (ast.script casing (findSub calls)) :=
  lookup_of_mem h.pairwise_sqls ((h.mem_sqls hall).mpr ⟨ast, hast, rfl⟩)

/-- The file of all tables has all scripts, in the order of the names. -/
theorem Completed.files_all (h : Completed casing calls calls db) :
    db.files "all.sql".toList =
      if ∀ entry ∈ db.sqls, entry.2 = [] then none else some (db.sqls.flatMap Prod.snd) := by
  have hsqls : db.sqls.flatMap Prod.snd = db.tableMetas.flatMap TableMeta.sql := by
    unfold DbMeta.sqls
    rw [List.flatMap_map]
  split_ifs with hempty
  · exact h.none fun tm htm => hempty _ (List.mem_map_of_mem htm)
  · rw [hsqls]
    apply h.all
    by_contra hnone
    apply hempty
    intro entry hentry
    obtain ⟨tm, htm, rfl⟩ := List.mem_map.mp hentry
    by_contra hne
    exact hnone ⟨tm, htm, hne⟩

/-- A table with a file of its own has its script in it. -/
theorem Completed.file_eq (hall : Declarations calls) (h : Completed casing calls calls db)
    (hast : ast ∈ tables calls) (hlone : Lone casing calls ast) :
    db.files (fileName casing ast.ident.text) = some (ast.script casing (findSub calls)) := by
  obtain ⟨tm, htm, hmeta⟩ := h.tables ast hast
  have hsql := h.done tm htm ast hast hmeta.typeName (hall.declared ast hast)
  have hwritten : tm.writeFile = true := hmeta.written.mpr (hsql ▸ script_ne_nil)
  have hfile := h.files tm htm ast hast hmeta.typeName hwritten hlone
  rwa [hmeta.typeName, hsql] at hfile

/-- **Any order** of the same declarations ends with the same scripts. -/
theorem sameScripts_of_perm (hall : Declarations calls) (hperm : calls'.Perm calls)
    (h : Completed casing calls calls db) (h' : Completed casing calls' calls' db') :
    SameScripts casing calls db db' := by
  have hall' := hall.perm hperm
  have htables : (tables calls').Perm (tables calls) := hperm.filterMap _
  have hsqls : db.sqls = db'.sqls := by
    apply List.Pairwise.eq_of_mem_iff h.pairwise_sqls h'.pairwise_sqls
    intro entry
    rw [h.mem_sqls hall, h'.mem_sqls hall', hall.findSub_perm hperm]
    simp only [htables.mem_iff]
  refine ⟨hsqls, ?_, fun ast hast hlone => ?_⟩
  · rw [h.files_all, h'.files_all, hsqls]
  · have hlone' : Lone casing calls' ast :=
      ⟨fun other hother => hlone.1 other (htables.mem_iff.mp hother), hlone.2⟩
    rw [h.lookup_sqls hall hast, h.file_eq hall hast hlone,
      h'.file_eq hall' (htables.mem_iff.mpr hast) hlone', hall.findSub_perm hperm]
    exact ⟨rfl, rfl⟩

/-- Tables whose scripts declare their columns are sound. -/
theorem sound_of_generates {iter iter' : Text → List (Text × Text) → List (Text × Text)}
    (hiter : ∀ n l, (iter n l).Perm l) (hall : Declarations calls)
    (h : Generates casing iter iter' calls calls') (hast : ast ∈ tables calls) :
    ast.Sound (findSub calls) := by
  obtain ⟨db, -, hrun, -, -, hdeclares⟩ := h
  obtain ⟨db₁, hrun₁, hdb⟩ := @completed_calls casing iter _ _ hall hiter List.prefix_rfl
  obtain rfl := Outcome.ok.inj (hrun.symm.trans hrun₁)
  obtain ⟨script, hlookup, hscript⟩ := hdeclares ast hast
  rw [hdb.lookup_sqls hall hast] at hlookup
  obtain rfl := Option.some.inj hlookup
  exact (declares_script_iff (hall.known hast)).mp hscript

end Ends

theorem isIdentChar_toLower {c : Char} (h : IsIdentChar c) : IsIdentChar c.toLower := by
  unfold Char.toLower
  split_ifs with hupper
  · have hle : 65 ≤ c.toNat ∧ c.toNat ≤ 90 := by
      simpa [UInt32.le_iff_toNat_le] using hupper
    left
    delta Char.isAlphanum Char.isAlpha Char.isLower
    simp [UInt32.le_iff_toNat_le]
    omega
  · exact h

/-- The case of ASCII characters. -/
def asciiCasing : Casing where
  isUppercase := Char.isUpper
  toLowercase c := [c.toLower]
  isIdentChar c h := by
    intro d hd
    obtain rfl := List.mem_singleton.mp hd
    exact isIdentChar_toLower h

theorem valid_of_all {s : String}
    (h : s.toList ≠ [] ∧ (s.toList.all fun c => decide (IsIdentChar c)) = true) :
    s.toList ≠ [] ∧ ∀ c ∈ s.toList, IsIdentChar c := by
  refine ⟨h.1, fun c hc => ?_⟩
  exact of_decide_eq_true (List.all_eq_true.mp h.2 c hc)

def identOf (s : String) (h : s.toList ≠ [] ∧ ∀ c ∈ s.toList, IsIdentChar c) : Ident :=
  ⟨s.toList, h.1, h.2⟩

/-- `#[serde(default)] name: String` -/
def nameField : Field where
  ident := some (identOf "name" (valid_of_all (by decide)))
  ty := .path (identOf "String" (valid_of_all (by decide))) .none
  attrs := [⟨[identOf "serde" (valid_of_all (by decide))], "# [serde (default)]".toList⟩]

/-- `#[serde(flatten)] sub: Sub` -/
def subField : Field where
  ident := some (identOf "sub" (valid_of_all (by decide)))
  ty := .path (identOf "Sub" (valid_of_all (by decide))) .none
  attrs := [⟨[identOf "serde" (valid_of_all (by decide))], "# [serde (flatten)]".toList⟩]

/-- `#[serde(skip)] temp: i64` -/
def tempField : Field where
  ident := some (identOf "temp" (valid_of_all (by decide)))
  ty := .path (identOf "i64" (valid_of_all (by decide))) .none
  attrs := [⟨[identOf "serde" (valid_of_all (by decide))], "# [serde (skip)]".toList⟩]

/-- `#[serde(skip_serializing_if = "Option::is_none")] note: Option<String>` -/
def noteField : Field where
  ident := some (identOf "note" (valid_of_all (by decide)))
  ty := .path (identOf "Option" (valid_of_all (by decide)))
    (.angleBracketed (some (identOf "String" (valid_of_all (by decide)))))
  attrs := [⟨[identOf "serde" (valid_of_all (by decide))],
    "# [serde (skip_serializing_if = \"Option::is_none\")]".toList⟩]

/-- `#[serde(skip)] temps: Vec<i64>` -/
def tempsField : Field where
  ident := some (identOf "temps" (valid_of_all (by decide)))
  ty := .path (identOf "Vec" (valid_of_all (by decide)))
    (.angleBracketed (some (identOf "i64" (valid_of_all (by decide)))))
  attrs := [⟨[identOf "serde" (valid_of_all (by decide))], "# [serde (skip)]".toList⟩]

/-- `#[serde(default)] count: u64` -/
def countField : Field where
  ident := some (identOf "count" (valid_of_all (by decide)))
  ty := .path (identOf "u64" (valid_of_all (by decide))) .none
  attrs := [⟨[identOf "serde" (valid_of_all (by decide))], "# [serde (default)]".toList⟩]

/-- The struct that is flattened. -/
def subDecl : DeriveInput := ⟨identOf "Sub" (valid_of_all (by decide)), [countField]⟩

/-- A table. -/
def bigDecl (fields : List Field) : DeriveInput :=
  ⟨identOf "Big" (valid_of_all (by decide)), fields⟩

/-- Declarations of one table and of the struct that is flattened in it. -/
theorem declarations_bigDecl {fields : List Field} (h : (bigDecl fields).Supported)
    (hcols : ∀ n, Col.flattened n ∈ (bigDecl fields).cols → n = "Sub".toList) :
    Declarations [.push (bigDecl fields), .pushSubStruct subDecl] where
  tablesOnce := List.nodup_singleton _
  subsOnce := List.nodup_singleton _
  supported := by
    intro call hcall
    rcases List.mem_pair.mp hcall with rfl | rfl
    · exact h
    · show subDecl.Supported
      decide
  flat := by
    intro sub hsub n hn
    obtain rfl := List.mem_singleton.mp hsub
    have hcols : subDecl.cols = [.column "count INTEGER NOT NULL".toList] := by decide
    rw [hcols] at hn
    cases List.mem_singleton.mp hn
  declared := by
    intro ast hast n hn
    obtain rfl := List.mem_singleton.mp hast
    exact hcols n hn ▸ List.mem_singleton_self _

end Cashbox.Macro
