import Cashbox.Lib.Lines
import Cashbox.Macro.DbMeta

/-!
# The script of one table

The template of a table has a line for each field that is not left out, and in the place of a
flattened struct a hole. What a script declares are the lines in which something counts: the
header, the columns with commas between them, and the end.
-/

namespace Cashbox.Macro

open Cashbox.Lib Cashbox.Lib.Text

/-! ## Characters -/

/-- The characters that structure a script. -/
def marks : Text := ['{', '}', ',', '\n', '-']

/-- A text that has none of them. -/
def Clean (t : Text) : Prop := ∀ c ∈ marks, c ∉ t

theorem IsIdentChar.not_mem {c : Char} (h : IsIdentChar c) : c ∉ (' ' :: marks) := by
  intro hmem
  have hall : ((' ' :: marks).all fun d => decide (¬ IsIdentChar d)) = true := by decide
  exact of_decide_eq_true (List.all_eq_true.mp hall c hmem) h

theorem clean_of_isIdentChar {t : Text} (h : ∀ c ∈ t, IsIdentChar c) : Clean t := by
  intro c hc hmem
  exact (h c hmem).not_mem (List.mem_cons_of_mem _ hc)

theorem Clean.append {s t : Text} (hs : Clean s) (ht : Clean t) : Clean (s ++ t) := by
  intro c hc hmem
  rcases List.mem_append.mp hmem with hmem | hmem
  · exact hs c hc hmem
  · exact ht c hc hmem

/-- What counts as a whole in its line. -/
structure IsCode (l : Text) : Prop where
  ends : ∃ first mid last, l = first :: (mid ++ [last]) ∧ first ≠ ' ' ∧ last ≠ ' '
  comment : '-' ∉ l
  newline : '\n' ∉ l

theorem IsCode.codeOf {l blanks : Text} (h : IsCode l) (hblanks : ∀ c ∈ blanks, c = ' ') :
    codeOf (blanks ++ l) = [l] := by
  obtain ⟨⟨first, mid, last, rfl, hfirst, hlast⟩, hcomment, -⟩ := h
  have hcode := codeOf_code hfirst hlast hblanks (List.forall_mem_nil _) hcomment
  rwa [List.append_nil] at hcode

theorem IsCode.comma {l : Text} (h : IsCode l) : IsCode (l ++ [',']) where
  ends := by
    obtain ⟨first, mid, last, rfl, hfirst, -⟩ := h.ends
    exact ⟨first, mid ++ [last], ',', by simp, hfirst, by decide⟩
  comment := by simp [h.comment]
  newline := by simp [h.newline]

/-! ## Definitions of columns -/

/-- What may stand behind the name of a column. -/
def suffixes : List String := " TEXT PRIMARY KEY" :: columnTypes.map Prod.snd

theorem exists_suffix {colName typeName d : Text} (h : columnOf colName typeName = some d) :
    ∃ suffix ∈ suffixes, d = colName ++ suffix.toList := by
  unfold columnOf at h
  obtain ⟨types, htypes, hd⟩ := Option.map_eq_some_iff.mp h
  have hmem := List.mem_of_find?_eq_some htypes
  split_ifs at hd
  · exact ⟨_, List.mem_cons_self, hd.symm⟩
  · exact ⟨types.2, List.mem_cons_of_mem _ (List.mem_map_of_mem hmem), hd.symm⟩

/-- A column can stand in a script, and it ends with no comma. -/
structure IsColumn (d : Text) : Prop where
  clean : Clean d
  code : IsCode d

theorem isColumn_of_columnOf {colName : Ident} {typeName d : Text}
    (h : columnOf colName.text typeName = some d) : IsColumn d := by
  obtain ⟨suffix, hsuffix, rfl⟩ := exists_suffix h
  have hname := clean_of_isIdentChar colName.chars
  have hclean : Clean suffix.toList := by
    have hall : (suffixes.all fun suffix => marks.all fun c => decide (c ∉ suffix.toList)) =
        true := by decide
    intro c hc
    exact of_decide_eq_true (List.all_eq_true.mp (List.all_eq_true.mp hall suffix hsuffix) c hc)
  have hends : ∀ suffix ∈ suffixes, suffix.toList ≠ [] ∧ suffix.toList.getLast? ≠ some ' ' := by
    decide
  obtain ⟨hne, hblank⟩ := hends suffix hsuffix
  obtain ⟨front, last, hsplit⟩ := (List.eq_nil_or_concat' suffix.toList).resolve_left hne
  have hlast : last ≠ ' ' := by
    rintro rfl
    simp [hsplit] at hblank
  have hboth := hname.append hclean
  refine ⟨hboth, ?_, hboth '-' (by decide), hboth '\n' (by decide)⟩
  obtain ⟨first, rest, htext⟩ := List.exists_cons_of_ne_nil colName.ne_nil
  have hfirst : first ≠ ' ' := by
    rintro rfl
    exact (colName.chars ' ' (by simp [htext])).not_mem (by decide)
  exact ⟨first, rest ++ front, last, by simp [htext, hsplit], hfirst, hlast⟩

/-! ## The fields that are listed -/

/-- The macro does not panic on the field. -/
def Field.Supported (field : Field) : Prop := field.col.isOk = true

def DeriveInput.Supported (ast : DeriveInput) : Prop := ∀ field ∈ ast.fields, field.Supported

instance (ast : DeriveInput) : Decidable ast.Supported :=
  inferInstanceAs (Decidable (∀ field ∈ ast.fields, field.col.isOk = true))

/-- What stands for a field, if anything does. -/
def Field.item (field : Field) : Option Col :=
  match field.col with
  | .ok col => col
  | _ => none

/-- What stands for the fields. -/
def DeriveInput.cols (ast : DeriveInput) : List Col := ast.fields.filterMap Field.item

/-- The text of a column, or the key of a struct. -/
def Col.body : Col → Text
  | column definition => definition
  | flattened typeName => typeNameToKey typeName

/-- A line of the script. -/
def indented (l : Text) : Text := "    ".toList ++ l ++ "\n".toList

/-- The lines of the fields, with commas between them. -/
def colsText (cols : List Col) : Text := (separated (cols.map Col.body)).flatMap indented

/-- The struct of a field is kept. -/
def addSub (subs : List (Text × Text)) : Col → List (Text × Text)
  | .column _ => subs
  | .flattened typeName => mapInsert typeName (typeNameToKey typeName) subs

/-- The structs that are flattened, with their keys. -/
def subsOf (cols : List Col) : List (Text × Text) := cols.foldl addSub []

section Fields

variable {fields : List Field} {cols : List Col} {casing : Casing} {ast : DeriveInput}

theorem Field.Supported.col_eq {field : Field} (h : field.Supported) :
    field.col = .ok field.item := by
  unfold Field.Supported Outcome.isOk at h
  unfold Field.item
  cases hcol : field.col with
  | ok col => rfl
  | err e => exact e.elim
  | panic why =>
    rw [hcol] at h
    cases h

theorem foldlM_pushField (h : ∀ field ∈ fields, field.Supported) (s : List (Text × Text) × Text) :
    fields.foldlM pushField s = .ok ((fields.filterMap Field.item).foldl addSub s.1,
      s.2 ++ ((fields.filterMap Field.item).map Col.body).flatMap fun l =>
        indented (l ++ [','])) := by
  induction fields generalizing s with
  | nil => simp
  | cons field fields ih =>
    obtain ⟨hfield, hrest⟩ := List.forall_mem_cons.mp h
    have hround : pushField s field = .ok ((field.item.toList).foldl addSub s.1,
        s.2 ++ (field.item.toList.map Col.body).flatMap fun l => indented (l ++ [','])) := by
      unfold pushField
      rw [hfield.col_eq]
      cases field.item with
      | none => simp
      | some col => cases col <;> simp [addSub, Col.body, indented]
    rw [List.foldlM_cons, hround, Outcome.ok_bind, ih hrest]
    cases hitem : field.item with
    | none => simp [hitem]
    | some col => simp [hitem]

/-- The comma behind the last line is the one that is removed. -/
theorem removeComma_eq (cols : List Col) :
    removeComma ((cols.map Col.body).flatMap fun l => indented (l ++ [','])) = colsText cols := by
  rcases List.eq_nil_or_concat' cols with rfl | ⟨front, last, rfl⟩
  · rfl
  · have hsplit : ((front ++ [last]).map Col.body).flatMap (fun l => indented (l ++ [','])) =
        ((commas (front.map Col.body)).flatMap indented ++ ("    ".toList ++ last.body)) ++
          ',' :: ([] ++ "\n".toList) := by
      simp [commas, indented, List.flatMap_map]
    have hnone : rfind [','] ([] ++ "\n".toList) = none := by decide
    have herase (t s : Text) : (t ++ ',' :: s).eraseIdx t.length = t ++ s := by
      rw [List.eraseIdx_append_of_length_le (Nat.le_refl _), Nat.sub_self]
      rfl
    unfold removeComma
    rw [hsplit, rfind_append hnone]
    dsimp only
    rw [herase]
    unfold colsText
    rw [List.map_append, List.map_singleton, separated_concat]
    simp [indented]

/-- The template of a table. -/
def DeriveInput.template (casing : Casing) (ast : DeriveInput) : Text :=
  "-- ".toList ++ ast.ident.text ++ "\n".toList ++
    ("CREATE TABLE IF NOT EXISTS ".toList ++ genTableName casing ast.ident.text ++
      " (  \n".toList ++ colsText ast.cols ++ " );\n".toList)

/-- What a flattened struct is replaced by. -/
def DeriveInput.subText (ast : DeriveInput) : Text :=
  "-- ".toList ++ ast.ident.text ++ " start\n".toList ++ colsText ast.cols ++
    ("    -- ".toList ++ ast.ident.text ++ " end\n".toList)

/-- What the macros keep of a struct. -/
def DeriveInput.tableMeta (casing : Casing) (ast : DeriveInput) : TableMeta where
  typeName := ast.ident.text
  sql := []
  template := ast.template casing
  cols := ast.subText
  subs := subsOf ast.cols
  writeFile := false

theorem generateTableMeta_eq (h : ast.Supported) :
    generateTableMeta casing ast = .ok (ast.tableMeta casing) := by
  unfold generateTableMeta generateTableScript
  rw [foldlM_pushField h]
  simp only [Outcome.ok_bind, List.nil_append]
  rw [removeComma_eq]
  rfl

end Fields

/-! ## The structs of a table -/

/-- Each struct that is flattened is there once, with its key. -/
structure Subs (cols : List Col) (subs : List (Text × Text)) : Prop where
  nodup : (subs.map Prod.fst).Nodup
  keys : ∀ n, n ∈ subs.map Prod.fst ↔ Col.flattened n ∈ cols
  values : ∀ sub ∈ subs, sub.2 = typeNameToKey sub.1

theorem map_fst_mapInsert {κ β : Type} [DecidableEq κ] (k : κ) (v : β) (map : List (κ × β)) :
    (mapInsert k v map).map Prod.fst = k :: (map.map Prod.fst).filter (· ≠ k) := by
  rw [mapInsert, List.map_cons, List.filter_map]
  rfl

theorem subs_subsOf (cols : List Col) : Subs cols (subsOf cols) := by
  induction cols using List.reverseRecOn with
  | nil => exact ⟨List.nodup_nil, by simp [subsOf], List.forall_mem_nil _⟩
  | append_singleton cols c ih =>
    have hstep : subsOf (cols ++ [c]) = addSub (subsOf cols) c := List.foldl_append ..
    rw [hstep]
    cases c with
    | column d => exact ⟨ih.nodup, by simpa [addSub] using ih.keys, ih.values⟩
    | flattened typeName =>
      constructor
      · rw [addSub, map_fst_mapInsert, List.nodup_cons]
        exact ⟨by simp, ih.nodup.filter _⟩
      · intro n
        rw [addSub, map_fst_mapInsert, List.mem_cons, List.mem_filter, ih.keys]
        by_cases hn : n = typeName <;> simp [hn]
      · intro sub hsub
        rcases List.mem_cons.mp hsub with rfl | hsub
        · rfl
        · exact ih.values sub (List.mem_filter.mp hsub).1

/-! ## What a struct is replaced by -/

/-- What a flattened struct is replaced by where more follows: the comma is behind its last column,
or in a comment. -/
def DeriveInput.commaText (ast : DeriveInput) : Text :=
  if ast.cols = [] then
    "-- ".toList ++ ast.ident.text ++ " start,\n".toList ++
      ("    -- ".toList ++ ast.ident.text ++ " end\n".toList)
  else
    "-- ".toList ++ ast.ident.text ++ " start\n".toList ++
      (commas (ast.cols.map Col.body)).flatMap indented ++
        ("    -- ".toList ++ ast.ident.text ++ " end\n".toList)

section Replacement

variable {ast : DeriveInput} {ls : List Text} {d : Text}

theorem clean_ident (ident : Ident) : Clean ident.text := clean_of_isIdentChar ident.chars

theorem withComma_append (front : Text) (ident : Ident) :
    withComma (front ++ '\n' :: ("    -- ".toList ++ ident.text ++ " end\n".toList)) =
      .ok (front ++ ',' :: '\n' :: ("    -- ".toList ++ ident.text ++ " end\n".toList)) := by
  have hshape : "    -- ".toList ++ ident.text ++ " end\n".toList =
      "  ".toList ++ (("  -- ".toList ++ ident.text ++ " end".toList) ++ ['\n']) := by simp
  have hmem : '\n' ∉ "  ".toList ++ ("  -- ".toList ++ ident.text ++ " end".toList) := by
    have hident := clean_ident ident '\n' (by decide)
    simp [hident]
  have hnone : rfind ('\n' :: "  ".toList)
      ("  ".toList ++ (("  -- ".toList ++ ident.text ++ " end".toList) ++ ['\n'])) = none := by
    rw [← List.append_assoc]
    exact rfind_concat (by decide) hmem
  unfold withComma
  rw [hshape]
  have hfound := rfind_append hnone front
  have hpat : "\n  ".toList = '\n' :: "  ".toList := rfl
  rw [hpat, hfound]
  simp [Outcome.ofSome]

/-- The comma is put behind the columns. -/
theorem withComma_subText (ast : DeriveInput) : withComma ast.subText = .ok ast.commaText := by
  unfold DeriveInput.subText DeriveInput.commaText colsText
  rcases List.eq_nil_or_concat' ast.cols with hcols | ⟨front, last, hcols⟩
  · have h := withComma_append ("-- ".toList ++ ast.ident.text ++ " start".toList) ast.ident
    rw [hcols, if_pos rfl]
    simpa [separated, commas] using h
  · have h := withComma_append ("-- ".toList ++ ast.ident.text ++ " start\n".toList ++
      (commas (front.map Col.body)).flatMap indented ++ ("    ".toList ++ last.body)) ast.ident
    rw [hcols, if_neg (by simp), List.map_append, List.map_singleton, separated_concat,
      commas_append]
    simpa [indented, commas] using h

theorem codeLines_indented (h : ∀ l ∈ ls, IsCode l) (s : Text) :
    codeLines (ls.flatMap indented ++ s) = ls ++ codeLines s := by
  induction ls with
  | nil => rfl
  | cons l ls ih =>
    obtain ⟨hl, hls⟩ := List.forall_mem_cons.mp h
    have hline : (l :: ls).flatMap indented ++ s =
        ("    ".toList ++ l) ++ '\n' :: (ls.flatMap indented ++ s) := by simp [indented]
    have hmem : '\n' ∉ "    ".toList ++ l := by simp [hl.newline]
    rw [hline, codeLines_line hmem, hl.codeOf (by simp), ih hls]
    rfl

/-- A comment in a line of its own. -/
theorem codeLines_comment {s : Text} (h : '\n' ∉ s) (rest : Text) :
    codeLines ("    -- ".toList ++ s ++ '\n' :: rest) = codeLines rest := by
  have hmem : '\n' ∉ "    -- ".toList ++ s := by simp [h]
  have hcomment : codeOf ("    ".toList ++ ("--".toList ++ (" ".toList ++ s))) = [] :=
    codeOf_comment (by simp) _
  rw [codeLines_line hmem]
  have hshape : "    -- ".toList ++ s = "    ".toList ++ ("--".toList ++ (" ".toList ++ s)) := by
    simp
  rw [hshape, hcomment, List.nil_append]

/-- Lines between the two comments of a struct. -/
theorem codeLines_between (ident : Ident) {start : Text} (hstart : '\n' ∉ start)
    (h : ∀ l ∈ ls, IsCode l) :
    codeLines ("    ".toList ++ ("-- ".toList ++ ident.text ++ start ++ "\n".toList ++
      ls.flatMap indented ++ ("    -- ".toList ++ ident.text ++ " end\n".toList))) = ls := by
  have hident := clean_ident ident '\n' (by decide)
  have hshape : "    ".toList ++ ("-- ".toList ++ ident.text ++ start ++ "\n".toList ++
      ls.flatMap indented ++ ("    -- ".toList ++ ident.text ++ " end\n".toList)) =
        "    -- ".toList ++ (ident.text ++ start) ++ '\n' :: (ls.flatMap indented ++
          ("    -- ".toList ++ (ident.text ++ " end".toList) ++ '\n' :: [])) := by simp
  rw [hshape, codeLines_comment (by simp [hident, hstart]), codeLines_indented h,
    codeLines_comment (by simp [hident]), codeLines_nil, List.append_nil]

/-- The struct has columns only. -/
def DeriveInput.Flat (ast : DeriveInput) : Prop := ∀ n, Col.flattened n ∉ ast.cols

theorem isColumn_of_mem_cols (h : Col.column d ∈ ast.cols) : IsColumn d := by
  obtain ⟨field, -, hitem⟩ := List.mem_filterMap.mp h
  unfold Field.item at hitem
  cases hcol : field.col with
  | ok col =>
    rw [hcol] at hitem
    obtain rfl : col = some (.column d) := hitem
    obtain ⟨colName, hname, hcol⟩ := Outcome.bind_eq_ok.mp hcol
    obtain ⟨typeName, -, hcol⟩ := Outcome.bind_eq_ok.mp hcol
    obtain ⟨ident, rfl⟩ : ∃ ident : Ident, colName = ident.text := by
      cases hident : field.ident with
      | none => simp [hident, Outcome.ofSome] at hname
      | some ident =>
        rw [hident] at hname
        exact ⟨ident, (Outcome.ok.inj hname).symm⟩
    cases hdefinition : columnOf ident.text typeName with
    | some definition =>
      rw [hdefinition] at hcol
      cases hcol
      exact isColumn_of_columnOf hdefinition
    | none =>
      rw [hdefinition] at hcol
      dsimp only at hcol
      split_ifs at hcol
      all_goals cases hcol
  | err e => exact e.elim
  | panic why =>
    rw [hcol] at hitem
    cases hitem

theorem isColumn_of_flat (hflat : ast.Flat) (h : d ∈ ast.cols.map Col.body) : IsColumn d := by
  obtain ⟨col, hcol, rfl⟩ := List.mem_map.mp h
  cases col with
  | column definition => exact isColumn_of_mem_cols hcol
  | flattened n => exact absurd hcol (hflat n)

theorem isCode_commas (h : ∀ l ∈ ls, IsCode l) : ∀ l ∈ commas ls, IsCode l := by
  intro l hl
  obtain ⟨item, hitem, rfl⟩ := List.mem_map.mp hl
  exact (h item hitem).comma

theorem isCode_separated (h : ∀ l ∈ ls, IsCode l) : ∀ l ∈ separated ls, IsCode l := by
  intro l hl
  rcases List.mem_append.mp hl with hl | hl
  · exact isCode_commas (fun l hl => h l (List.mem_of_mem_dropLast hl)) l hl
  · exact h l (List.mem_of_getLast? (Option.mem_toList.mp hl))

/-- The columns of a struct in the place of the last field. -/
theorem codeLines_subText (hflat : ast.Flat) :
    codeLines ("    ".toList ++ ast.subText) = separated (ast.cols.map Col.body) := by
  have hcode := isCode_separated fun l hl => (isColumn_of_flat hflat hl).code
  have h := @codeLines_between _ ast.ident " start".toList (by decide) hcode
  simpa [DeriveInput.subText, colsText] using h

/-- The columns of a struct in the place of another field. -/
theorem codeLines_commaText (hflat : ast.Flat) :
    codeLines ("    ".toList ++ ast.commaText) = commas (ast.cols.map Col.body) := by
  unfold DeriveInput.commaText
  split_ifs with hcols
  · rw [hcols]
    have h := @codeLines_between _ ast.ident " start,".toList (by decide)
      (List.forall_mem_nil IsCode)
    simpa [commas] using h
  · have hcode := isCode_commas fun l hl => (isColumn_of_flat hflat hl).code
    have h := @codeLines_between _ ast.ident " start".toList (by decide) hcode
    simpa using h

/-- There are no braces in what a struct is replaced by. -/
theorem brace_not_mem (hflat : ast.Flat) : '{' ∉ ast.subText ∧ '{' ∉ ast.commaText := by
  have hident := clean_ident ast.ident '{' (by decide)
  have hbody : ∀ l ∈ ast.cols.map Col.body, '{' ∉ l := fun l hl =>
    (isColumn_of_flat hflat hl).clean '{' (by decide)
  have hcommas : ∀ ls' : List Text, (∀ l ∈ ls', '{' ∉ l) → ∀ l ∈ commas ls', '{' ∉ l := by
    intro ls' h l hl
    obtain ⟨item, hitem, rfl⟩ := List.mem_map.mp hl
    simp [h item hitem]
  have hlines : ∀ ls' : List Text, (∀ l ∈ ls', '{' ∉ l) → '{' ∉ ls'.flatMap indented := by
    intro ls' h hmem
    obtain ⟨l, hl, hmem⟩ := List.mem_flatMap.mp hmem
    simp [indented, h l hl] at hmem
  have hseparated : '{' ∉ (separated (ast.cols.map Col.body)).flatMap indented := by
    apply hlines
    intro l hl
    rcases List.mem_append.mp hl with hl | hl
    · exact hcommas _ (fun l hl => hbody l (List.mem_of_mem_dropLast hl)) l hl
    · exact hbody l (List.mem_of_getLast? (Option.mem_toList.mp hl))
  have hall := hlines _ (hcommas _ hbody)
  constructor
  · simp [DeriveInput.subText, colsText, hident, hseparated]
  · unfold DeriveInput.commaText
    split_ifs
    · simp [hident]
    · simp [hident, hall]

end Replacement

/-! ## The template in pieces -/

/-- The pieces of a line, up to its comma or its end. -/
def Col.pieces (next : Char) : Col → List (Piece Char)
  | column definition => [.text ("    ".toList ++ definition ++ [next])]
  | flattened typeName => [.text "    ".toList, .hole typeName next]

/-- The text in front of the columns. -/
def DeriveInput.head (casing : Casing) (ast : DeriveInput) : Text :=
  "-- ".toList ++ ast.ident.text ++ "\n".toList ++
    ("CREATE TABLE IF NOT EXISTS ".toList ++ genTableName casing ast.ident.text ++ " (  \n".toList)

/-- The pieces of a template. -/
def DeriveInput.pieces (casing : Casing) (ast : DeriveInput) : List (Piece Char) :=
  .text (ast.head casing) ::
    (ast.cols.dropLast.flatMap (fun col => col.pieces ',' ++ [.text "\n".toList]) ++
      ast.cols.getLast?.toList.flatMap (Col.pieces '\n') ++ [.text " );\n".toList])

/-- The script of a table, where the structs that are flattened are known. -/
def DeriveInput.script (casing : Casing) (find : Text → Option DeriveInput) (ast : DeriveInput) :
    Text :=
  renderAll '{' '}' ((ast.pieces casing).map (Piece.filled ','
    (fun n => (find n).elim [] DeriveInput.commaText)
    (fun n => (find n).elim [] DeriveInput.subText) (ast.pieces casing)
    ((subsOf ast.cols).map Prod.fst)))

/-- The structs that are flattened in a table are known, and have columns only. -/
def DeriveInput.Known (find : Text → Option DeriveInput) (ast : DeriveInput) : Prop :=
  ∀ n, Col.flattened n ∈ ast.cols → ∃ sub, find n = some sub ∧ sub.ident.text = n ∧ sub.Flat

section Pieces

variable {casing : Casing} {find : Text → Option DeriveInput} {ast : DeriveInput} {n : Text}

theorem renderAll_pieces (casing : Casing) (ast : DeriveInput) :
    renderAll '{' '}' (ast.pieces casing) = ast.template casing := by
  have hlast (col : Col) : renderAll '{' '}' (col.pieces '\n') = indented col.body := by
    cases col <;> simp [Col.pieces, renderAll, Piece.render, indented, Col.body, typeNameToKey]
  have hfront (cols : List Col) : renderAll '{' '}'
      (cols.flatMap fun col => col.pieces ',' ++ [.text "\n".toList]) =
        (commas (cols.map Col.body)).flatMap indented := by
    induction cols with
    | nil => rfl
    | cons col cols ih =>
      rw [List.flatMap_cons, renderAll_append, ih]
      cases col <;>
        simp [Col.pieces, renderAll, Piece.render, indented, commas, Col.body, typeNameToKey]
  have hcols : renderAll '{' '}'
      (ast.cols.dropLast.flatMap (fun col => col.pieces ',' ++ [.text "\n".toList]) ++
        ast.cols.getLast?.toList.flatMap (Col.pieces '\n')) = colsText ast.cols := by
    unfold colsText
    rw [renderAll_append, hfront]
    rcases List.eq_nil_or_concat' ast.cols with hcols | ⟨front, last, hcols⟩
    · simp [hcols, separated, renderAll]
    · simp [hcols, separated_concat, hlast]
  unfold DeriveInput.pieces DeriveInput.template DeriveInput.head
  rw [renderAll_cons, renderAll_append, hcols]
  simp [Piece.render, renderAll]

theorem isIdentChar_lastName {last s : Text} {c : Char} (h : c ∈ lastName.loop last s) :
    c ∈ last ∨ c ∈ s := by
  fun_induction lastName.loop last s with
  | case1 last s ih =>
    rcases ih h with h | h <;> simp [h]
  | case2 last d s hnot ih =>
    rcases ih h with h | h
    · exact .inl h
    · exact .inr (List.mem_cons_of_mem d h)
  | case3 last => exact .inl h

theorem isIdentChar_toSnakeName {chsLen index : Nat} {s : Text} (hs : ∀ c ∈ s, IsIdentChar c) :
    ∀ c ∈ toSnakeName.loop casing chsLen index s, IsIdentChar c := by
  induction s generalizing index with
  | nil => exact List.forall_mem_nil _
  | cons x s ih =>
    obtain ⟨hx, hs⟩ := List.forall_mem_cons.mp hs
    have hrest := @ih (index + 1) hs
    intro c hc
    rw [toSnakeName.loop] at hc
    split at hc
    · rcases List.mem_append.mp hc with hc | hc
      · rcases List.mem_append.mp hc with hc | hc
        · split at hc
          · obtain rfl := List.mem_singleton.mp hc
            exact .inr (.inl rfl)
          · cases hc
        · exact casing.isIdentChar x hx c hc
      · exact hrest c hc
    · rcases List.mem_cons.mp hc with rfl | hc
      · exact hx
      · exact hrest c hc

/-- The name of a table is made of the characters of identifiers. -/
theorem isIdentChar_genTableName (ident : Ident) :
    ∀ c ∈ genTableName casing ident.text, IsIdentChar c := by
  apply isIdentChar_toSnakeName
  intro c hc
  exact ident.chars c ((isIdentChar_lastName hc).elim id id)

theorem brace_not_mem_head : '{' ∉ ast.head casing := by
  have hident := clean_ident ast.ident '{' (by decide)
  have hname : '{' ∉ genTableName casing ast.ident.text :=
    clean_of_isIdentChar (isIdentChar_genTableName ast.ident) '{' (by decide)
  simp [DeriveInput.head, hident, hname]

theorem plain_col {col : Col} (hknown : ast.Known find) (hcol : col ∈ ast.cols) {next : Char}
    (hnext : '{' ≠ next) : ∀ p ∈ col.pieces next, p.Plain '{' '}' := by
  intro p hp
  cases col with
  | column d =>
    obtain rfl := List.mem_singleton.mp hp
    have hd := (isColumn_of_mem_cols hcol).clean '{' (by decide)
    simp [Piece.Plain, hd, hnext]
  | flattened n =>
    obtain ⟨sub, -, rfl, -⟩ := hknown n hcol
    rcases List.mem_cons.mp hp with rfl | hp
    · simp [Piece.Plain]
    · obtain rfl := List.mem_singleton.mp hp
      exact ⟨clean_ident sub.ident '{' (by decide), clean_ident sub.ident '}' (by decide), hnext⟩

/-- Braces in a template are around keys. -/
theorem plain_pieces (hknown : ast.Known find) :
    ∀ p ∈ ast.pieces casing, p.Plain '{' '}' := by
  intro p hp
  unfold DeriveInput.pieces at hp
  rw [List.mem_cons, List.mem_append, List.mem_append, List.mem_flatMap, List.mem_flatMap,
    List.mem_singleton] at hp
  rcases hp with rfl | (⟨col, hcol, hp⟩ | ⟨col, hcol, hp⟩) | rfl
  · exact brace_not_mem_head
  · rcases List.mem_append.mp hp with hp | hp
    · exact plain_col hknown (List.mem_of_mem_dropLast hcol) (by decide) p hp
    · obtain rfl := List.mem_singleton.mp hp
      simp [Piece.Plain]
  · exact plain_col hknown (List.mem_of_getLast? (Option.mem_toList.mp hcol)) (by decide) p hp
  · simp [Piece.Plain]

theorem hole_mem_col {col : Col} {next next' : Char} :
    Piece.hole n next ∈ col.pieces next' ↔ col = .flattened n ∧ next = next' := by
  cases col with
  | column d => simp [Col.pieces]
  | flattened n' => simp [Col.pieces, eq_comm]

/-- More follows behind the struct in one of its places. -/
theorem hole_mem_pieces :
    Piece.hole n ',' ∈ ast.pieces casing ↔ Col.flattened n ∈ ast.cols.dropLast := by
  unfold DeriveInput.pieces
  rw [List.mem_cons, List.mem_append, List.mem_append, List.mem_flatMap, List.mem_flatMap]
  simp [hole_mem_col]

/-- The columns that stand for a field. -/
def Col.columns (find : Text → Option DeriveInput) : Col → List Text
  | column definition => [definition]
  | flattened typeName => (find typeName).elim [] fun sub => sub.cols.map Col.body

/-- The lines of the last field: the key is left where the struct is flattened before as well. -/
def DeriveInput.lastLines (find : Text → Option DeriveInput) (ast : DeriveInput) : List Text :=
  match ast.cols.getLast? with
  | none => []
  | some (.column definition) => [definition]
  | some (.flattened typeName) =>
    if .flattened typeName ∈ ast.cols.dropLast then [typeNameToKey typeName]
    else separated (Col.columns find (.flattened typeName))

/-- The line that a script begins with. -/
def DeriveInput.header (casing : Casing) (ast : DeriveInput) : Text :=
  "CREATE TABLE IF NOT EXISTS ".toList ++ genTableName casing ast.ident.text ++ " (".toList

theorem codeLines_head (casing : Casing) (ast : DeriveInput) (s : Text) :
    codeLines (ast.head casing ++ s) = ast.header casing :: codeLines s := by
  have hident := clean_ident ast.ident '\n' (by decide)
  have hname : Clean (genTableName casing ast.ident.text) :=
    clean_of_isIdentChar (isIdentChar_genTableName ast.ident)
  have hcomment : codeOf ([] ++ ("--".toList ++ (" ".toList ++ ast.ident.text))) = [] :=
    codeOf_comment (List.forall_mem_nil _) _
  have hdash : '-' ∉ 'C' :: ("REATE TABLE IF NOT EXISTS ".toList ++
      genTableName casing ast.ident.text ++ " ".toList ++ ['(']) := by
    simp [hname '-' (by decide)]
  have hcode := @codeOf_code _ [] 'C' '(' [' ', ' '] (by decide) (by decide)
    (List.forall_mem_nil _) (by simp) hdash
  have hshape : ast.head casing ++ s = ("--".toList ++ (" ".toList ++ ast.ident.text)) ++ '\n' ::
      (('C' :: ("REATE TABLE IF NOT EXISTS ".toList ++ genTableName casing ast.ident.text ++
        " ".toList ++ ['(']) ++ [' ', ' ']) ++ '\n' :: s) := by
    simp [DeriveInput.head]
  have hheader : ast.header casing = 'C' :: ("REATE TABLE IF NOT EXISTS ".toList ++
      genTableName casing ast.ident.text ++ " ".toList ++ ['(']) := by
    unfold DeriveInput.header
    generalize genTableName casing ast.ident.text = name
    simp
  rw [List.nil_append] at hcomment hcode
  rw [hshape, codeLines_line (by simp [hident]), hcomment, codeLines_line, hcode, hheader]
  · rfl
  · simp [hname '\n' (by decide)]

/-- One line, with a comma behind it. -/
theorem codeLines_column {d : Text} (hd : IsColumn d) (s : Text) :
    codeLines ("    ".toList ++ d ++ '\n' :: s) = d :: codeLines s ∧
      codeLines ("    ".toList ++ (d ++ [',']) ++ '\n' :: s) = (d ++ [',']) :: codeLines s := by
  constructor
  · rw [codeLines_line (by simp [hd.code.newline]), hd.code.codeOf (by simp)]
    rfl
  · rw [codeLines_line (by simp [hd.code.newline]), hd.code.comma.codeOf (by simp)]
    rfl

theorem codeLines_key (ident : Ident) (s : Text) :
    codeLines ("    ".toList ++ typeNameToKey ident.text ++ '\n' :: s) =
      typeNameToKey ident.text :: codeLines s := by
  have hident := clean_ident ident
  have hcode : IsCode (typeNameToKey ident.text) := by
    refine ⟨⟨'{', ident.text, '}', rfl, by decide, by decide⟩, ?_, ?_⟩
    · simp [typeNameToKey, keyMark, hident '-' (by decide)]
    · simp [typeNameToKey, keyMark, hident '\n' (by decide)]
  rw [codeLines_line (by simp [hcode.newline]), hcode.codeOf (by simp)]
  rfl

/-- How the pieces of a table are filled. -/
abbrev DeriveInput.fill (casing : Casing) (find : Text → Option DeriveInput) (ast : DeriveInput) :
    Piece Char → Piece Char :=
  Piece.filled ',' (fun n => (find n).elim [] DeriveInput.commaText)
    (fun n => (find n).elim [] DeriveInput.subText) (ast.pieces casing)
    ((subsOf ast.cols).map Prod.fst)

/-- The fields in front of the last one. -/
theorem codeLines_front (hknown : ast.Known find) {cols : List Col}
    (hcols : ∀ col ∈ cols, col ∈ ast.cols.dropLast) (s : Text) :
    codeLines (renderAll '{' '}' ((cols.flatMap fun col =>
      col.pieces ',' ++ [.text "\n".toList]).map (ast.fill casing find)) ++ s) =
        commas (cols.flatMap (Col.columns find)) ++ codeLines s := by
  induction cols generalizing s with
  | nil => rfl
  | cons col cols ih =>
    obtain ⟨hcol, hrest⟩ := List.forall_mem_cons.mp hcols
    rw [List.flatMap_cons, List.map_append, renderAll_append, List.append_assoc,
      List.flatMap_cons, commas_append, List.append_assoc, ← ih hrest]
    generalize renderAll '{' '}' ((cols.flatMap fun col =>
      col.pieces ',' ++ [.text "\n".toList]).map (ast.fill casing find)) ++ s = rest
    cases col with
    | column d =>
      have hd := isColumn_of_mem_cols (List.mem_of_mem_dropLast hcol)
      have hline := (codeLines_column hd rest).2
      simpa [Col.pieces, renderAll, Piece.filled, Piece.render, Col.columns, commas] using hline
    | flattened n =>
      obtain ⟨sub, hfind, -, hflat⟩ := hknown n (List.mem_of_mem_dropLast hcol)
      have hkey : n ∈ (subsOf ast.cols).map Prod.fst :=
        ((subs_subsOf ast.cols).keys n).mpr (List.mem_of_mem_dropLast hcol)
      have hfill : ast.fill casing find (.hole n ',') = .text sub.commaText := by
        simp only [DeriveInput.fill, Piece.filled]
        rw [if_pos hkey, if_pos (hole_mem_pieces.mpr hcol), if_pos True.intro, hfind]
        rfl
      have htext : renderAll '{' '}' ((Col.pieces ',' (.flattened n) ++
          [Piece.text "\n".toList]).map (ast.fill casing find)) ++ rest =
            ("    ".toList ++ sub.commaText) ++ '\n' :: rest := by
        simp [Col.pieces, renderAll, Piece.render, hfill, Piece.filled]
      rw [htext, codeLines_append_cons, codeLines_commaText hflat, Col.columns, hfind]
      rfl

/-- The last field. -/
theorem codeLines_last (hknown : ast.Known find) (s : Text) :
    codeLines (renderAll '{' '}' ((ast.cols.getLast?.toList.flatMap (Col.pieces '\n')).map
      (ast.fill casing find)) ++ s) = ast.lastLines find ++ codeLines s := by
  unfold DeriveInput.lastLines
  cases hlast : ast.cols.getLast? with
  | none => rfl
  | some col =>
    have hcol := List.mem_of_getLast? hlast
    cases col with
    | column d =>
      have hline := (codeLines_column (isColumn_of_mem_cols hcol) s).1
      simpa [Col.pieces, renderAll, Piece.filled, Piece.render] using hline
    | flattened n =>
      obtain ⟨sub, hfind, rfl, hflat⟩ := hknown n hcol
      have hkey := ((subs_subsOf ast.cols).keys _).mpr hcol
      dsimp only
      split_ifs with hfront
      · -- the key is not followed by a comma, unlike the one before
        have hfill : ast.fill casing find (.hole sub.ident.text '\n') =
            .hole sub.ident.text '\n' := by
          simp only [DeriveInput.fill, Piece.filled]
          rw [if_pos hkey, if_pos (hole_mem_pieces.mpr hfront), if_neg (by decide)]
        have hline := codeLines_key sub.ident s
        simpa [Col.pieces, renderAll, Piece.render, hfill, Piece.filled, typeNameToKey] using hline
      · have hfill : ast.fill casing find (.hole sub.ident.text '\n') =
            .text (sub.subText ++ ['\n']) := by
          simp only [DeriveInput.fill, Piece.filled]
          rw [if_pos hkey, if_neg fun hhole => hfront (hole_mem_pieces.mp hhole), hfind]
          rfl
        have htext : renderAll '{' '}' (((some (Col.flattened sub.ident.text)).toList.flatMap
            (Col.pieces '\n')).map (ast.fill casing find)) ++ s =
              ("    ".toList ++ sub.subText) ++ '\n' :: s := by
          simp [Col.pieces, renderAll, Piece.render, hfill, Piece.filled]
        rw [htext, codeLines_append_cons, codeLines_subText hflat, Col.columns, hfind]
        rfl

/-- **What a script declares**: the header, the columns of all fields but the last with commas
behind them, the lines of the last field, and the end. -/
theorem codeLines_script (hknown : ast.Known find) :
    codeLines (ast.script casing find) = ast.header casing ::
      (commas (ast.cols.dropLast.flatMap (Col.columns find)) ++ ast.lastLines find ++
        [");".toList]) := by
  have hscript : ast.script casing find = ast.head casing ++ (renderAll '{' '}'
      ((ast.cols.dropLast.flatMap fun col => col.pieces ',' ++ [.text "\n".toList]).map
        (ast.fill casing find)) ++ (renderAll '{' '}'
      ((ast.cols.getLast?.toList.flatMap (Col.pieces '\n')).map (ast.fill casing find)) ++
        " );\n".toList)) := by
    have htext : ∀ t, ast.fill casing find (.text t) = .text t := fun _ => rfl
    show renderAll '{' '}' ((ast.pieces casing).map (ast.fill casing find)) = _
    generalize ast.fill casing find = F at htext
    simp [DeriveInput.pieces, renderAll, htext, Piece.render]
  have hend : codeLines " );\n".toList = [");".toList] := by decide
  rw [hscript, codeLines_head, codeLines_front hknown fun _ h => h, codeLines_last hknown, hend,
    List.append_assoc]

end Pieces

end Cashbox.Macro
