import Cashbox.Macro.CreateTable

/-!
# The columns of a table

A table has the columns of its fields that are not skipped, with those of a struct in the place of
a field that is flattened. Its script declares them unless a field that would be a column is
skipped, or a struct in the place of the last field is flattened before as well or has no columns.
-/

namespace Cashbox.Macro

open Cashbox.Lib Cashbox.Lib.Text

/-! ## What a table should have -/

/-- Whether a place in a text is in a string literal. -/
inductive Quoting where
  | outside
  | inside
  /-- Behind a backslash. -/
  | escaped
  deriving DecidableEq

def Quoting.next : Quoting → Char → Quoting
  | outside, c => if c = '\"' then inside else outside
  | inside, c => if c = '\"' then outside else if c = '\\' then escaped else inside
  | escaped, _ => inside

/-- The word is a token of the text, and not in a string literal. -/
def Lists (tokens word : Text) : Prop :=
  ∃ i ∈ List.range tokens.length, word <+: tokens.drop i ∧
    (tokens.take i).foldl Quoting.next .outside = .outside ∧
    (∀ c ∈ (tokens.take i).getLast?, ¬ IsIdentChar c) ∧
    ∀ c ∈ (tokens.drop (i + word.length)).head?, ¬ IsIdentChar c

instance (o : Option Char) : Decidable (∀ c ∈ o, ¬ IsIdentChar c) := Option.decidableForallMem o

instance (tokens word : Text) : Decidable (Lists tokens word) :=
  inferInstanceAs (Decidable (∃ i ∈ List.range tokens.length, _ ∧ _ ∧ _ ∧ _))

/-- The field is marked with the word, as in `#[serde(skip)]`. -/
def Field.Marked (field : Field) (word : String) : Prop :=
  ∃ it ∈ field.attrs, it.path.map Ident.text = ["serde".toList] ∧ Lists it.tokens word.toList

instance (field : Field) (word : String) : Decidable (field.Marked word) :=
  inferInstanceAs (Decidable (∃ it ∈ field.attrs, _ ∧ _))

/-- The column of a field that is not skipped. -/
def Field.ownColumns (field : Field) : List Text :=
  if field.Marked "skip" then []
  else
    match field.item with
    | some (.column definition) => [definition]
    | _ => []

/-- The columns of a struct without flattened fields. -/
def DeriveInput.ownColumns (ast : DeriveInput) : List Text := ast.fields.flatMap Field.ownColumns

/-- The columns of a field that is not skipped. -/
def Field.columns (find : Text → Option DeriveInput) (field : Field) : List Text :=
  match field.item with
  | some (.flattened typeName) =>
    if field.Marked "skip" then [] else (find typeName).elim [] DeriveInput.ownColumns
  | _ => field.ownColumns

/-- The columns of a table. -/
def DeriveInput.columns (find : Text → Option DeriveInput) (ast : DeriveInput) : List Text :=
  ast.fields.flatMap (Field.columns find)

/-- The script has the header, the columns with commas between them and none behind the last, and
the end. -/
def DeriveInput.Declares (casing : Casing) (find : Text → Option DeriveInput) (ast : DeriveInput)
    (script : Text) : Prop :=
  codeLines script = ast.header casing :: (separated (ast.columns find) ++ [");".toList])

/-- The type of the field makes it a column, although it is marked to be skipped. -/
def Field.SkipsColumn (field : Field) : Prop :=
  field.Marked "skip" ∧ ∃ definition, field.item = some (.column definition)

/-- What a table must be like for its script to declare its columns. -/
structure DeriveInput.Sound (find : Text → Option DeriveInput) (ast : DeriveInput) : Prop where
  /-- No field that would be a column is marked to be skipped, -/
  own : ∀ field ∈ ast.fields, ¬ field.SkipsColumn
  /-- nor is one of a struct that is flattened. -/
  subs : ∀ n, Col.flattened n ∈ ast.cols → ∀ sub, find n = some sub →
    ∀ field ∈ sub.fields, ¬ field.SkipsColumn
  /-- A struct in the place of the last field is in no other place. -/
  last : ∀ n, ast.cols.getLast? = some (.flattened n) → Col.flattened n ∉ ast.cols.dropLast
  /-- It has a column, if the table has any. -/
  column : ∀ n sub, ast.cols.getLast? = some (.flattened n) → find n = some sub →
    sub.cols = [] → ∀ col ∈ ast.cols, col.columns find = []

/-! ## What the script has -/

section Columns

variable {casing : Casing} {find : Text → Option DeriveInput} {ast : DeriveInput} {field : Field}
  {n d : Text}

theorem item_mem_cols {col : Col} (hfield : field ∈ ast.fields) (h : field.item = some col) :
    col ∈ ast.cols := List.mem_filterMap.mpr ⟨field, hfield, h⟩

/-- The columns that the script has for a struct, by its fields. -/
theorem map_body_cols (ast : DeriveInput) : ast.cols.map Col.body =
    ast.fields.flatMap fun field => (field.item.map Col.body).toList := by
  unfold DeriveInput.cols
  induction ast.fields with
  | nil => rfl
  | cons field fields ih =>
    rw [List.filterMap_cons, List.flatMap_cons, ← ih]
    cases field.item <;> rfl

/-- The columns that the script has for a table, by its fields. -/
theorem flatMap_columns_cols (ast : DeriveInput) : ast.cols.flatMap (Col.columns find) =
    ast.fields.flatMap fun field => field.item.toList.flatMap (Col.columns find) := by
  unfold DeriveInput.cols
  induction ast.fields with
  | nil => rfl
  | cons field fields ih =>
    rw [List.filterMap_cons, List.flatMap_cons, ← ih]
    cases field.item <;> simp

theorem length_flatMap_le {α β : Type} {l : List α} {f g : α → List β}
    (hle : ∀ x ∈ l, (f x).length ≤ (g x).length) :
    (l.flatMap f).length ≤ (l.flatMap g).length := by
  induction l with
  | nil => exact Nat.le_refl 0
  | cons x l ih =>
    obtain ⟨hx, hl⟩ := List.forall_mem_cons.mp hle
    rw [List.flatMap_cons, List.flatMap_cons, List.length_append, List.length_append]
    exact Nat.add_le_add hx (ih hl)

/-- A list that is put together from as many elements has as many in each place. -/
theorem length_le_of_flatMap {α β : Type} {l : List α} {f g : α → List β}
    (hle : ∀ x ∈ l, (f x).length ≤ (g x).length)
    (h : (l.flatMap g).length ≤ (l.flatMap f).length) : ∀ x ∈ l, (g x).length ≤ (f x).length := by
  induction l with
  | nil => exact List.forall_mem_nil _
  | cons x l ih =>
    obtain ⟨hx, hl⟩ := List.forall_mem_cons.mp hle
    have hrest := length_flatMap_le hl
    rw [List.flatMap_cons, List.flatMap_cons, List.length_append, List.length_append] at h
    exact List.forall_mem_cons.mpr ⟨by omega, ih hl (by omega)⟩

/-! ## Fields that are skipped -/

/-- The macro sees every field that is marked. -/
theorem Field.Marked.serde {word : String} (h : field.Marked word) : field.serde word = true := by
  obtain ⟨it, hit, hpath, i, -, hword, -⟩ := h
  refine List.any_eq_true.mpr ⟨it, hit, ?_⟩
  obtain ⟨p, hp, hname⟩ := List.map_eq_singleton_iff.mp hpath
  have hinfix : word.toList <:+: it.tokens :=
    hword.isInfix.trans (List.drop_suffix i it.tokens).isInfix
  rw [hp, List.any_cons, hname, decide_eq_true hinfix]
  rfl

/-- A field that is flattened is not skipped. -/
theorem not_marked_of_flattened (h : field.item = some (.flattened n)) :
    ¬ field.Marked "skip" := by
  intro hmarked
  unfold Field.item at h
  cases hcol : field.col with
  | ok col =>
    rw [hcol] at h
    obtain rfl : col = some (.flattened n) := h
    obtain ⟨colName, -, hcol⟩ := Outcome.bind_eq_ok.mp hcol
    obtain ⟨typeName, -, hcol⟩ := Outcome.bind_eq_ok.mp hcol
    cases hdefinition : columnOf colName typeName with
    | some definition =>
      rw [hdefinition] at hcol
      cases hcol
    | none =>
      rw [hdefinition] at hcol
      have hnone : (Outcome.ok none : Outcome Empty (Option Col)) = .ok (some (.flattened n)) :=
        (if_pos hmarked.serde).symm.trans hcol
      cases hnone
  | err e => exact e.elim
  | panic why =>
    rw [hcol] at h
    cases h

theorem columns_of_flattened (h : field.item = some (.flattened n)) :
    field.columns find = (find n).elim [] DeriveInput.ownColumns := by
  unfold Field.columns
  rw [h]
  exact if_neg (not_marked_of_flattened h)

theorem length_ownColumns_le (field : Field) :
    field.ownColumns.length ≤ (field.item.map Col.body).toList.length := by
  unfold Field.ownColumns
  split_ifs
  · exact Nat.zero_le _
  · rcases field.item with _ | d | n <;> simp

theorem ownColumns_eq (h : ¬ field.SkipsColumn) (hflat : ∀ n, field.item ≠ some (.flattened n)) :
    field.ownColumns = (field.item.map Col.body).toList := by
  unfold Field.ownColumns
  cases hitem : field.item with
  | none => simp
  | some col =>
    cases col with
    | column d =>
      have hskip : ¬ field.Marked "skip" := fun hskip => h ⟨hskip, d, hitem⟩
      rw [if_neg hskip]
      rfl
    | flattened n => exact absurd hitem (hflat n)

/-- A column that is skipped is one less. -/
theorem not_skipsColumn (h : (field.item.map Col.body).toList.length ≤ field.ownColumns.length) :
    ¬ field.SkipsColumn := by
  rintro ⟨hskip, d, hitem⟩
  unfold Field.ownColumns at h
  rw [if_pos hskip, hitem] at h
  simp at h

theorem DeriveInput.ownColumns_eq (hflat : ast.Flat)
    (h : ∀ field ∈ ast.fields, ¬ field.SkipsColumn) :
    ast.ownColumns = ast.cols.map Col.body := by
  rw [map_body_cols]
  apply List.flatMap_congr
  intro field hfield
  apply Macro.ownColumns_eq (h field hfield)
  intro n hitem
  exact hflat n (item_mem_cols hfield hitem)

theorem DeriveInput.length_ownColumns_le (ast : DeriveInput) :
    ast.ownColumns.length ≤ (ast.cols.map Col.body).length := by
  rw [map_body_cols]
  exact length_flatMap_le fun field _ => Macro.length_ownColumns_le field

theorem DeriveInput.not_skipsColumn
    (h : (ast.cols.map Col.body).length ≤ ast.ownColumns.length) :
    ∀ field ∈ ast.fields, ¬ field.SkipsColumn := by
  rw [map_body_cols] at h
  intro field hfield
  exact Macro.not_skipsColumn
    (length_le_of_flatMap (fun field _ => Macro.length_ownColumns_le field) h field hfield)

theorem length_columns_le (field : Field) :
    (field.columns find).length ≤ (field.item.toList.flatMap (Col.columns find)).length := by
  have hown := length_ownColumns_le field
  cases hitem : field.item with
  | none =>
    unfold Field.columns
    rw [hitem] at hown ⊢
    exact hown
  | some col =>
    cases col with
    | column d =>
      unfold Field.columns
      rw [hitem] at hown ⊢
      exact hown
    | flattened n =>
      rw [columns_of_flattened hitem]
      simp only [Option.toList_some, List.flatMap_cons, List.flatMap_nil, List.append_nil,
        Col.columns]
      cases find n with
      | none => exact Nat.le_refl 0
      | some sub => exact sub.length_ownColumns_le

/-- Where no column is skipped the table should have the columns that the script has. -/
theorem columns_eq (hknown : ast.Known find) (hown : ∀ field ∈ ast.fields, ¬ field.SkipsColumn)
    (hsubs : ∀ n, Col.flattened n ∈ ast.cols → ∀ sub, find n = some sub →
      ∀ field ∈ sub.fields, ¬ field.SkipsColumn) :
    ast.columns find = ast.cols.flatMap (Col.columns find) := by
  rw [flatMap_columns_cols]
  apply List.flatMap_congr
  intro field hfield
  have hsame := fun hflat => ownColumns_eq (hown field hfield) hflat
  cases hitem : field.item with
  | none =>
    unfold Field.columns
    rw [hitem] at hsame ⊢
    exact hsame fun n h => nomatch h
  | some col =>
    cases col with
    | column d =>
      unfold Field.columns
      rw [hitem] at hsame ⊢
      exact hsame fun n h => nomatch h
    | flattened n =>
      have hcol := item_mem_cols hfield hitem
      obtain ⟨sub, hfind, -, hflat⟩ := hknown n hcol
      rw [columns_of_flattened hitem]
      simp [Col.columns, hfind, sub.ownColumns_eq hflat (hsubs n hcol sub hfind)]

/-- Where the script has no more columns than the table should have, none is skipped. -/
theorem not_skipsColumn_of_length
    (h : (ast.cols.flatMap (Col.columns find)).length ≤ (ast.columns find).length) :
    (∀ field ∈ ast.fields, ¬ field.SkipsColumn) ∧
      ∀ n, Col.flattened n ∈ ast.cols → ∀ sub, find n = some sub →
        ∀ field ∈ sub.fields, ¬ field.SkipsColumn := by
  rw [flatMap_columns_cols] at h
  have hall := length_le_of_flatMap (fun field _ => length_columns_le field) h
  constructor
  · rintro field hfield ⟨hskip, d, hitem⟩
    have hlength := hall field hfield
    have hown : field.columns find = [] := by
      unfold Field.columns Field.ownColumns
      rw [hitem]
      exact if_pos hskip
    rw [hown, hitem] at hlength
    simp [Col.columns] at hlength
  · intro n hcol sub hfind
    obtain ⟨field, hfield, hitem⟩ := List.mem_filterMap.mp hcol
    have hlength := hall field hfield
    rw [columns_of_flattened hitem, hitem] at hlength
    apply DeriveInput.not_skipsColumn
    simpa [Col.columns, hfind] using hlength

/-! ## When the script declares the columns -/

/-- Lines with no columns but those of the fields. -/
theorem length_lines (hlast : ∀ n, ast.cols.getLast? = some (.flattened n) →
    Col.flattened n ∉ ast.cols.dropLast) :
    (commas (ast.cols.dropLast.flatMap (Col.columns find)) ++ ast.lastLines find).length =
      (ast.cols.flatMap (Col.columns find)).length := by
  unfold DeriveInput.lastLines
  rcases List.eq_nil_or_concat' ast.cols with hcols | ⟨front, last, hcols⟩
  · simp [hcols, commas]
  · rw [hcols, List.dropLast_concat, List.getLast?_concat] at hlast ⊢
    cases last with
    | column d => simp [commas, Col.columns]
    | flattened n =>
      have hnot := hlast n rfl
      simp [commas, hnot, length_separated]

/-- No line of a script that should be has braces. -/
theorem brace_not_mem_separated {ls : List Text} (h : ∀ l ∈ ls, '{' ∉ l) :
    ∀ l ∈ separated ls, '{' ∉ l := by
  intro l hl
  rcases List.mem_append.mp hl with hl | hl
  · obtain ⟨item, hitem, rfl⟩ := List.mem_map.mp hl
    simp [h item (List.mem_of_mem_dropLast hitem)]
  · exact h l (List.mem_of_getLast? (Option.mem_toList.mp hl))

/-- What the table should have are columns. -/
theorem isColumn_ownColumns {sub : DeriveInput} {d : Text} (h : d ∈ sub.ownColumns) :
    IsColumn d := by
  obtain ⟨field, hfield, hd⟩ := List.mem_flatMap.mp h
  unfold Field.ownColumns at hd
  split_ifs at hd
  · cases hd
  · split at hd
    · rename_i definition hitem
      obtain rfl := List.mem_singleton.mp hd
      exact isColumn_of_mem_cols (item_mem_cols hfield hitem)
    · cases hd

theorem isColumn_of_columns {d : Text} (h : d ∈ ast.columns find) : IsColumn d := by
  obtain ⟨field, hfield, hd⟩ := List.mem_flatMap.mp h
  unfold Field.columns at hd
  split at hd
  · rename_i n hitem
    rw [if_neg (not_marked_of_flattened hitem)] at hd
    cases hfind : find n with
    | none =>
      rw [hfind] at hd
      cases hd
    | some sub =>
      rw [hfind] at hd
      exact isColumn_ownColumns hd
  · have hown : d ∈ (⟨ast.ident, [field]⟩ : DeriveInput).ownColumns := by
      simpa [DeriveInput.ownColumns] using hd
    exact isColumn_ownColumns hown

/-- Sound tables are declared. -/
theorem lines_of_sound (hknown : ast.Known find) (h : ast.Sound find) :
    commas (ast.cols.dropLast.flatMap (Col.columns find)) ++ ast.lastLines find =
      separated (ast.columns find) := by
  obtain ⟨hown, hsubs, hlast, hcolumn⟩ := h
  rw [columns_eq hknown hown hsubs]
  unfold DeriveInput.lastLines
  rcases List.eq_nil_or_concat' ast.cols with hcols | ⟨front, last, hcols⟩
  · simp [hcols, commas, separated]
  · rw [hcols] at hlast hcolumn
    rw [hcols, List.dropLast_concat, List.getLast?_concat, List.flatMap_append,
      List.flatMap_singleton]
    rw [List.dropLast_concat, List.getLast?_concat] at hlast
    rw [List.getLast?_concat] at hcolumn
    cases last with
    | column d => exact (separated_concat _ d).symm
    | flattened n =>
      obtain ⟨sub, hfind, -, -⟩ := hknown n (by simp [hcols])
      dsimp only
      rw [if_neg (hlast n rfl)]
      by_cases hempty : Col.columns find (.flattened n) = []
      · -- the last struct has no columns, and neither has the table
        have hsub : sub.cols = [] := by simpa [Col.columns, hfind] using hempty
        have hfront : front.flatMap (Col.columns find) = [] := by
          rw [List.flatMap_eq_nil_iff]
          intro col hcol
          exact hcolumn n sub rfl hfind hsub col (List.mem_append_left _ hcol)
        rw [hempty, hfront]
        rfl
      · exact (separated_append hempty).symm

/-- Tables that are declared are sound. -/
theorem sound_of_lines
    (h : commas (ast.cols.dropLast.flatMap (Col.columns find)) ++ ast.lastLines find =
      separated (ast.columns find)) : ast.Sound find := by
  have hlast : ∀ n, ast.cols.getLast? = some (.flattened n) →
      Col.flattened n ∉ ast.cols.dropLast := by
    intro n hn hfront
    -- the key that is left has braces
    have hkey : typeNameToKey n ∈ separated (ast.columns find) := by
      rw [← h]
      unfold DeriveInput.lastLines
      simp [hn, hfront]
    have hbrace := brace_not_mem_separated
      (fun d hd => (isColumn_of_columns hd).clean '{' (by decide)) _ hkey
    exact hbrace (by simp [typeNameToKey, keyMark])
  have hlength := congrArg List.length h
  rw [length_lines hlast, length_separated] at hlength
  obtain ⟨hown, hsubs⟩ := not_skipsColumn_of_length (Nat.le_of_eq hlength)
  refine ⟨hown, hsubs, hlast, ?_⟩
  intro n sub hn hfind hempty col hcol
  -- a comma would be behind the last column
  have hlines : ast.lastLines find = [] := by
    unfold DeriveInput.lastLines
    rw [hn]
    dsimp only
    rw [if_neg (hlast n hn), Col.columns, hfind]
    simp [hempty, separated, commas]
  rw [hlines, List.append_nil] at h
  have hfront : ast.cols.dropLast.flatMap (Col.columns find) = [] := by
    by_contra hne
    refine commas_ne_separated hne (fun d hd s heq => ?_) h
    have hcomma := (isColumn_of_columns hd).clean ',' (by decide)
    rw [heq] at hcomma
    simp at hcomma
  rw [List.flatMap_eq_nil_iff] at hfront
  obtain ⟨front, last, hcols⟩ := (List.eq_nil_or_concat' ast.cols).resolve_left
    (List.ne_nil_of_mem hcol)
  rw [hcols, List.dropLast_concat] at hfront
  rw [hcols, List.getLast?_concat] at hn
  obtain rfl := Option.some.inj hn
  rw [hcols] at hcol
  rcases List.mem_append.mp hcol with hcol | hcol
  · exact hfront col hcol
  · obtain rfl := List.mem_singleton.mp hcol
    simp [Col.columns, hfind, hempty]

/-- **The script of a table** declares its columns exactly if the table is sound. -/
theorem declares_script_iff (hknown : ast.Known find) :
    ast.Declares casing find (ast.script casing find) ↔ ast.Sound find := by
  unfold DeriveInput.Declares
  rw [codeLines_script hknown, List.cons_inj_right, List.append_left_inj]
  exact ⟨sound_of_lines, lines_of_sound hknown⟩

end Columns

end Cashbox.Macro
