import Mathlib.Data.Char
import Cashbox.Lib.Outcome
import Cashbox.Lib.Template
import Cashbox.Lib.Text

/-!
# Scripts for the tables

The macros see the structs of the tables and the structs that are flattened into them one by one,
in the order of the compiler. A table has a template, in which a flattened struct is a key in
braces. The script of a table is made from its template as soon as all its flattened structs are
known, and it is not changed any more.
-/

namespace Cashbox.Macro

open Cashbox.Lib

/-! ## Declarations -/

/-- Of the ASCII characters, identifiers have letters, digits and `_`, and raw ones `#`. -/
def IsIdentChar (c : Char) : Prop := c.isAlphanum = true ∨ c = '_' ∨ c = '#' ∨ 128 ≤ c.toNat

instance (c : Char) : Decidable (IsIdentChar c) :=
  inferInstanceAs (Decidable (c.isAlphanum = true ∨ c = '_' ∨ c = '#' ∨ 128 ≤ c.toNat))

structure Ident where
  text : Text
  ne_nil : text ≠ []
  chars : ∀ c ∈ text, IsIdentChar c
  deriving DecidableEq

inductive PathArguments where
  | none
  /-- With the last argument, where this is a type that is given by a path. -/
  | angleBracketed (last : Option Ident)
  | parenthesized
  deriving DecidableEq

/-- The type of a field: the last segment of a path, or a type that is no path. -/
inductive FieldType where
  | path (ident : Ident) (arguments : PathArguments)
  | other
  deriving DecidableEq

/-- An attribute: the segments of its path, and all of it as text. -/
structure Attr where
  path : List Ident
  tokens : Text
  deriving DecidableEq

structure Field where
  ident : Option Ident
  ty : FieldType
  attrs : List Attr
  deriving DecidableEq

structure DeriveInput where
  ident : Ident
  fields : List Field
  deriving DecidableEq

/-! ## Names -/

/-- The case of characters. -/
structure Casing where
  isUppercase : Char → Bool
  toLowercase : Char → Text
  /-- An identifier in lower case is one. -/
  isIdentChar : ∀ c, IsIdentChar c → ∀ d ∈ toLowercase c, IsIdentChar d

/-- The loop of `to_snake_name`. -/
def toSnakeName.loop (casing : Casing) (chsLen : Nat) : Nat → Text → Text
  | _, [] => []
  | index, x :: chs =>
    let rest := toSnakeName.loop casing chsLen (index + 1) chs
    if casing.isUppercase x then
      (if index ≠ 0 ∧ index + 1 ≠ chsLen then ['_'] else []) ++ casing.toLowercase x ++ rest
    else x :: rest

def toSnakeName (casing : Casing) (name : Text) : Text :=
  toSnakeName.loop casing name.byteLen 0 name

/-- The last part of a text that is split at `::`. -/
def lastName.loop (last : Text) : Text → Text
  | ':' :: ':' :: s => lastName.loop s s
  | _ :: s => lastName.loop last s
  | [] => last

def lastName (typeName : Text) : Text := lastName.loop typeName typeName

def genTableName (casing : Casing) (typeName : Text) : Text :=
  toSnakeName casing (lastName typeName)

/-! ## Columns -/

/-- The name of a type, where it is supported. -/
def FieldType.name : FieldType → Outcome Empty Text
  | path ident .none => .ok ident.text
  | path ident (.angleBracketed (some last)) => .ok (ident.text ++ '<' :: (last.text ++ ['>']))
  | path _ (.angleBracketed none) => .panic .explicit
  | path _ .parenthesized => .panic .explicit
  | other => .panic .explicit

/-- The types that a column can have, with its definition behind the name. -/
def columnTypes : List (List String × String) :=
  [(["String", "BigDecimal"], " TEXT NOT NULL"),
    (["Option<String>", "Option<BigDecimal>"], " TEXT DEFAULT NULL"),
    (["i64", "u64", "i32", "u32", "i16", "u16"], " INTEGER NOT NULL"),
    (["Option<i64>", "Option<u64>", "Option<i32>", "Option<u32>", "Option<i16>", "Option<u16>"],
      " INTEGER DEFAULT NULL"),
    (["f32", "f64"], " REAL NOT NULL"),
    (["Option<f32>", "Option<f64>"], " REAL DEFAULT NULL"),
    (["bool"], " BOOLEAN NOT NULL"),
    (["Option<bool>"], " BOOLEAN DEFAULT NULL")]

/-- The definition of a column, without the comma. -/
def columnOf (colName typeName : Text) : Option Text :=
  (columnTypes.find? fun types => typeName ∈ types.1.map String.toList).map fun types =>
    -- only a text can be the primary key
    if types.2 = " TEXT NOT NULL" ∧ colName = "id".toList then
      colName ++ " TEXT PRIMARY KEY".toList
    else colName ++ types.2.toList

/-- Some attribute of `serde` has the word. -/
def Field.serde (field : Field) (word : String) : Bool :=
  field.attrs.any fun it =>
    it.path.any (fun p => p.text = "serde".toList) && decide (word.toList <:+: it.tokens)

/-- What stands for a field in a script. -/
inductive Col where
  | column (definition : Text)
  | flattened (typeName : Text)
  deriving DecidableEq

/-- `{Eee}` -/
def typeNameToKey (typeName : Text) : Text := keyMark '{' '}' typeName

/-- The `match` of the loop over the fields. `continue` leaves it where a field is skipped. -/
def Field.col (field : Field) : Outcome Empty (Option Col) := do
  let colName ← Outcome.ofSome (field.ident.map Ident.text)
  let typeName ← field.ty.name
  match columnOf colName typeName with
  | some definition => .ok (some (.column definition))
  | none =>
    if field.serde "skip" then .ok none
    else if field.serde "flatten" then .ok (some (.flattened typeName))
    else .panic .explicit

/-! ## Templates -/

/-- `insert` into a `HashMap`, whose order is left to `iter`. -/
def mapInsert {κ β : Type} [DecidableEq κ] (k : κ) (v : β) (map : List (κ × β)) : List (κ × β) :=
  (k, v) :: map.filter fun entry => entry.1 ≠ k

structure TableMeta where
  typeName : Text
  sql : Text
  template : Text
  cols : Text
  subs : List (Text × Text)
  writeFile : Bool

/-- One round of the loop over the fields. -/
def pushField (s : List (Text × Text) × Text) (field : Field) :
    Outcome Empty (List (Text × Text) × Text) := do
  match ← field.col with
  | none => .ok s
  | some (.column definition) => .ok (s.1, s.2 ++ ("    ".toList ++ definition ++ ",\n".toList))
  | some (.flattened typeName) =>
    .ok (mapInsert typeName (typeNameToKey typeName) s.1,
      s.2 ++ ("    ".toList ++ typeNameToKey typeName ++ ",\n".toList))

/-- The last comma is removed. -/
def removeComma (cols : Text) : Text :=
  match rfind [','] cols with
  | some index => cols.eraseIdx index
  | none => cols

def generateTableScript (casing : Casing) (typeName : Text) (fields : List Field) :
    Outcome Empty TableMeta := do
  let (subs, cols) ← fields.foldlM pushField ([], [])
  let cols := removeComma cols
  .ok
    { typeName := typeName
      sql := []
      template := "CREATE TABLE IF NOT EXISTS ".toList ++ genTableName casing typeName ++
        " (  \n".toList ++ cols ++ " );\n".toList
      cols := "-- ".toList ++ typeName ++ " start\n".toList ++ cols ++
        ("    -- ".toList ++ typeName ++ " end\n".toList)
      subs := subs
      writeFile := false }

def generateTableMeta (casing : Casing) (ast : DeriveInput) : Outcome Empty TableMeta := do
  let tm ← generateTableScript casing ast.ident.text ast.fields
  .ok { tm with template := "-- ".toList ++ ast.ident.text ++ "\n".toList ++ tm.template }

/-! ## The meta data -/

/-- The tables by their type names, the columns of the structs that are flattened, and the files
that were written. -/
structure DbMeta where
  tableMetas : List TableMeta
  subStruct : List (Text × Text)
  files : Text → Option Text

def DbMeta.new : DbMeta := ⟨[], [], fun _ => none⟩

/-- `insert` into a `BTreeMap`. -/
def insertMeta (tm : TableMeta) : List TableMeta → List TableMeta
  | [] => [tm]
  | t :: ts =>
    if tm.typeName < t.typeName then tm :: t :: ts
    else if tm.typeName = t.typeName then tm :: ts
    else t :: insertMeta tm ts

/-- The columns with a comma, which is put in front of the last comment. -/
def withComma (cols : Text) : Outcome Empty Text := do
  let index ← Outcome.ofSome (rfind "\n  ".toList cols)
  .ok (cols.take index ++ ',' :: cols.drop index)

/-- One round of the loop over the flattened structs of a table. -/
def replaceSub (subStruct : List (Text × Text)) (sql : Text) (sub : Text × Text) :
    Outcome Empty Text := do
  let cols ← Outcome.ofSome (subStruct.lookup sub.1)
  let exValue := sub.2 ++ [',']
  if exValue <:+: sql then do
    let temp ← withComma cols
    .ok (replaceAll exValue temp sql)
  else .ok (replaceAll sub.2 cols sql)

/-- A table, and whether its script is done. -/
def complete (iter : Text → List (Text × Text) → List (Text × Text))
    (subStruct : List (Text × Text)) (tm : TableMeta) : Outcome Empty (TableMeta × Bool) :=
  if tm.sql = [] then
    if ∀ sub ∈ tm.subs, sub.1 ∈ subStruct.map Prod.fst then do
      let sql ← (iter tm.typeName tm.subs).foldlM (replaceSub subStruct) tm.template
      .ok ({ tm with sql := sql }, true)
    else .ok (tm, false)
  else .ok (tm, true)

/-- The file of a table. -/
def fileName (casing : Casing) (typeName : Text) : Text :=
  genTableName casing typeName ++ ".sql".toList

def fullTemplate (casing : Casing) (iter : Text → List (Text × Text) → List (Text × Text))
    (db : DbMeta) : Outcome Empty DbMeta := do
  let metas ← db.tableMetas.mapM (complete iter db.subStruct)
  let dones := (metas.filter Prod.snd).map Prod.fst
  if dones = [] then .ok { db with tableMetas := metas.map Prod.fst }
  else
    let files := dones.foldl (fun files tm =>
      if tm.writeFile then files
      else Function.update files (fileName casing tm.typeName) (some tm.sql)) db.files
    .ok
      { db with
        tableMetas := metas.map fun m => if m.2 then { m.1 with writeFile := true } else m.1
        files := Function.update files "all.sql".toList (some (dones.flatMap TableMeta.sql)) }

/-- The macro of a table or of a struct that is flattened. -/
inductive Call where
  | push (ast : DeriveInput)
  | pushSubStruct (ast : DeriveInput)
  deriving DecidableEq

def DbMeta.call (casing : Casing) (iter : Text → List (Text × Text) → List (Text × Text))
    (db : DbMeta) : Call → Outcome Empty DbMeta
  | .push ast => do
    let tm ← generateTableMeta casing ast
    fullTemplate casing iter { db with tableMetas := insertMeta tm db.tableMetas }
  | .pushSubStruct ast => do
    let tm ← generateTableMeta casing ast
    if tm.subs = [] then
      fullTemplate casing iter { db with subStruct := mapInsert tm.typeName tm.cols db.subStruct }
    else .panic .explicit

def DbMeta.calls (casing : Casing) (iter : Text → List (Text × Text) → List (Text × Text))
    (calls : List Call) : Outcome Empty DbMeta :=
  calls.foldlM (DbMeta.call casing iter) .new

end Cashbox.Macro
