import ApiTypes.Toml.Scalar
import ApiTypes.Toml.Text
import ApiTypes.Toml.Tree

namespace ApiTypes.Toml

/-- The key under which dates and times stand.  No field is named so. -/
def dateTimeKey : String := "$dateTime"

def Scalar.toDraft : Scalar → Json.Draft
  | .bool b => .bool b
  | .integer n => .number (.integer n)
  | .real x => .number (.real x)
  | .dateTime => .object [(some dateTimeKey, .string "")]

/-- Skips blanks, line ends and comments; a comment must have a line end. -/
def skipLines (inComment : Bool) : List Char → List Char
  | [] => []
  | c :: s =>
    if c == '\n' || (c == '\r' && s.head? == some '\n') then skipLines false s
    else if inComment then (if isText c then skipLines true s else c :: s)
    else if isBlank c then skipLines false s
    else if c == '#' then skipLines true s
    else c :: s

def items? (read : Read Json.Draft) : Nat → Read (List Json.Draft)
  | 0, _ => none
  | bound + 1, s =>
    match skipLines false s with
    | ']' :: s => some ([], s)
    | s => do
      let (d, s) ← read s
      match skipLines false s with
      | ']' :: s => return ([d], s)
      | ',' :: s =>
        let (ds, s) ← items? read bound s
        return (d :: ds, s)
      | _ => none

structure Pair where
  path : List String
  key : String
  value : Json.Draft

def pair? (read : Read Json.Draft) : Read Pair := fun s => do
  let ((path, key), s) ← key? s
  match s with
  | '=' :: s =>
    let (value, s) ← read (skipBlanks s)
    return (⟨path, key, value⟩, s)
  | _ => none

def pairs? (read : Read Json.Draft) : Nat → Read (List Pair)
  | 0, _ => none
  | bound + 1, s => do
    let (p, s) ← pair? read s
    match skipBlanks s with
    | '\x7d' :: s => return ([p], s)
    | ',' :: s =>
      let (ps, s) ← pairs? read bound s
      return (p :: ps, s)
    | _ => none

def inlineTable? (ps : List Pair) : Option Json.Draft :=
  (ps.foldlM (fun entries p => addValue? p.key p.value p.path entries) []).map fun entries =>
    .object (memberDrafts entries)

/-- A value in which at most `depth` arrays and inline tables are nested. -/
def valueWithin? (depth : Nat) : Read Json.Draft := fun s =>
  match s with
  | '"' :: _ | '\'' :: _ => (string? s).map fun (text, s) => (.string text, s)
  | '[' :: s =>
    match depth with
    | 0 => none
    | depth + 1 => (items? (valueWithin? depth) (s.length + 1) s).map fun (ds, s) => (.array ds, s)
  | '\x7b' :: s =>
    match depth with
    | 0 => none
    | depth + 1 =>
      match skipBlanks s with
      | '\x7d' :: s => some (.object [], s)
      | s => do
        let (ps, s) ← pairs? (valueWithin? depth) (s.length + 1) s
        return (← inlineTable? ps, s)
  | s => (scalar? s).map fun (x, s) => (x.toDraft, s)

def value? : Read Json.Draft := valueWithin? (nestingLimit - 1)

inductive Statement where
  | pair (p : Pair)
  | table (path : List String) (key : String)
  | tableItem (path : List String) (key : String)

def header? : Read Statement := fun s =>
  match s with
  | '[' :: s => do
    let ((path, key), s) ← key? s
    match s with
    | ']' :: ']' :: s => return (.tableItem path key, s)
    | _ => none
  | s => do
    let ((path, key), s) ← key? s
    match s with
    | ']' :: s => return (.table path key, s)
    | _ => none

def statement? : Read Statement := fun s => do
  let (statement, s) ← match s with
    | '[' :: s => header? s
    | s => (pair? value? s).map fun (p, s) => (.pair p, s)
  return (statement, ← lineRest? s)

def statements? : Nat → List Char → Option (List Statement)
  | 0, _ => none
  | bound + 1, s =>
    match skipBlanks s with
    | [] => some []
    | '#' :: _ | '\n' :: _ | '\r' :: _ => (lineRest? (skipBlanks s)).bind (statements? bound)
    | s => do
      let (statement, s) ← statement? s
      return statement :: (← statements? bound s)

/-- The tables read so far and the path of the table that keys belong to. -/
structure Tables where
  here : List String
  root : Entries

def Tables.step? (t : Tables) : Statement → Option Tables
  | .pair p =>
    (changeAt? (addValue? p.key p.value p.path) t.here t.root).map fun root => { t with root }
  | .table path key => (changeAt? (declare? key) path t.root).map (⟨path ++ [key], ·⟩)
  | .tableItem path key => (changeAt? (declareItem? key) path t.root).map (⟨path ++ [key], ·⟩)

/-- Reads a document; a byte order mark may stand at its start. -/
def document? (text : String) : Option Json.Draft := do
  let s := match text.toList with
    | '\uFEFF' :: s => s
    | s => s
  let statements ← statements? (s.length + 1) s
  let tables ← statements.foldlM Tables.step? ⟨[], []⟩
  return .object (memberDrafts tables.root)

end ApiTypes.Toml
