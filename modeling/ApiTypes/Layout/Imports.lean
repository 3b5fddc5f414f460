import ApiTypes.Error
import ApiTypes.Style.Basic
import ApiTypes.Text.Blank
import ApiTypes.Text.Lines
import ApiTypes.Text.Search

namespace ApiTypes.Layout

/-- The parts of an import statement, `head{items}tail`. -/
structure Import where
  head : List Char
  items : List (List Char)
  tail : List Char

/-- Splits a statement at its first opening and its last closing brace.  A statement whose last
closing brace comes before its first opening brace has no list. -/
def Import.ofStatement? (s : List Char) : Option Import := do
  let (head, rest) ← Text.splitFirst? '{' s
  let (inner, tail) ← Text.splitLast? '}' rest
  let items := ((inner.splitOn ',').map Text.trim).filter (!·.isEmpty)
  return { head, items, tail }

def Import.joined (i : Import) : List Char :=
  [',', ' '].intercalate i.items

def Import.singleLine (style : Style) (i : Import) : List Char :=
  if style.bracketSpacing then i.head ++ ['{', ' '] ++ i.joined ++ [' ', '}'] ++ i.tail
  else i.head ++ '{' :: i.joined ++ '}' :: i.tail

/-- The lines of the items; the last one is followed by a comma only if the style says so. -/
def itemLines (style : Style) : List (List Char) → List (List Char)
  | [] => []
  | [item] => [[' ', ' '] ++ item ++ (if style.trailingComma = "none" then [] else [','])]
  | item :: items => ([' ', ' '] ++ item ++ [',']) :: itemLines style items

def byteLength : List Char → Nat
  | [] => 0
  | c :: s => c.utf8Size + byteLength s

def Import.lines (style : Style) (i : Import) : List (List Char) :=
  let single := i.singleLine style
  if byteLength single ≤ style.printWidth then [single]
  else (i.head ++ ['{']) :: itemLines style i.items ++ ['}' :: i.tail]

def statementLines (style : Style) (s : List Char) : Except Error (List (List Char)) :=
  match Import.ofStatement? s with
  | some i => .ok (i.lines style)
  | none => .error .layout

def opensImport (line : List Char) : Bool :=
  Text.startsWith "import".toList line && line.contains '{'

/-- Lays out the import statements among lines.  `pending` is the beginning of a statement that is
not complete; it stays on one line if the text ends before it is. -/
def importLines (style : Style) (pending : Option (List Char)) :
    List (List Char) → Except Error (List (List Char))
  | [] => .ok pending.toList
  | line :: rest =>
    match pending with
    | some s =>
      let s := s ++ ' ' :: Text.trim line
      if line.contains '}' then
        return (← statementLines style s) ++ (← importLines style none rest)
      else importLines style (some s) rest
    | none =>
      if opensImport line then
        if line.contains '}' then
          return (← statementLines style line) ++ (← importLines style none rest)
        else importLines style (some (Text.trimEnd line)) rest
      else return line :: (← importLines style none rest)

end ApiTypes.Layout
