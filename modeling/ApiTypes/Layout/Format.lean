import ApiTypes.Layout.Imports
import ApiTypes.Layout.Quotes

namespace ApiTypes.Layout

/-- A text with more characters than this cannot be made. -/
def largestText : Nat := Word.signed64 - 1

def indentation (style : Style) (levels : Nat) : Except Error (List Char) :=
  if style.useTabs then .ok (List.replicate levels '\t')
  else if style.tabWidth > largestText ∨ style.tabWidth * levels > largestText then .error .layout
  else .ok (List.replicate (style.tabWidth * levels) ' ')

/-- Every two blanks at the start of a line are a level of indentation. -/
def reindent (style : Style) (line : List Char) : Except Error (List Char) := do
  let blanks := (line.takeWhile (· == ' ')).length
  return (← indentation style (blanks / 2)) ++ List.replicate (blanks % 2) ' ' ++
    line.dropWhile (· == ' ')

def dropSemicolon (line : List Char) : List Char :=
  if line.getLast? = some ';' then line.dropLast else line

def codeLine (style : Style) (line : List Char) : List Char :=
  let line := requote (if style.singleQuote then '\'' else '"') line
  if style.semi then line else dropSemicolon line

def opensComment (line : List Char) : Bool :=
  Text.startsWith ['/', '*'] (Text.trimStart line)

def isLineComment (line : List Char) : Bool :=
  Text.startsWith ['/', '/'] (Text.trimStart line)

def closesComment (line : List Char) : Bool :=
  Text.contains ['*', '/'] line

def commentAfter (inComment : Bool) (line : List Char) : Bool :=
  if closesComment line then false else inComment || opensComment line

/-- Where a text has come to: inside a comment, behind a line, and behind blank lines. -/
structure Position where
  inComment : Bool
  started : Bool
  blank : Bool

def Position.start : Position := ⟨false, false, false⟩

def styledLines (style : Style) (p : Position) : List (List Char) → Except Error (List (List Char))
  | [] => .ok []
  | line :: rest => do
    let line := Text.trimEnd line
    if line.isEmpty then styledLines style { p with blank := true } rest
    else
      let comment := p.inComment || opensComment line || isLineComment line
      let indented ← reindent style line
      let styled := if comment then indented else codeLine style indented
      let after ← styledLines style ⟨commentAfter p.inComment line, true, false⟩ rest
      return (if p.blank && p.started then [[]] else []) ++ styled :: after

def formatChars (style : Style) (text : List Char) : Except Error (List Char) := do
  return Text.unlines (← styledLines style .start (← importLines style none (Text.lines text)))

/-- Formats a text; without a style it stays as it is. -/
def format (style : Option Style) (text : String) : Except Error String :=
  match style with
  | some style => (formatChars style text.toList).map String.ofList
  | none => .ok text

end ApiTypes.Layout
