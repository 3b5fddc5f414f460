import ApiTypes.Json.Printer
import ApiTypes.Text.Blank
import ApiTypes.TypeScript.Identifier

namespace ApiTypes.TypeScript

def escapeChar (c : Char) : List Char :=
  match c with
  | '\\' => ['\\', '\\']
  | '"' => ['\\', '"']
  | '\n' => ['\\', 'n']
  | '\r' => ['\\', 'r']
  | '\t' => ['\\', 't']
  | c =>
    if Text.isControl c || Text.isLineSeparator c then '\\' :: 'u' :: Json.hex4 c.toNat else [c]

def escape (s : List Char) : List Char :=
  s.flatMap escapeChar

def quoted (s : List Char) : List Char :=
  '"' :: escape s ++ ['"']

/-- A property key stands as it is if it is an identifier. -/
def keyText (name : List Char) : List Char :=
  if isIdentifier name then name else quoted name

end ApiTypes.TypeScript
