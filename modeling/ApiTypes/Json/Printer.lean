import ApiTypes.Decimal.Layout
import ApiTypes.Json.Basic

namespace ApiTypes.Json

def hexDigit (n : Nat) : Char :=
  if n < 10 then Char.ofNat ('0'.toNat + n) else Char.ofNat ('a'.toNat + (n - 10))

def hex4 (n : Nat) : List Char :=
  [n / 4096 % 16, n / 256 % 16, n / 16 % 16, n % 16].map hexDigit

/-- A quote, a backslash and the characters below the space are escaped, all others stand as they
are. -/
def escapeChar (c : Char) : List Char :=
  match c with
  | '"' => ['\\', '"']
  | '\\' => ['\\', '\\']
  | '\x08' => ['\\', 'b']
  | '\x0c' => ['\\', 'f']
  | '\n' => ['\\', 'n']
  | '\r' => ['\\', 'r']
  | '\t' => ['\\', 't']
  | c => if c.toNat < 0x20 then '\\' :: 'u' :: hex4 c.toNat else [c]

def quote (s : String) : String :=
  String.ofList ('"' :: s.toList.flatMap escapeChar ++ ['"'])

/-- Documents hold no infinite number and no NaN; where one is printed all the same, it is null. -/
def Number.text : Number → String
  | .integer n => toString n
  | .real x => Decimal.marked "null" "null" "null" x

def boolText (b : Bool) : String :=
  if b then "true" else "false"

mutual

def compact : Json → String
  | .null => "null"
  | .bool b => boolText b
  | .number n => n.text
  | .string s => quote s
  | .array items => "[" ++ ",".intercalate (compactItems items) ++ "]"
  | .object members => "\x7b" ++ ",".intercalate (compactMembers members) ++ "\x7d"

def compactItems : List Json → List String
  | [] => []
  | j :: items => compact j :: compactItems items

def compactMembers : List (String × Json) → List String
  | [] => []
  | (key, j) :: members => (quote key ++ ":" ++ compact j) :: compactMembers members

end

def newline (level : Nat) : String :=
  String.ofList ('\n' :: List.replicate (2 * level) ' ')

/-- Entries on lines of their own, one level below `level`; nothing between the brackets if there
are no entries. -/
def block (opening closing : String) (level : Nat) (entries : List String) : String :=
  if entries.isEmpty then opening ++ closing
  else
    opening ++ newline (level + 1) ++ ("," ++ newline (level + 1)).intercalate entries ++
      newline level ++ closing

mutual

def prettyAt (level : Nat) : Json → String
  | .array items => block "[" "]" level (prettyItems (level + 1) items)
  | .object members => block "\x7b" "\x7d" level (prettyMembers (level + 1) members)
  | .null => "null"
  | .bool b => boolText b
  | .number n => n.text
  | .string s => quote s

def prettyItems (level : Nat) : List Json → List String
  | [] => []
  | j :: items => prettyAt level j :: prettyItems level items

def prettyMembers (level : Nat) : List (String × Json) → List String
  | [] => []
  | (key, j) :: members => (quote key ++ ": " ++ prettyAt level j) :: prettyMembers level members

end

def pretty (j : Json) : String :=
  prettyAt 0 j

end ApiTypes.Json
