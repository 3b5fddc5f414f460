import ApiTypes.Json.Basic
import ApiTypes.Text.Search
import ApiTypes.Decimal.Reading
import ApiTypes.Word

namespace ApiTypes.Json.Pointer

def escape (key : String) : String :=
  String.ofList (Text.replaceAll ['/'] ['~', '1'] (Text.replaceAll ['~'] ['~', '0'] key.toList))

def unescape (token : List Char) : String :=
  String.ofList (Text.replaceAll ['~', '0'] ['~'] (Text.replaceAll ['~', '1'] ['/'] token))

/-- An index has no sign and no needless zero in front, and fits in 64 bits. -/
def index? (token : String) : Option Nat :=
  let ds := token.toList
  let n := Decimal.natOfDigits ds
  if ds.isEmpty ∨ ¬ ds.all Decimal.isDigit ∨ (ds.head? = some '0' ∧ ds.length ≠ 1) ∨
      n ≥ Word.unsigned64 then
    none
  else some n

def step? (j : Json) (token : String) : Option Json :=
  match j with
  | .object members => Table.get? token members
  | .array items => (index? token).bind fun i => items[i]?
  | _ => none

/-- The keys and indices of a pointer; `none` unless it is empty or starts with a slash. -/
def tokens? (pointer : String) : Option (List String) :=
  match pointer.toList with
  | [] => some []
  | '/' :: rest => some ((rest.splitOn '/').map unescape)
  | _ => none

def resolve? (pointer : String) (j : Json) : Option Json :=
  (tokens? pointer).bind fun tokens => tokens.foldlM step? j

end ApiTypes.Json.Pointer
