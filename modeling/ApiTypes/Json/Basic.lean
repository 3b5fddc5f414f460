import ApiTypes.Table

namespace ApiTypes

/-- A number is either whole, between `-2^63` and `2^64 - 1`, or real. -/
inductive Json.Number where
  | integer (n : Int)
  | real (x : Float)
  deriving BEq, Inhabited

inductive Json where
  | null
  | bool (b : Bool)
  | number (n : Json.Number)
  | string (s : String)
  | array (items : List Json)
  | object (members : List (String × Json))
  deriving BEq, Inhabited

namespace Json

def string? : Json → Option String
  | .string s => some s
  | _ => none

def array? : Json → Option (List Json)
  | .array items => some items
  | _ => none

def object? : Json → Option (List (String × Json))
  | .object members => some members
  | _ => none

def get? (key : String) : Json → Option Json
  | .object members => Table.get? key members
  | _ => none

def text? (key : String) (j : Json) : Option String :=
  (j.get? key).bind string?

end Json

end ApiTypes
