import ApiTypes.Compile.Schema

namespace ApiTypes.Compile

mutual

def depth : Json → Nat
  | .array items => itemsDepth items + 1
  | .object members => membersDepth members + 1
  | .null | .bool _ | .number _ | .string _ => 1

def itemsDepth : List Json → Nat
  | [] => 0
  | j :: items => max (depth j) (itemsDepth items)

def membersDepth : List (String × Json) → Nat
  | [] => 0
  | (_, j) :: members => max (depth j) (membersDepth members)

end

mutual

/-- The number of members of all objects in a document, those named `$ref` among them. -/
def size : Json → Nat
  | .array items => itemsSize items
  | .object members => membersSize members
  | .null | .bool _ | .number _ | .string _ => 0

def itemsSize : List Json → Nat
  | [] => 0
  | j :: items => size j + itemsSize items

def membersSize : List (String × Json) → Nat
  | [] => 0
  | (_, j) :: members => size j + membersSize members + 1

end

def Context.documents (c : Context) : List Json :=
  c.root :: c.options.resolvers.documents

/-- The depth that no nesting of schemas exceeds. -/
def Context.bound (c : Context) : Nat :=
  let members := itemsSize c.documents
  ((members + 1) * (members + 1) + 1) * (itemsDepth c.documents + 1)

end ApiTypes.Compile
