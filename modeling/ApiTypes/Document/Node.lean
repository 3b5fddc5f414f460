import ApiTypes.Json.Basic

namespace ApiTypes.Document

/-- An object schema that allows no members but the given ones and requires all of them.  Without
`properties` it says nothing about single members. -/
def objectNode (title : Option String) (properties : Option (List (String × Json))) :
    List (String × Json) :=
  (title.map fun t => ("title", .string t)).toList ++
  ("type", .string "object") ::
  (match properties with
    | none => []
    | some ps =>
      [("required", .array ((Table.keys ps).map .string)), ("properties", .object ps)]) ++
  [("additionalProperties", .bool false)]

inductive Fragment where
  | reference (members : List (String × Json))
  | inlined (members : List (String × Json))
  | other (j : Json)

namespace Fragment

def ofJson : Json → Fragment
  | .object members =>
    if Table.contains "$ref" members then .reference members else .inlined members
  | j => .other j

def title? : Fragment → Option String
  | reference members | inlined members => (Table.get? "title" members).bind Json.string?
  | other _ => none

def toJson : Fragment → Json
  | reference members | inlined members => .object members
  | other j => j

theorem toJson_ofJson (j : Json) : (ofJson j).toJson = j := by
  cases j <;> simp only [ofJson] <;> try rfl
  split <;> rfl

end Fragment

end ApiTypes.Document
