import ApiTypes.Compile.Address

namespace ApiTypes.Compile

open TypeScript

def description? (schema : Json) : Option String :=
  schema.text? "description"

/-- The description of a property, unless its schema is titled or a reference and so is described
where it is declared. -/
def propertyDescription? (schema : Json) : Option String :=
  if (schema.get? "$ref").isSome ∨ (schema.get? "title").isSome then none
  else description? schema

/-- The type of a single value; it is a literal where there are literals of its kind. -/
def literalType : Json → TypeExpr
  | .null => .literal .null
  | .bool b => .literal (.bool b)
  | .number (.integer n) =>
    if n < Word.signed64 then .literal (.integer n) else .literal (.real (.ofInt n))
  | .number (.real x) => .literal (.real x)
  | .string s => .literal (.string s)
  | .array _ | .object _ => .keyword .unknown

section

variable (c : Context) (inner : Json → Action TypeExpr)

/-- The type that a reference leads to.  Its target is declared when it is first met. -/
def reference (ref : String) : Action TypeExpr := do
  let (document, pointer) := splitReference ref
  let s ← get
  let base := c.base s.bases document
  let key := targetKey base pointer
  let second := c.aliasKey? base pointer
  match (Table.get? key s.refs).or (second.bind fun k => Table.get? k s.refs) with
  | some name => return .named name
  | none =>
    let schema ← target c base pointer
    let name ← uniqueName (nameHint schema base pointer)
    modify fun s => { s with refs := (key, name) :: (second.map (·, name)).toList ++ s.refs }
    let declared := declare name (description? schema) (inner schema)
    if base = "" then declared
    else if c.options.declaresExternal then inside base declared
    else return .named name

def typeOf (schema : Json) : Action TypeExpr :=
  match schema.text? "$ref", schema.text? "title" with
  | some ref, _ => reference c inner ref
  | none, some title => do
    let name ← uniqueName title
    declare name (description? schema) (inner schema)
  | none, none => inner schema

/-- An array, or a tuple if there is a schema for each item. -/
def arrayType (members : List (String × Json)) : Action TypeExpr :=
  match Table.get? "items" members with
  | some (.array items) => do return .tuple (← items.mapM (typeOf c inner))
  | some schema => do return .array (← typeOf c inner schema)
  | none => return .array (.keyword .unknown)

def requiredNames (members : List (String × Json)) : List String :=
  (((Table.get? "required" members).bind Json.array?).getD []).filterMap Json.string?

def properties (members : List (String × Json)) : List (String × Json) :=
  ((Table.get? "properties" members).bind Json.object?).getD []

def additionalType (members : List (String × Json)) : Action (Option TypeExpr) :=
  match Table.get? "additionalProperties" members with
  | none => return if c.options.allowsAdditional then some (.keyword .unknown) else none
  | some (.bool allowed) => return if allowed then some (.keyword .unknown) else none
  | some schema => do return some (← typeOf c inner schema)

def objectType (members : List (String × Json)) : Action TypeExpr := do
  let required := requiredNames members
  let props ← (properties members).mapM fun (name, schema) => do
    let type ← typeOf c inner schema
    return (⟨name, type, !required.contains name, propertyDescription? schema⟩ : Member TypeExpr)
  let index ← additionalType c inner members
  return .object props (index.map fun t =>
    if c.options.strictIndexSignatures then .unionOf [t, .keyword .undefined] else t)

def namedType (members : List (String × Json)) (name : String) : Action TypeExpr :=
  match name with
  | "string" => return .keyword .string
  | "number" | "integer" => return .keyword .number
  | "boolean" => return .keyword .boolean
  | "null" => return .keyword .null
  | "array" => arrayType c inner members
  | "object" => objectType c inner members
  | _ => return .keyword .unknown

/-- The type of an object schema that has none of the keywords that come before `type`. -/
def structuralType (members : List (String × Json)) : Action TypeExpr :=
  match Table.get? "type" members with
  | some (.string name) => namedType c inner members name
  | some (.array names) => do
    return .unionOf (← (names.filterMap Json.string?).mapM (namedType c inner members))
  | _ =>
    if Table.contains "properties" members ∨ Table.contains "additionalProperties" members then
      objectType c inner members
    else if Table.contains "items" members then arrayType c inner members
    else return .keyword .unknown

/-- The first keyword that applies decides: `$ref`, `const`, `enum`, `oneOf` or else `anyOf`,
`allOf`, `type`. -/
def memberType (members : List (String × Json)) : Action TypeExpr :=
  match (Table.get? "$ref" members).bind Json.string?, Table.get? "const" members,
    (Table.get? "enum" members).bind Json.array?,
    ((Table.get? "oneOf" members).or (Table.get? "anyOf" members)).bind Json.array?,
    (Table.get? "allOf" members).bind Json.array? with
  | some ref, _, _, _, _ => reference c inner ref
  | none, some value, _, _, _ => return literalType value
  | none, none, some values, _, _ => return .unionOf (values.map literalType)
  | none, none, none, some schemas, _ => do return .unionOf (← schemas.mapM (typeOf c inner))
  | none, none, none, none, some schemas => do
    return .intersectionOf (← schemas.mapM (typeOf c inner))
  | none, none, none, none, none => structuralType c inner members

def schemaType (schema : Json) : Action TypeExpr :=
  match schema with
  | .object members => memberType c inner members
  | .bool false => return .keyword .never
  | _ => return .keyword .unknown

end

/-- The type of a schema with at most `bound` schemas and targets around each other. -/
def bodyType (c : Context) : Nat → Json → Action TypeExpr
  | 0, _ => throw .nesting
  | bound + 1, schema => schemaType c (bodyType c bound) schema

end ApiTypes.Compile
