import ApiTypes.Json.Draft
import ApiTypes.Route.Record

namespace ApiTypes.Route

structure RouteSet where
  routes : List Record
  schemas : List Json

def Schema.fieldNames : List String :=
  ["body", "querystring", "params", "headers", "response", "description"]

/-- The value of a field that stands at most once; null is as good as no value. -/
def Schema.field? (members : List (String × Json)) (name : String) : Option (Option Json) :=
  match members.filter fun (key, _) => key = name with
  | [] => some none
  | [(_, .null)] => some none
  | [(_, j)] => some (some j)
  | _ => none

def Schema.ofMembers? (members : List (String × Json)) : Option Schema := do
  let field := Schema.field? members
  let response ←
    match ← field "response" with
    | none => some none
    | some j => j.object?.map some
  return {
    body := ← field "body"
    querystring := ← field "querystring"
    params := ← field "params"
    headers := ← field "headers"
    response
    description := ← field "description"
    extra := Table.ofList (members.filter fun (key, _) => !Schema.fieldNames.contains key) }

/-- A schema is written as an object, and nothing in it may be marked. -/
def Schema.ofDraft? : Json.Draft → Option Schema
  | .object members => (Json.Draft.members? members).bind Schema.ofMembers?
  | _ => none

def Schema.toJson (s : Schema) : Json :=
  let field (name : String) : Option Json → List (String × Json)
    | none => []
    | some j => [(name, j)]
  .object (field "body" s.body ++ field "querystring" s.querystring ++ field "params" s.params ++
    field "headers" s.headers ++ field "response" (s.response.map .object) ++
    field "description" s.description ++ s.extra)

def MethodSpec.ofDraft? (d : Json.Draft) : Option MethodSpec :=
  match d with
  | .string name => some (.one name)
  | _ => (d.list? Json.Draft.string?).map .many

def MethodSpec.toJson : MethodSpec → Json
  | one name => .string name
  | many names => .array (names.map .string)

def Record.ofDraft? (d : Json.Draft) : Option Record := do
  match ← d.fields? .refused ["url", "method", "schema"] with
  | [url, method, schema] =>
    return {
      url := ← (← url).string?
      method := ← MethodSpec.ofDraft? (← method)
      schema := ← Json.Draft.field? none (Json.Draft.nullable? Schema.ofDraft?) schema }
  | _ => none

def Record.toJson (r : Record) : Json :=
  .object ([("url", .string r.url), ("method", r.method.toJson)] ++
    (r.schema.map fun s => ("schema", s.toJson)).toList)

def RouteSet.ofDraft? (d : Json.Draft) : Option RouteSet := do
  match ← d.fields? .refused ["routes", "schemas"] with
  | [routes, schemas] =>
    return {
      routes := ← Json.Draft.field? [] (Json.Draft.list? Record.ofDraft?) routes
      schemas := ← Json.Draft.field? [] (Json.Draft.list? Json.Draft.toJson?) schemas }
  | _ => none

def RouteSet.toJson (s : RouteSet) : Json :=
  .object [("routes", .array (s.routes.map Record.toJson)), ("schemas", .array s.schemas)]

inductive DefinitionError where
  | missingId (index : Nat)
  | duplicateId (id : String)
  deriving DecidableEq, Repr

def DefinitionError.message : DefinitionError → String
  | missingId index => "Schema at index " ++ toString index ++ " is missing a string `$id`"
  | duplicateId id => "Schema with `$id` '" ++ id ++ "' already present"

/-- Adds the schemas from `index` on to those registered before. -/
def collectFrom (index : Nat) (known : List (String × Json)) :
    List Json → Except DefinitionError (List (String × Json))
  | [] => .ok known
  | schema :: schemas =>
    match schema.text? "$id" with
    | none => .error (.missingId index)
    | some id =>
      if Table.contains id known then .error (.duplicateId id)
      else collectFrom (index + 1) (known ++ [(id, schema)]) schemas

def definitions (schemas : List Json) : Except DefinitionError (List (String × Json)) :=
  collectFrom 0 [] schemas

def RouteSet.parts (s : RouteSet) : Except DefinitionError (Routes × List (String × Json)) :=
  (definitions s.schemas).map fun ds => (group s.routes, ds)

end ApiTypes.Route
