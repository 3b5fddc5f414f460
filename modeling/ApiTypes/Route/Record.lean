import ApiTypes.Json.Basic
import ApiTypes.Route.Method

namespace ApiTypes.Route

/-- The schemas of a record.  Keys without a meaning here are kept. -/
structure Schema where
  body : Option Json
  querystring : Option Json
  params : Option Json
  headers : Option Json
  response : Option (List (String × Json))
  description : Option Json
  extra : List (String × Json)

def Schema.empty : Schema where
  body := none
  querystring := none
  params := none
  headers := none
  response := none
  description := none
  extra := []

/-- The schema in a slot of the request; replies are not one schema. -/
def Schema.fragment? (s : Schema) : Slot → Option Json
  | .body => s.body
  | .querystring => s.querystring
  | .params => s.params
  | .headers => s.headers
  | .response => none

inductive MethodSpec where
  | one (name : String)
  | many (names : List String)

def MethodSpec.names : MethodSpec → List String
  | one name => [name]
  | many names => names

def MethodSpec.ofMethod (m : Method) : MethodSpec :=
  .one m.upper

structure Record where
  url : String
  method : MethodSpec
  schema : Option Schema

abbrev Routes := List (String × List Record)

def addRecord (r : Record) : Routes → Routes
  | [] => [(r.url, [r])]
  | (path, records) :: rest =>
    if path = r.url then (path, records ++ [r]) :: rest
    else if r.url < path then (r.url, [r]) :: (path, records) :: rest
    else (path, records) :: addRecord r rest

/-- Sorts records by path; those of one path keep their order. -/
def group (records : List Record) : Routes :=
  records.foldl (fun routes r => addRecord r routes) []

end ApiTypes.Route
