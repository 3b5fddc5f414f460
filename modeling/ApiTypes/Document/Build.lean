import ApiTypes.Document.Node
import ApiTypes.Naming.Endpoint
import ApiTypes.Route.Record

namespace ApiTypes.Document

open Route

def ownTitle? (members : List (String × Json)) : Option String :=
  ((Table.get? "title" members).bind Json.string?).filter (· ≠ "")

/-- The schemas of the replies.  One in place is titled by its own title, or else by its status;
others are kept. -/
def responses (title : String) (statuses : List (String × Json)) : List Json :=
  statuses.map fun (status, j) =>
    match Fragment.ofJson j with
    | .inlined members =>
      let suffix := ((ownTitle? members).map Naming.normalizeTitle).getD status
      .object (Table.insert "title" (.string (title ++ "Status" ++ suffix)) members)
    | f => f.toJson

/-- The schema of the reply: one of the schemas of its statuses.  A member `title` that is a text
is no status; unless empty, it is the title of the reply. -/
def reply (title : String) (members : List (String × Json)) : Json :=
  let title := (ownTitle? members).getD title
  let statuses := members.filter fun (key, j) => !(key == "title" && j.string?.isSome)
  .object (Table.insert "oneOf" (.array (responses title statuses)) (objectNode (some title) none))

def request (title : String) (j : Json) : Json :=
  match j with
  | .object members =>
    if (ownTitle? members).isSome then j else .object (Table.insert "title" (.string title) members)
  | _ => j

def slot? (title : String) (s : Schema) (slot : Slot) : Option Json :=
  match slot with
  | .response => s.response.map (reply (title ++ slot.title))
  | _ => (s.fragment? slot).map (request (title ++ slot.title))

def slots? (title : String) (s : Schema) (slots : List Slot) : Option (List (String × Json)) :=
  match Table.ofList (slots.filterMap fun slot => (slot? title s slot).map (slot.title, ·)) with
  | [] => none
  | entries => some entries

def methodNode (title : String) (s : Schema) (m : Method) : Json :=
  let title := title ++ m.title
  let node := objectNode (some title) (slots? title s m.slots)
  .object (match s.description with
    | none => node
    | some d => Table.insert "description" d node)

/-- The methods that a record declares, without unknown names and, if so wanted, without HEAD. -/
def methodsOf (ignoreHead : Bool) (r : Record) : List Method :=
  r.method.names.filterMap fun name =>
    (Method.ofName? name).filter fun m => !(ignoreHead && m == .head)

/-- The methods of a route.  A method that is declared twice keeps its place and gets the node of
the later record. -/
def methods (title : String) (route : List Record) (ignoreHead : Bool) : List (String × Json) :=
  Table.ofList (route.flatMap fun r =>
    (methodsOf ignoreHead r).map fun m => (m.upper, methodNode title (r.schema.getD .empty) m))

def routeNodes (ignoreHead : Bool) :
    Naming.Registry → Routes → List (String × Json) × Naming.Registry
  | registry, [] => ([], registry)
  | registry, (path, route) :: rest =>
    let (title, registry) := registry.endpointName path
    let node := objectNode none (some (methods title route ignoreHead))
    let (nodes, registry) := routeNodes ignoreHead registry rest
    ((path, .object node) :: nodes, registry)

/-- The nodes of routes by path; of two routes with one path the later one counts. -/
def paths (ignoreHead : Bool) (registry : Naming.Registry) (routes : Routes) :
    List (String × Json) × Naming.Registry :=
  let (nodes, registry) := routeNodes ignoreHead registry routes
  (Table.ofList nodes, registry)

def rootName : String := "API"

def build (routes : Routes) (definitions : List (String × Json)) (ignoreHead : Bool)
    (registry : Naming.Registry) : Json × Naming.Registry :=
  let (properties, registry) := paths ignoreHead registry routes
  (.object (Table.insert "definitions" (.object definitions)
    (objectNode (some rootName) (some properties))), registry)

end ApiTypes.Document
