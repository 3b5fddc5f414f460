import ApiTypes.Compile.Bound
import ApiTypes.Document.Build
import ApiTypes.TypeScript.Printer

namespace ApiTypes.Compile

open TypeScript

def root (c : Context) (name : String) : Action TypeExpr := do
  let name ← uniqueName name
  modify fun s => { s with refs := (targetKey "" "", name) :: s.refs }
  declare name (description? c.root) (bodyType c c.bound c.root)

def allDefinitions (c : Context) : Action Unit :=
  (Table.keys (c.definitions?.getD [])).forM fun id => do
    let _ ← reference c (bodyType c c.bound) ("#" ++ definitionPointer id)

def program (c : Context) (name : String) : Action Unit := do
  let _ ← root c name
  if c.options.unreachableDefinitions then allDefinitions c

def declarations (c : Context) (name : String) : Except Error (List Declaration) :=
  match (program c name).run State.empty with
  | (.ok _, s) => .ok (s.slots.filterMap id)
  | (.error e, _) => .error e

/-- The declarations as text, below the banner and an empty line if there is a banner. -/
def schemaText (workDir : String) (options : Options) (name : String) (schema : Json) :
    Except Error String := do
  let ds ← declarations (.of workDir options schema) name
  let body := declarationsText ds
  match options.bannerComment.getD "" with
  | "" => return String.ofList body
  | banner => return banner ++ "\n\n" ++ String.ofList body

def separate (text : List Char) : List Char :=
  let text := Text.replaceAll "\x7d\n/".toList "\x7d\n\n/".toList text
  let text := Text.replaceAll "\x7d\nexport ".toList "\x7d\n\nexport ".toList text
  Text.replaceAll "export type".toList "\nexport type".toList text

structure Compiled where
  text : String
  schema : Json

/-- Compiles routes; the registry counts the names of endpoints, also those of a failed
compilation. -/
def routes (workDir : String) (rs : Route.Routes) (ds : List (String × Json)) (ignoreHead : Bool)
    (options : Options) (registry : Naming.Registry) : Except Error Compiled × Naming.Registry :=
  let (schema, registry) := Document.build rs ds ignoreHead registry
  let text := schemaText workDir (options.forDefinitions workDir ds) Document.rootName schema
  (text.map fun t => ⟨String.ofList (separate t.toList), schema⟩, registry)

end ApiTypes.Compile
