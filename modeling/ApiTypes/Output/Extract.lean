import ApiTypes.Compile.Text
import ApiTypes.Files.Access
import ApiTypes.Layout.Format
import ApiTypes.Output.Banner
import ApiTypes.Style.Source

namespace ApiTypes.Output

structure File where
  path : String
  target : Target

structure Settings where
  enabled : Bool
  ignoreHead : Bool
  outputs : List File
  options : Options

def Settings.default : Settings where
  enabled := false
  ignoreHead := false
  outputs := []
  options := .default

def renderOne (style : Option Style) (options : Options) (text : String) (o : File) :
    Except Error String :=
  Layout.format style (banner options o.target ++ text)

def renderAll (style : Option Style) (settings : Settings) (text : String) :
    Except Error (List (File × String)) :=
  settings.outputs.mapM fun o => return (o, ← renderOne style settings.options text o)

def render {m : Type → Type} [Monad m] (read : String → m (Option String)) (workDir : String)
    (rs : Route.Routes) (ds : List (String × Json)) (settings : Settings) :
    m (Except Error (Compile.Compiled × List (File × String))) := do
  match (Compile.routes workDir rs ds settings.ignoreHead settings.options .empty).1 with
  | .error e => return .error e
  | .ok compiled =>
    let style ← Style.resolve read workDir settings.options
    return (renderAll style settings compiled.text).map (compiled, ·)

structure Report where
  written : List String
  unchanged : List String
  deriving DecidableEq, Repr

def Report.empty : Report := ⟨[], []⟩

def Report.of (paths : List String) (outcomes : List (Option Files.Outcome)) : Report :=
  let results := paths.zip outcomes
  { written := (results.filter fun (_, o) => o = some .written).map Prod.fst
    unchanged := (results.filter fun (_, o) => o = some .unchanged).map Prod.fst }

structure Run where
  result : Except Error Report
  submitted : Option Json

section

variable {m : Type → Type} [Monad m] (access : Files.Access m)

/-- Generates all outputs, whose saves take turns.  `accept` sees the document before anything is
saved and can reject it. -/
def extractIn (schedule : Files.Schedule) (workDir : String) (rs : Route.Routes)
    (ds : List (String × Json)) (settings : Settings)
    (accept : Option (Json → Except String Unit)) : m Run := do
  if settings.enabled then
    match ← render access.read? workDir rs ds settings with
    | .error e => return ⟨.error e, none⟩
    | .ok (compiled, texts) =>
      let submitted := accept.map fun _ => compiled.schema
      match accept.elim (.ok ()) fun f => f compiled.schema with
      | .error reason => return ⟨.error (.rejected reason), submitted⟩
      | .ok _ =>
        let files := texts.map fun (o, text) => (o.path, text)
        let outcomes ← Files.saveAll access schedule workDir files
        return ⟨outcomes.map (Report.of (files.map Prod.fst)), submitted⟩
  else return ⟨.ok .empty, none⟩

/-- Generates all outputs, whose saves all take a step at a time. -/
def extract (workDir : String) (rs : Route.Routes) (ds : List (String × Json))
    (settings : Settings) (accept : Option (Json → Except String Unit)) : m Run :=
  extractIn access .lockstep workDir rs ds settings accept

end

end ApiTypes.Output
