import ApiTypes.Files.Path
import ApiTypes.Output.Extract
import ApiTypes.Toml.Document

namespace ApiTypes

structure Config where
  /-- Generation can be turned off; unless this is said it is on. -/
  enabled : Option Bool
  ignoreHead : Bool
  /-- In the order of their paths, where a path stands once. -/
  outputs : List Output.File
  options : Options

namespace Config

def default : Config where
  enabled := none
  ignoreHead := false
  outputs := []
  options := .default

def isEmptyDraft : Json.Draft → Bool
  | .object [] | .array [] => true
  | _ => false

def target? (d : Json.Draft) : Option Output.Target := do
  match ← d.fields? .ignored ["target"] with
  | [target] => Json.Draft.field? .clientTypes (Output.Target.ofDraft? isEmptyDraft) target
  | _ => none

/-- Puts an output at its place in the order of paths.  One with the same path only changes its
target. -/
def insertOutput (o : Output.File) : List Output.File → List Output.File
  | [] => [o]
  | p :: ps =>
    if Path.same o.path p.path then { p with target := o.target } :: ps
    else if Path.before o.path p.path then o :: p :: ps
    else p :: insertOutput o ps

def outputs? : Json.Draft → Option (List Output.File)
  | .object members => do
    let os ← members.mapM fun (path, d) => do return ⟨← path, ← target? d⟩
    return os.foldl (fun ps o => insertOutput o ps) []
  | _ => none

def ofDraft? (d : Json.Draft) : Option Config := do
  match ← d.fields? .ignored ["enabled", "ignoreHead", "outputs", "compilerOptions"] with
  | [enabled, ignoreHead, outputs, options] =>
    return {
      enabled := ← Json.Draft.field? none (Json.Draft.nullable? Json.Draft.bool?) enabled
      ignoreHead := ← Json.Draft.field? false Json.Draft.bool? ignoreHead
      outputs := ← Json.Draft.field? [] outputs? outputs
      options := ← Json.Draft.field? .default (Options.ofDraft? .ignored) options }
  | _ => none

def ofText? (text : String) : Option Config :=
  (Toml.document? text).bind ofDraft?

def settings (c : Config) : Output.Settings where
  enabled := c.enabled.getD true
  ignoreHead := c.ignoreHead
  outputs := c.outputs
  options := c.options

def fileName : String := "routetypes.toml"

inductive ReadError where
  | unreadable (path reason : String)
  | malformed (path : String)

def ReadError.message : ReadError → String
  | unreadable path reason => "Failed to read config file " ++ path ++ ": " ++ reason
  | malformed path => "Failed to parse config file " ++ path

section

variable {m : Type → Type} [Monad m] (access : Files.Access m)

def read (path : String) : m (Except ReadError Config) := do
  match ← access.read path with
  | .error reason => return .error (.unreadable path reason)
  | .ok text => return (ofText? text).elim (.error (.malformed path)) .ok

def discover (workDir : String) : Option String → m (Except ReadError Config)
  | some path => read access path
  | none => do
    let path := Path.join workDir fileName
    if ← access.isFile path then read access path else return .ok default

end

end Config

end ApiTypes
