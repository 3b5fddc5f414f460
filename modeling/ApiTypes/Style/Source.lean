import ApiTypes.Files.Path
import ApiTypes.Json.Reader
import ApiTypes.Options
import ApiTypes.Yaml.Value

namespace ApiTypes.Style

open Yaml

def speaksFor (kind : String) (tag : Option String) (style : ScalarStyle) : Bool :=
  style = .plain || (style = .literal && tag = some kind)

/-- Flags and whole numbers stand in plain scalars; texts may be quoted, and need not be. -/
def yamlReading : Reading (Node Nat) where
  bool?
    | .scalar _ tag text style => if speaksFor boolTag tag style then Yaml.bool? text else none
    | _ => none
  size?
    | .scalar _ tag text style =>
      if speaksFor intTag tag style then (unsigned? text).filter (· < Word.unsigned64) else none
    | _ => none
  text?
    | .scalar _ _ text _ => some text
    | _ => none

def target? (d : Document) (n : Node Nat) : Option (Node Nat) :=
  match n with
  | .alias a => d.anchor? a
  | n => some n

def fieldName? (d : Document) (key : Node Nat) : Option String :=
  match target? d key with
  | some (.scalar _ _ text _) => some text
  | _ => none

/-- A style from a mapping in which no field stands twice; other keys are ignored.  An empty
document is a style as well. -/
def ofYamlText? (s : String) : Option Style := do
  match ← document? s with
  | none => return default
  | some d =>
    match d.root with
    | .mapping _ _ entries =>
      let named ← entries.mapM fun (key, v) => (fieldName? d key).map fun name => (name, v)
      let fields ← fieldNames.mapM fun name =>
        match named.filter (·.1 = name) with
        | [] => some none
        | [(_, v)] => (target? d v).map some
        | _ => none
      ofFields? yamlReading fields
    | .scalar _ _ "" .plain => return default
    | _ => none

def ofJsonText? (s : String) : Option Style :=
  (Json.Reader.draft? s).bind (ofDraft? .refused)

/-- The names of style files, in the order in which they are looked for. -/
def fileNames : List String :=
  [".prettierrc", ".prettierrc.json", ".prettierrc.yaml", ".prettierrc.yml"]

/-- The style in a file.  A file without an ending may hold JSON or YAML. -/
def ofFile? (name text : String) : Option Style :=
  match Path.extension? name with
  | some "json" => ofJsonText? text
  | some _ => ofYamlText? text
  | none => (ofJsonText? text).or (ofYamlText? text)

section

variable {m : Type → Type} [Monad m] (read : String → m (Option String))

/-- The style in the first file, at a directory or above it, that can be read and holds one. -/
def find? (dir : String) : m (Option Style) :=
  (Path.ancestors dir).findSomeM? fun above =>
    fileNames.findSomeM? fun name => return (← read (Path.join above name)).bind (ofFile? name)

/-- The style for options: none if they turn formatting off, or else their own, one from a file or
the default. -/
def resolve (workDir : String) (o : Options) : m (Option Style) := do
  if o.formats then
    match o.style with
    | some style => return some style
    | none => return some ((← find? read (o.directory workDir)).getD default)
  else return none

end

end ApiTypes.Style
