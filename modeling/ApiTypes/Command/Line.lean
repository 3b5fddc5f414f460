import ApiTypes.Command.Option
import ApiTypes.Output.Banner

namespace ApiTypes.Command

structure GenerateOptions where
  input : String
  config : Option String
  ignoreHead : Bool
  /-- Outputs that take the place of those of the configuration. -/
  outputs : List String
  /-- Targets of the outputs at the same positions. -/
  targets : List Output.Target
  schemaOut : Option String
  /-- Nothing is written; what would change is shown, and is a failure. -/
  check : Bool

structure SchemaOptions where
  input : String
  ignoreHead : Bool

inductive Request where
  | generate (o : GenerateOptions)
  | schema (o : SchemaOptions)

def isPath (value : String) : Bool :=
  value ≠ ""

def isTarget (value : String) : Bool :=
  (Output.Target.ofName? value).isSome

def helpSpec : Spec := ⟨"help", some 'h', .stop .help⟩

def schemaSpecs : List Spec :=
  [⟨"input", some 'i', .value false isPath⟩, ⟨"ignore-head", none, .flag⟩, helpSpec]

def generateSpecs : List Spec :=
  [⟨"config", none, .value false isPath⟩, ⟨"output", some 'o', .value true isPath⟩,
    ⟨"target", none, .value true isTarget⟩, ⟨"schema-out", none, .value false isPath⟩,
    ⟨"check", none, .flag⟩] ++ schemaSpecs

def programSpecs : List Spec :=
  [helpSpec, ⟨"version", some 'V', .stop .version⟩]

def versionText : String := "routetypes 0.1.0\n"

def required (g : Given) (name : String) : Except Stop String :=
  (g.value? name).elim (.error .misuse) .ok

def SchemaOptions.ofWords (words : List String) : Except Stop SchemaOptions := do
  let g ← readOptions schemaSpecs words
  return { input := ← required g "input", ignoreHead := g.has "ignore-head" }

def GenerateOptions.ofWords (words : List String) : Except Stop GenerateOptions := do
  let g ← readOptions generateSpecs words
  return {
    input := ← required g "input"
    config := g.value? "config"
    ignoreHead := g.has "ignore-head"
    outputs := g.values "output"
    targets := (g.values "target").filterMap Output.Target.ofName?
    schemaOut := g.value? "schema-out"
    check := g.has "check" }

def commandNames : List String := ["generate", "schema", "help"]

/-- Reads a command line.  Without a command, and for `help`, there is only help. -/
def Request.ofWords : List String → Except Stop Request
  | [] => .error .help
  | "generate" :: words => (GenerateOptions.ofWords words).map .generate
  | "schema" :: words => (SchemaOptions.ofWords words).map .schema
  | ["help"] => .error .help
  | ["help", name] => .error (if commandNames.contains name then .help else .misuse)
  | word :: words => do
    let _ ← readOptions programSpecs [word]
    .error (if words.isEmpty then .help else .misuse)

end ApiTypes.Command
