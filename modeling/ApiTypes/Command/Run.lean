import ApiTypes.Command.Line
import ApiTypes.Config
import ApiTypes.Diff.Report
import ApiTypes.Json.Printer
import ApiTypes.Output.Extract
import ApiTypes.Route.Source

namespace ApiTypes.Command

inductive Failure where
  | config (e : Config.ReadError)
  | surplusTargets (targets outputs : Nat)
  | noOutputs
  | input (e : Route.ReadError)
  | definitions (e : Route.DefinitionError)
  | generation (e : Error)
  | outdated (count : Nat)

def Failure.message : Failure → String
  | config e => e.message
  | surplusTargets targets outputs =>
    toString targets ++ " --target values given for " ++ toString outputs ++ " --output paths"
  | noOutputs =>
    "No outputs configured: pass --output or add an [outputs] table to routetypes.toml"
  | input e => e.message
  | definitions e => e.message
  | generation e => e.message
  | outdated count => toString count ++ " generated file(s) out of date"

structure Result where
  printed : String
  failure : Option Failure

/-- The exit code; texts that cannot be formatted have one of their own. -/
def Result.code (r : Result) : Nat :=
  match r.failure with
  | none => 0
  | some (.generation .layout) => 101
  | some _ => 1

def Result.ok (printed : String) : Result := ⟨printed, none⟩

def Result.failed (f : Failure) : Result := ⟨"", some f⟩

def override (o : GenerateOptions) (s : Output.Settings) : Except Failure Output.Settings :=
  if o.targets.length > o.outputs.length then
    .error (.surplusTargets o.targets.length o.outputs.length)
  else
    let outputs := o.outputs.mapIdx fun i path => ⟨path, o.targets[i]?.getD .clientTypes⟩
    .ok { s with
      ignoreHead := s.ignoreHead || o.ignoreHead
      outputs := if outputs.isEmpty then s.outputs else outputs }

def documentText (j : Json) : String :=
  j.pretty ++ "\n"

def reportText (r : Output.Report) : String :=
  String.join (r.written.map fun path => "✅ " ++ path ++ "\n") ++
    String.join (r.unchanged.map fun path => "   " ++ path ++ " (unchanged)\n")

def addOutcome (path : String) (r : Output.Report) : Files.Outcome → Output.Report
  | .written => { r with written := r.written ++ [path] }
  | .unchanged => { r with unchanged := r.unchanged ++ [path] }

section

variable {m : Type → Type} [Monad m] (access : Files.Access m) (schedule : Files.Schedule)
variable (workDir : String)

def readInput (path : String) :
    m (Except Failure (Route.Routes × List (String × Json))) := do
  match ← Route.RouteSet.read access path with
  | .error e => return .error (.input e)
  | .ok set => return set.parts.mapError .definitions

/-- Writes all outputs, and then the document if a file for it is named. -/
def write (rs : Route.Routes) (ds : List (String × Json)) (s : Output.Settings)
    (schemaOut : Option String) : m Result := do
  let accept := schemaOut.map fun _ (_ : Json) => (Except.ok () : Except String Unit)
  let run ← Output.extractIn access schedule workDir rs ds s accept
  match run.result, schemaOut, run.submitted with
  | .error e, _, _ => return .failed (.generation e)
  | .ok report, some path, some document =>
    match ← Files.save access workDir path (documentText document) with
    | .error e => return .failed (.generation e)
    | .ok outcome => return .ok (reportText (addOutcome path report outcome))
  | .ok report, _, _ => return .ok (reportText report)

/-- What has to be changed in a file to make it a text; a file that cannot be read is as good as an
empty one. -/
def changes (path text : String) : m (Option String) := do
  return Diff.report? path ((← access.read? path).getD "") text

def check (rs : Route.Routes) (ds : List (String × Json)) (s : Output.Settings)
    (schemaOut : Option String) : m Result := do
  match ← Output.render access.read? workDir rs ds s with
  | .error e => return .failed (.generation e)
  | .ok (compiled, texts) =>
    let expected := (texts.map fun (o, text) => (o.path, text)) ++
      (schemaOut.map fun path => (path, documentText compiled.schema)).toList
    let reports ← expected.mapM fun (path, text) => changes access path text
    match reports.filterMap id with
    | [] => return .ok "All generated files are up to date\n"
    | outdated => return ⟨String.join outdated, some (.outdated outdated.length)⟩

def generate (o : GenerateOptions) : m Result := do
  match ← Config.discover access workDir o.config with
  | .error e => return .failed (.config e)
  | .ok config =>
    match override o config.settings with
    | .error f => return .failed f
    | .ok s =>
      if ¬ s.enabled then return .ok "Generation is disabled in the config file\n"
      else if s.outputs.isEmpty ∧ o.schemaOut.isNone then return .failed .noOutputs
      else
        match ← readInput access o.input with
        | .error f => return .failed f
        | .ok (rs, ds) =>
          if o.check then check access workDir rs ds s o.schemaOut
          else write access schedule workDir rs ds s o.schemaOut

def schema (o : SchemaOptions) : m Result := do
  match ← readInput access o.input with
  | .error f => return .failed f
  | .ok (rs, ds) =>
    return .ok (documentText (Document.build rs ds o.ignoreHead .empty).1)

def Request.run : Request → m Result
  | .generate o => Command.generate access .lockstep workDir o
  | .schema o => Command.schema access o

end

end ApiTypes.Command
