import ApiTypes.Files.Access
import ApiTypes.Json.Reader
import ApiTypes.Route.Set
import ApiTypes.Yaml.Convert

namespace ApiTypes.Route

inductive SourceError where
  | malformed
  | unsupported (u : Yaml.Unsupported)

def SourceError.detail? : SourceError → Option String
  | malformed => none
  | unsupported u => some u.message

def RouteSet.ofJsonText (s : String) : Except SourceError RouteSet :=
  match (Json.Reader.draft? s).bind RouteSet.ofDraft? with
  | some set => .ok set
  | none => .error .malformed

/-- Reads a route set in YAML; numbers and flags may be keys. -/
def RouteSet.ofYamlText (s : String) : Except SourceError RouteSet :=
  match Yaml.value? s with
  | none => .error .malformed
  | some v =>
    match v.toJson with
    | .error u => .error (.unsupported u)
    | .ok j =>
      match RouteSet.ofDraft? (.ofJson j) with
      | some set => .ok set
      | none => .error .malformed

/-- Files with two endings hold YAML, all others JSON. -/
def isYamlPath (path : String) : Bool :=
  Path.extension? path == some "yaml" || Path.extension? path == some "yml"

def RouteSet.ofFile (path text : String) : Except SourceError RouteSet :=
  if isYamlPath path then RouteSet.ofYamlText text else RouteSet.ofJsonText text

inductive ReadError where
  | unreadable (path reason : String)
  | malformed (path : String) (cause : SourceError)

/-- The message; what is wrong with a text is told only if it is known. -/
def ReadError.message : ReadError → String
  | unreadable path reason => "Failed to read route file " ++ path ++ ": " ++ reason
  | malformed path cause =>
    "Failed to parse route file " ++ path ++ ((cause.detail?.map (": " ++ ·)).getD "")

def RouteSet.read {m : Type → Type} [Monad m] (access : Files.Access m) (path : String) :
    m (Except ReadError RouteSet) := do
  match ← access.read path with
  | .error reason => return .error (.unreadable path reason)
  | .ok text => return (RouteSet.ofFile path text).mapError (.malformed path)

end ApiTypes.Route
