import ApiTypes.Json.Pointer
import ApiTypes.Options
import ApiTypes.TypeScript.Basic
import ApiTypes.TypeScript.Identifier

namespace ApiTypes.Compile

open TypeScript

structure Context where
  root : Json
  options : Options
  /-- The directory of the options, without slashes at its end. -/
  cwd : String

def Context.of (workDir : String) (options : Options) (root : Json) : Context where
  root := root
  options := options
  cwd := String.ofList ((options.directory workDir).toList.reverse.dropWhile (· == '/')).reverse

structure State where
  names : List String
  /-- The name of the declaration for each address met, from before its target is compiled. -/
  refs : List (String × String)
  documents : List (String × Json)
  /-- A place for each declaration in the order of discovery, filled when it is complete. -/
  slots : List (Option Declaration)
  /-- The addresses of the documents being compiled other than the root, innermost first. -/
  bases : List String

def State.empty : State where
  names := []
  refs := []
  documents := []
  slots := []
  bases := []

/-- A failure does not undo what was done before it. -/
abbrev Action := ExceptT Error (StateM State)

def candidate (base : String) : Nat → String
  | 0 => base
  | k + 1 => base ++ toString (k + 1)

/-- The first candidate that is not in use; one more candidate than names always suffices. -/
def freshName (names : List String) (base : String) : String :=
  candidate base
    (((List.range (names.length + 1)).find? fun k => !names.contains (candidate base k)).getD 0)

def uniqueName (hint : String) : Action String := do
  let name := freshName (← get).names (safeName hint)
  modify fun s => { s with names := name :: s.names }
  return name

/-- Declares a type under a name.  The place of the declaration comes before those of the
declarations that its type needs. -/
def declare (name : String) (description : Option String) (type : Action TypeExpr) :
    Action TypeExpr := do
  let place := (← get).slots.length
  modify fun s => { s with slots := s.slots ++ [none] }
  let t ← type
  modify fun s => { s with slots := s.slots.set place (some ⟨name, description, t⟩) }
  return .named name

/-- Acts inside another document; afterwards, also after a failure, it is left again. -/
def inside {α : Type} (base : String) (action : Action α) : Action α :=
  ExceptT.mk fun s =>
    let (result, s) := action.run { s with bases := base :: s.bases }
    (result, { s with bases := s.bases.tail })

end ApiTypes.Compile
