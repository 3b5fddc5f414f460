import ApiTypes.Text.Search

namespace ApiTypes.Command

inductive Stop where
  | help
  | version
  | misuse
  deriving DecidableEq, Repr

inductive Effect where
  | flag
  /-- A value that satisfies a test; it may be given several times if `repeats` is set. -/
  | value (repeats : Bool) (accepts : String → Bool)
  | stop (reason : Stop)

structure Spec where
  name : String
  letter : Option Char
  effect : Effect

abbrev Given := List (String × String)

def Given.values (g : Given) (name : String) : List String :=
  (g.filter (·.1 = name)).map Prod.snd

def Given.value? (g : Given) (name : String) : Option String :=
  (g.values name).head?

def Given.has (g : Given) (name : String) : Bool :=
  (g.value? name).isSome

def isDashed (word : String) : Bool :=
  Text.startsWith ['-'] word.toList && word ≠ "-"

def Spec.take (s : Spec) (g : Given) : Except Stop Given :=
  match s.effect with
  | .flag => if g.has s.name then .error .misuse else .ok (g ++ [(s.name, "")])
  | .value _ _ => .error .misuse
  | .stop reason => .error reason

def Spec.takeValue (s : Spec) (value : String) (g : Given) : Except Stop Given :=
  match s.effect with
  | .value repeats accepts =>
    if (g.has s.name ∧ ¬ repeats) ∨ ¬ accepts value then .error .misuse
    else .ok (g ++ [(s.name, value)])
  | _ => .error .misuse

/-- The options given so far, and the one that waits for its value. -/
structure Reading where
  given : Given
  waiting : Option Spec

def Spec.needsValue (s : Spec) : Bool :=
  match s.effect with
  | .value _ _ => true
  | _ => false

def readLong (specs : List Spec) (body : List Char) (g : Given) : Except Stop Reading := do
  let (name, value) := match Text.splitFirst? '=' body with
    | some (name, value) => (name, some (String.ofList value))
    | none => (body, none)
  match specs.find? (·.name = String.ofList name), value with
  | none, _ => .error .misuse
  | some s, some value => return ⟨← s.takeValue value g, none⟩
  | some s, none =>
    if s.needsValue then return ⟨g, some s⟩ else return ⟨← s.take g, none⟩

/-- Reads letters.  Behind an option with a value the rest of the word is the value, without an
equals sign at its start. -/
def readLetters (specs : List Spec) : List Char → Given → Except Stop Reading
  | [], g => .ok ⟨g, none⟩
  | c :: rest, g =>
    match specs.find? (·.letter = some c) with
    | none => .error .misuse
    | some s =>
      if s.needsValue then
        match rest with
        | [] => .ok ⟨g, some s⟩
        | '=' :: value => do return ⟨← s.takeValue (String.ofList value) g, none⟩
        | value => do return ⟨← s.takeValue (String.ofList value) g, none⟩
      else do readLetters specs rest (← s.take g)

def Reading.step (specs : List Spec) (r : Reading) (word : String) : Except Stop Reading :=
  match r.waiting with
  | some s =>
    if isDashed word then .error .misuse
    else do return ⟨← s.takeValue word r.given, none⟩
  | none =>
    match word.toList with
    | '-' :: '-' :: body => readLong specs body r.given
    | '-' :: c :: rest => readLetters specs (c :: rest) r.given
    | _ => .error .misuse

/-- Reads words from left to right; what the first word says counts before any fault in a later one.
Two dashes may end the words. -/
def readOptions (specs : List Spec) (words : List String) : Except Stop Given := do
  let words := if words.getLast? = some "--" then words.dropLast else words
  let r ← words.foldlM (Reading.step specs) ⟨[], none⟩
  if r.waiting.isSome then .error .misuse else return r.given

end ApiTypes.Command
