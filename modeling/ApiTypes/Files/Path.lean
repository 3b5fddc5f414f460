import ApiTypes.Text.Search

namespace ApiTypes.Path

inductive Component where
  | root
  | current
  | parent
  | name (s : String)
  deriving DecidableEq, Repr

/-- The parts between the slashes, empty ones included. -/
def segments (path : String) : List String :=
  (path.toList.splitOn '/').map String.ofList

def isAbsolute (path : String) : Bool :=
  Text.startsWith ['/'] path.toList

def Component.ofSegment? (segment : String) : Option Component :=
  if segment = "" ∨ segment = "." then none
  else if segment = ".." then some .parent
  else some (.name segment)

def components (path : String) : List Component :=
  let rest := (segments path).filterMap Component.ofSegment?
  if isAbsolute path then .root :: rest
  else if (segments path).head? = some "." then .current :: rest
  else rest

def same (a b : String) : Bool :=
  components a == components b

def Component.rank : Component → Nat
  | root => 0
  | current => 1
  | parent => 2
  | name _ => 3

def Component.before : Component → Component → Bool
  | name s, name t => s < t
  | a, b => a.rank < b.rank

def listBefore : List Component → List Component → Bool
  | _, [] => false
  | [], _ :: _ => true
  | a :: as, b :: bs => if a = b then listBefore as bs else a.before b

def before (a b : String) : Bool :=
  listBefore (components a) (components b)

/-- Puts `rest` below `dir`; an absolute path stays as it is. -/
def join (dir rest : String) : String :=
  if isAbsolute rest then rest
  else if dir = "" ∨ dir.toList.getLast? = some '/' then dir ++ rest
  else dir ++ "/" ++ rest

def dropSkipped : List String → List String
  | [] => []
  | s :: rest => if s = "" ∨ (s = "." ∧ rest ≠ []) then dropSkipped rest else s :: rest

/-- The path without its last component; the root and the empty path have no parent. -/
def parent? (path : String) : Option String :=
  match components path with
  | [] | [.root] => none
  | _ =>
    let above := (dropSkipped (dropSkipped (segments path).reverse).tail).reverse
    if isAbsolute path ∧ above.all (· = "") then some "/" else some ("/".intercalate above)

def ancestorsFrom : Nat → String → List String
  | 0, path => [path]
  | bound + 1, path =>
    path :: match parent? path with
      | some above => ancestorsFrom bound above
      | none => []

def ancestors (path : String) : List String :=
  ancestorsFrom (components path).length path

def names (path : String) : List String :=
  (segments path).filter fun s => (Component.ofSegment? s).isSome

/-- A path from the root, without empty parts and dots.  Two slashes at the start and one at the end
are kept.  The empty path has none. -/
def absolute? (workDir path : String) : Option String :=
  let chars := path.toList
  if chars.isEmpty then none
  else
    let base :=
      if ¬ isAbsolute path then workDir
      else if Text.startsWith ['/', '/'] chars ∧ ¬ Text.startsWith ['/', '/', '/'] chars then "//"
      else "/"
    let full := (names path).foldl join base
    some (if chars.getLast? = some '/' then join full "" else full)

/-- What stands after the last dot of the last name, unless that dot is its first character. -/
def extension? (path : String) : Option String :=
  match (components path).getLast? with
  | some (.name s) =>
    match Text.splitLast? '.' s.toList with
    | some (_ :: _, e) => some (String.ofList e)
    | _ => none
  | _ => none

end ApiTypes.Path
