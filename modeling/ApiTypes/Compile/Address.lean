import ApiTypes.Compile.State

namespace ApiTypes.Compile

/-- The document and the pointer of a reference; without `#` the pointer is empty. -/
def splitReference (reference : String) : String × String :=
  match Text.splitFirst? '#' reference.toList with
  | some (document, pointer) => (String.ofList document, String.ofList pointer)
  | none => (reference, "")

theorem splitReference_pointer (pointer : String) :
    splitReference ("#" ++ pointer) = ("", pointer) := by
  have hsplit : Text.splitFirst? '#' ("#" ++ pointer).toList = some ([], pointer.toList) := by
    simp [Text.splitFirst?]
  rw [splitReference, hsplit]
  simp

/-- The address of a document by its id.  Web addresses stand for themselves, all other ids are
inside the directory. -/
def Context.url (c : Context) (id : String) : String :=
  if Resolver.isWebAddress id then id
  else if Text.startsWith ['/'] id.toList then c.cwd ++ id
  else c.cwd ++ "/" ++ id

/-- The address that a reference is about: that of the document it names, or else of the innermost
document being compiled, which is empty for the root. -/
def Context.base (c : Context) (bases : List String) (document : String) : String :=
  if document = "" then bases.headD "" else c.url document

def Context.definitions? (c : Context) : Option (List (String × Json)) :=
  (c.root.get? "definitions").bind Json.object?

/-- The key of a target, where the empty base is the document being compiled. -/
def targetKey (base pointer : String) : String :=
  base ++ "#" ++ pointer

def definitionPointer (id : String) : String :=
  "/definitions/" ++ Json.Pointer.escape id

def Context.definitionId? (c : Context) (pointer : String) : Option String := do
  let ds ← c.definitions?
  let token ← Text.after? "/definitions/".toList pointer.toList
  let id := Json.Pointer.unescape token
  if token.contains '/' ∨ ¬ Table.contains id ds then none else some id

/-- The second key of a definition, which can be reached as a part of the document being compiled
and as a document of its own. -/
def Context.aliasKey? (c : Context) (base pointer : String) : Option String :=
  if base = "" then
    (c.definitionId? pointer).map fun id => targetKey (c.url id) ""
  else if pointer = "" then do
    let ds ← c.definitions?
    let id ← (Table.keys ds).find? fun id => c.url id = base
    return targetKey "" (definitionPointer id)
  else none

def lastSegment? (path : String) : Option String :=
  ((path.toList.splitOn '/').reverse.find? fun s => !s.isEmpty).map String.ofList

/-- What the declaration of a target is named after: its title, or else the end of its address. -/
def nameHint (target : Json) (base pointer : String) : String :=
  (((target.text? "title").or (lastSegment? pointer)).or (lastSegment? base)).getD "Ref"

/-- The document behind a base; each is read once. -/
def document (c : Context) (base : String) : Action Json := do
  if base = "" then return c.root
  match Table.get? base (← get).documents with
  | some j => return j
  | none =>
    let j ← c.options.resolvers.resolve base
    modify fun s => { s with documents := s.documents ++ [(base, j)] }
    return j

def target (c : Context) (base pointer : String) : Action Json := do
  match Json.Pointer.resolve? pointer (← document c base) with
  | some j => return j
  | none => throw (.invalidPointer pointer (if base = "" then "#" else base))

end ApiTypes.Compile
