import ApiTypes.Files.Access

namespace ApiTypes.Files

inductive Entry where
  | file (text : String)
  | directory
  deriving DecidableEq, Repr

/-- Entries by the names that lead to them from the root; the root itself is always there. -/
structure Disk where
  workDir : List String
  entries : List (List String × Entry)

inductive Fault where
  | notFound
  | occupied
  | notDirectory
  | isDirectory
  | nameTooLong
  | nulByte
  deriving DecidableEq, Repr

def Fault.reason : Fault → String
  | notFound => "No such file or directory (os error 2)"
  | occupied => "File exists (os error 17)"
  | notDirectory => "Not a directory (os error 20)"
  | isDirectory => "Is a directory (os error 21)"
  | nameTooLong => "File name too long (os error 36)"
  | nulByte => "file name contained an unexpected NUL byte"

namespace Disk

def get? (d : Disk) (place : List String) : Option Entry :=
  if place.isEmpty then some .directory else d.entries.lookup place

/-- Puts an entry at a place, in the position of one that is there already. -/
def put (place : List String) (e : Entry) (d : Disk) : Disk :=
  if d.entries.any (·.1 == place) then
    { d with entries := d.entries.map fun (p, old) => (p, if p == place then e else old) }
  else { d with entries := d.entries ++ [(place, e)] }

def remove (place : List String) (d : Disk) : Disk :=
  { d with entries := d.entries.filter fun (p, _) => !place.isPrefixOf p }

def walk (d : Disk) (place : List String) : List String → Except Fault (List String)
  | [] => .ok place
  | name :: rest =>
    match d.get? place with
    | none => .error .notFound
    | some (.file _) => .error .notDirectory
    | some .directory =>
      if name = "." then walk d place rest
      else if name = ".." then walk d place.dropLast rest
      else if name.utf8ByteSize > 255 then .error .nameTooLong
      else walk d (place ++ [name]) rest

/-- The place of a path; there need not be anything. -/
def place (d : Disk) (path : String) : Except Fault (List String) :=
  if path.toList.contains '\x00' then .error .nulByte
  else if path = "" then .error .notFound
  else if path.utf8ByteSize ≥ 4096 then .error .nameTooLong
  else
    walk d (if Path.isAbsolute path then [] else d.workDir)
      ((Path.segments path).filter (· ≠ ""))

/-- Whether a path ends in a slash, which only paths of directories may. -/
def namesDirectory (path : String) : Bool :=
  path.toList.getLast? == some '/'

def read (d : Disk) (path : String) : Except Fault String := do
  match d.get? (← d.place path) with
  | none => .error .notFound
  | some .directory => .error .isDirectory
  | some (.file text) => if namesDirectory path then .error .notDirectory else .ok text

def isDirectory (d : Disk) (path : String) : Bool :=
  match d.place path with
  | .ok p => d.get? p == some .directory
  | .error _ => false

def isFile (d : Disk) (path : String) : Bool :=
  match d.read path with
  | .ok _ => true
  | .error _ => false

def makeOne (d : Disk) (path : String) : Except Fault Disk := do
  let p ← d.place path
  if (d.get? p).isSome then .error .occupied else .ok (d.put p .directory)

/-- Makes the directory at the head of a list of paths, in which each path is followed by the one
above it.  Directories that were made stay when the last one cannot be. -/
def makeFrom (d : Disk) : List String → Except Fault Unit × Disk
  | [] => (.error .notFound, d)
  | path :: above =>
    match d.makeOne path with
    | .ok d => (.ok (), d)
    | .error .notFound =>
      match makeFrom d above with
      | (.error e, d) => (.error e, d)
      | (.ok _, d) =>
        match d.makeOne path with
        | .ok d => (.ok (), d)
        | .error e => (if d.isDirectory path then .ok () else .error e, d)
    | .error e => (if d.isDirectory path then .ok () else .error e, d)

def write (d : Disk) (path text : String) : Except Fault Disk := do
  let p ← d.place path
  if namesDirectory path ∨ d.get? p = some .directory then .error .isDirectory
  else .ok (d.put p (.file text))

def access : Access (StateM Disk) where
  read path := return ((← get).read path).mapError Fault.reason
  isFile path := return (← get).isFile path
  makeDirectory path := modifyGet fun d =>
    let (result, d) := d.makeFrom (Path.ancestors path)
    (result.mapError Fault.reason, d)
  write path text := modifyGet fun d =>
    match d.write path text with
    | .ok d => (.ok (), d)
    | .error e => (.error e.reason, d)

def fresh (workDir : String) : Disk :=
  let d : Disk := ⟨Path.names workDir, []⟩
  (d.makeFrom (Path.ancestors workDir)).2

def files (d : Disk) : List (String × String) :=
  d.entries.filterMap fun (p, e) =>
    match e with
    | .file text =>
      if d.workDir.isPrefixOf p then some ("/".intercalate (p.drop d.workDir.length), text)
      else none
    | .directory => none

end Disk

end ApiTypes.Files
