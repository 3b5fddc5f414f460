import ApiTypes.Files.Access

namespace ApiTypes.Files

inductive Call where
  | read (path : String)
  | makeDirectory (path : String)
  | write (path : String)

structure Memory where
  /-- Texts by path; of the paths that are the same, the first one stands for all. -/
  files : List (String × String)
  deniedReads : List String
  deniedDirectories : List String
  deniedWrites : List String
  calls : List Call

namespace Memory

def denied (paths : List String) (path : String) : Bool :=
  paths.any (Path.same path)

def text? (files : List (String × String)) (path : String) : Option String :=
  (files.find? fun (p, _) => Path.same path p).map Prod.snd

def put (path text : String) : List (String × String) → List (String × String)
  | [] => [(path, text)]
  | (p, t) :: files =>
    if Path.same path p then (p, text) :: files else (p, t) :: put path text files

def log (call : Call) (m : Memory) : Memory :=
  { m with calls := m.calls ++ [call] }

def answer {α : Type} (call : Call) (result : Memory → α) : StateM Memory α :=
  modifyGet fun m => (result m, m.log call)

def access : Access (StateM Memory) where
  read path := answer (.read path) fun m =>
    match text? m.files path with
    | some text => if denied m.deniedReads path then .error "denied" else .ok text
    | none => .error "denied"
  isFile path := return (text? (← get).files path).isSome
  makeDirectory path := answer (.makeDirectory path) fun m =>
    if denied m.deniedDirectories path then .error "denied" else .ok ()
  write path text := do
    if denied (← get).deniedWrites path then
      answer (.write path) fun _ => .error "denied"
    else
      modify fun m => { m with files := put path text m.files }
      answer (.write path) fun _ => .ok ()

end Memory

end ApiTypes.Files
