import ApiTypes.Error
import ApiTypes.Files.Path

namespace ApiTypes.Files

/-- The operations on files; a failure is told by its reason. -/
structure Access (m : Type → Type) where
  read : String → m (Except String String)
  /-- Whether there is a file, and no directory, at a path. -/
  isFile : String → m Bool
  /-- Makes a directory and all directories above it. -/
  makeDirectory : String → m (Except String Unit)
  write : String → String → m (Except String Unit)

def Access.read? {m : Type → Type} [Monad m] (access : Access m) (path : String) :
    m (Option String) := do
  return (← access.read path).toOption

inductive Outcome where
  | written
  | unchanged
  deriving DecidableEq, Repr

structure Task where
  path : String
  text : String

def Task.of (workDir path text : String) : Except Error Task :=
  match Path.absolute? workDir path with
  | some absolute => .ok ⟨absolute, text⟩
  | none => .error (.access path "cannot make an empty path absolute")

section

variable {m : Type → Type} [Monad m] (access : Access m) (t : Task)

/-- Whether the file holds the text already; a file that cannot be read does not. -/
def Task.isCurrent : m Bool := do
  return (← access.read? t.path) == some t.text

def Task.makeParent : m (Except Error Unit) :=
  match Path.parent? t.path with
  | none => return .ok ()
  | some dir => return (← access.makeDirectory dir).mapError (.access dir)

def Task.put : m (Except Error Unit) := do
  return (← access.write t.path t.text).mapError (.access t.path)

def Task.save : m (Except Error Outcome) := do
  if ← t.isCurrent access then
    return .ok .unchanged
  else
    match ← t.makeParent access with
    | .error e => return .error e
    | .ok _ => return (← t.put access).map fun _ => .written

def save (workDir path text : String) : m (Except Error Outcome) :=
  match Task.of workDir path text with
  | .ok t => t.save access
  | .error e => return .error e

/-- The step that a save takes next, or its result. -/
inductive Stage where
  | reading
  | making
  | writing
  | done (outcome : Outcome)
  | failed (e : Error)

structure Saving where
  task : Task
  stage : Stage

/-- A save without an absolute path has failed before it starts. -/
def Saving.start (workDir path text : String) : Saving :=
  match Task.of workDir path text with
  | .ok t => ⟨t, .reading⟩
  | .error e => ⟨⟨path, text⟩, .failed e⟩

def Saving.nextStage (s : Saving) : m Stage :=
  match s.stage with
  | .reading => return if ← s.task.isCurrent access then .done .unchanged else .making
  | .making => return match ← s.task.makeParent access with
    | .ok _ => .writing
    | .error e => .failed e
  | .writing => return match ← s.task.put access with
    | .ok _ => .done .written
    | .error e => .failed e
  | stage => return stage

def Saving.step (s : Saving) : m Saving := do
  return ⟨s.task, ← s.nextStage access⟩

def Saving.failure? (s : Saving) : Option Error :=
  match s.stage with
  | .failed e => some e
  | _ => none

def Saving.outcome? (s : Saving) : Option Outcome :=
  match s.stage with
  | .done outcome => some outcome
  | _ => none

def stepAt (saves : List Saving) (place : Nat) : m (List Saving) :=
  match saves[place]? with
  | some s => return saves.set place (← s.step access)
  | none => return saves

/-- Rounds, in each of which the saves at some places take steps one after the other; no round
follows a failure. -/
def rounds : List (List Nat) → List Saving → m (List Saving)
  | [], saves => return saves
  | places :: rest, saves =>
    if saves.any (·.failure?.isSome) then return saves
    else do rounds rest (← places.foldlM (stepAt access) saves)

/-- The order in which so many saves take their steps.  None of them takes more than three, and each
gets to take them all. -/
structure Schedule where
  rounds : Nat → List (List Nat)
  complete : ∀ n, ∀ place < n, 3 ≤ (rounds n).flatten.count place

namespace Schedule

def lockstep : Schedule where
  rounds n := List.replicate 3 (List.range n)
  complete n place h := by
    have hone : 0 < (List.range n).count place := List.count_pos_iff.2 (List.mem_range.2 h)
    simp only [List.replicate_succ, List.replicate_zero, List.flatten_cons, List.flatten_nil,
      List.append_nil, List.count_append]
    omega

/-- A save begins only when the one before it is over. -/
def sequential : Schedule where
  rounds n := (List.range n).map (List.replicate 3)
  complete n place h := by
    have hmem : List.replicate 3 place ∈ (List.range n).map (List.replicate 3) :=
      List.mem_map_of_mem (List.mem_range.2 h)
    have hle := (List.sublist_flatten_of_mem hmem).count_le place
    rwa [List.count_replicate_self] at hle

end Schedule

/-- Saves texts at paths, all at the same time; a failure stops the others. -/
def saveAll (schedule : Schedule) (workDir : String) (files : List (String × String)) :
    m (Except Error (List (Option Outcome))) := do
  let saves ← rounds access (schedule.rounds files.length)
    (files.map fun (path, text) => .start workDir path text)
  return match saves.findSome? Saving.failure? with
    | some e => .error e
    | none => .ok (saves.map Saving.outcome?)

end

end ApiTypes.Files
