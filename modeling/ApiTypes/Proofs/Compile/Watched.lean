import ApiTypes.Proofs.Compile.Walk
import ApiTypes.Proofs.Reference.Names

namespace ApiTypes.Compile

open TypeScript Json

inductive Event where
  | moment (s : State)
  | visited (schema : Json)
  | met (ref : String)
  /-- The target of a reference was looked up. -/
  | lookedUp (ref : String) (found : Except Error Json)
  /-- A target that was not met before has got a name. -/
  | named (base pointer name : String) (declared : Bool)
  | opened (name : String)
  | entered (base : String)
  | left (base : String)
  /-- A reference was followed, from one state to another. -/
  | followed (ref : String) (before : State) (result : Except Error TypeExpr) (after : State)

structure Watch where
  state : State
  log : List Event

abbrev Watched := ExceptT Error (StateM Watch)

namespace Watched

variable {α : Type}

def note (e : Event) : Watched Unit :=
  modify fun w => { w with log := w.log ++ [e] }

def step (a : Action α) : Watched α := ExceptT.mk fun w =>
  let (result, s) := a.run w.state
  (result, ⟨s, w.log ++ [.moment w.state, .moment s]⟩)

/-- Notes how an action ends, also where it fails. -/
def noting (event : State → Except Error α → State → Event) (a : Watched α) : Watched α :=
  ExceptT.mk fun w =>
    let (result, w') := a.run w
    (result, { w' with log := w'.log ++ [event w.state result w'.state] })

def inside (base : String) (a : Watched α) : Watched α := ExceptT.mk fun w =>
  let (result, w') := a.run
    ⟨{ w.state with bases := base :: w.state.bases }, w.log ++ [.entered base]⟩
  (result, ⟨{ w'.state with bases := w'.state.bases.tail }, w'.log ++ [.left base]⟩)

def within (base : String) (a : Watched α) : Watched α :=
  if base = "" then a else inside base a

def declare (name : String) (description : Option String) (type : Watched TypeExpr) :
    Watched TypeExpr := do
  note (.opened name)
  let place := (← step get).slots.length
  step (modify fun s => { s with slots := s.slots ++ [none] })
  let t ← type
  step (modify fun s => { s with slots := s.slots.set place (some ⟨name, description, t⟩) })
  return .named name

section run

variable {β : Type} {w w' : Watch}

theorem run_step {a : Action α} {r : Except Error α} {s : State} (h : a.run w.state = (r, s)) :
    (step a).run w = (r, ⟨s, w.log ++ [.moment w.state, .moment s]⟩) := by
  show ((a.run w.state).1, Watch.mk (a.run w.state).2
    (w.log ++ [.moment w.state, .moment (a.run w.state).2])) = _
  rw [h]

theorem run_noting {event : State → Except Error α → State → Event} {a : Watched α}
    {r : Except Error α} (h : a.run w = (r, w')) :
    (noting event a).run w = (r, { w' with log := w'.log ++ [event w.state r w'.state] }) := by
  show ((a.run w).1, Watch.mk (a.run w).2.state
    ((a.run w).2.log ++ [event w.state (a.run w).1 (a.run w).2.state])) = _
  rw [h]

theorem run_inside {base : String} {a : Watched α} {r : Except Error α}
    (h : a.run ⟨{ w.state with bases := base :: w.state.bases }, w.log ++ [.entered base]⟩ =
      (r, w')) :
    (inside base a).run w =
      (r, ⟨{ w'.state with bases := w'.state.bases.tail }, w'.log ++ [.left base]⟩) := by
  show ((a.run _).1, Watch.mk { (a.run _).2.state with bases := (a.run _).2.state.bases.tail }
    ((a.run _).2.log ++ [.left base])) = _
  rw [h]

theorem run_bind_ok {a : Watched β} {f : β → Watched α} {x : β}
    (h : a.run w = (.ok x, w')) : (a >>= f).run w = (f x).run w' := by
  change (ExceptT.bindCont f (a.run w).1) (a.run w).2 = _
  rw [h]
  rfl

theorem run_bind_error {a : Watched β} {f : β → Watched α} {e : Error}
    (h : a.run w = (.error e, w')) : (a >>= f).run w = (.error e, w') := by
  change (ExceptT.bindCont f (a.run w).1) (a.run w).2 = _
  rw [h]
  rfl

theorem exists_of_run_bind_ok {a : Watched β} {f : β → Watched α} {y : α}
    (h : (a >>= f).run w = (.ok y, w')) :
    ∃ x w₁, a.run w = (.ok x, w₁) ∧ (f x).run w₁ = (.ok y, w') := by
  rcases ha : a.run w with ⟨e | x, w₁⟩
  · rw [run_bind_error ha] at h
    cases h
  · rw [run_bind_ok ha] at h
    exact ⟨x, w₁, rfl, h⟩

/-- A declaration is a place that is opened before its type is known and filled when it is. -/
theorem exists_of_run_declare {name : String} {description : Option String}
    {a : Watched TypeExpr} {t : TypeExpr} (h : (declare name description a).run w = (.ok t, w')) :
    ∃ (u : TypeExpr) (w₁ : Watch) (s s₁ : State), t = .named name ∧
      s = { w.state with slots := w.state.slots ++ [none] } ∧
      a.run ⟨s, w.log ++ [.opened name, .moment w.state, .moment w.state, .moment w.state,
        .moment s]⟩ = (.ok u, w₁) ∧
      s₁ = { w₁.state with
        slots := w₁.state.slots.set w.state.slots.length (some ⟨name, description, u⟩) } ∧
      w' = ⟨s₁, w₁.log ++ [.moment w₁.state, .moment s₁]⟩ := by
  let s : State := { w.state with slots := w.state.slots ++ [none] }
  have hopened : (declare name description a).run w = (do
      let u ← a
      step (modify fun s : State =>
        { s with slots := s.slots.set w.state.slots.length (some ⟨name, description, u⟩) })
      return TypeExpr.named name).run ⟨s, w.log ++ [Event.opened name] ++
        [Event.moment w.state, .moment w.state] ++ [Event.moment w.state, .moment s]⟩ := rfl
  -- the events of the steps that open the place, put together
  have hlog : w.log ++ [Event.opened name] ++ [Event.moment w.state, .moment w.state] ++
      [Event.moment w.state, .moment s] = w.log ++ [Event.opened name, .moment w.state,
        .moment w.state, .moment w.state, .moment s] := by
    simp
  rw [hopened, hlog] at h
  obtain ⟨u, w₁, ha, hfilled⟩ := exists_of_run_bind_ok h
  obtain ⟨ht, rfl⟩ := Prod.mk.inj hfilled
  exact ⟨u, w₁, s, _, (Except.ok.inj ht).symm, rfl, ha, rfl, rfl⟩

end run

end Watched

section

variable (c : Context) (inner : Json → Watched TypeExpr)

/-- Gives a target a name and declares it, unless it stands in another document and is not to be
declared. -/
def watchedTarget (ref base pointer : String) : Watched TypeExpr := do
  let schema ← .noting (fun _ found _ => .lookedUp ref found) (.step (target c base pointer))
  let name ← .step (uniqueName (nameHint schema base pointer))
  let declared := base == "" || c.options.declaresExternal
  Watched.note (.named base pointer name declared)
  .step (modify fun s => { s with refs := (targetKey base pointer, name) ::
    ((c.aliasKey? base pointer).map (·, name)).toList ++ s.refs })
  if declared then .within base (.declare name (description? schema) (inner schema))
  else return .named name

def watchedReference (ref : String) : Watched TypeExpr := do
  Watched.note (.met ref)
  .noting (.followed ref) do
    let s ← Watched.step get
    let (base, pointer) := c.address s.bases ref
    match s.known? c base pointer with
    | some name => return .named name
    | none => watchedTarget c inner ref base pointer

def Walk.watched : Walk Watched where
  reference := watchedReference c inner
  titled title schema := do
    let name ← Watched.step (uniqueName title)
    .declare name (description? schema) (inner schema)
  inner := inner

end

def watchedType (c : Context) : Nat → Json → Watched TypeExpr
  | 0, _ => throw .nesting
  | bound + 1, schema => do
    Watched.note (.visited schema)
    (Walk.watched c (watchedType c bound)).schemaType c.options schema

def watchedRoot (c : Context) (name : String) : Watched TypeExpr := do
  let name ← Watched.step (uniqueName name)
  Watched.note (.named "" "" name true)
  Watched.step (modify fun s => { s with refs := (targetKey "" "", name) :: s.refs })
  Watched.declare name (description? c.root) (watchedType c c.bound c.root)

def watchedDefinitions (c : Context) : Watched Unit :=
  (Table.keys (c.definitions?.getD [])).forM fun id => do
    let _ ← watchedReference c (watchedType c c.bound) ("#" ++ definitionPointer id)

def watchedProgram (c : Context) (name : String) : Watched Unit := do
  let _ ← watchedRoot c name
  if c.options.unreachableDefinitions then watchedDefinitions c

/-- How the compilation of a document ends, and what is seen of it. -/
def Context.watch (c : Context) (name : String) : Except Error Unit × Watch :=
  (watchedProgram c name).run ⟨.empty, []⟩

end ApiTypes.Compile
