import ApiTypes.Compile.Text

namespace ApiTypes.Compile

open TypeScript

/-- The type of a schema through `bound` layers, where `rest` compiles what is inside the last. -/
def bodyTypeThen (c : Context) (rest : Json → Action TypeExpr) : Nat → Json → Action TypeExpr
  | 0 => rest
  | bound + 1 => schemaType c (bodyTypeThen c rest bound)

theorem bodyTypeThen_nesting (c : Context) (bound : Nat) :
    bodyTypeThen c (fun _ => throw .nesting) bound = bodyType c bound := by
  induction bound with
  | zero => rfl
  | succ bound ih =>
    funext schema
    unfold bodyTypeThen bodyType
    rw [ih]

theorem bodyTypeThen_bodyType (c : Context) (more bound : Nat) :
    bodyTypeThen c (bodyType c more) bound = bodyType c (more + bound) := by
  induction bound with
  | zero => rfl
  | succ bound ih =>
    funext schema
    unfold bodyTypeThen
    rw [ih]
    rfl

variable (c : Context) (body : Json → Action TypeExpr)

def rootBy (name : String) : Action TypeExpr := do
  let name ← uniqueName name
  modify fun s => { s with refs := (targetKey "" "", name) :: s.refs }
  declare name (description? c.root) (body c.root)

def allDefinitionsBy : Action Unit :=
  (Table.keys (c.definitions?.getD [])).forM fun id => do
    let _ ← reference c body ("#" ++ definitionPointer id)

def programBy (name : String) : Action Unit := do
  let _ ← rootBy c body name
  if c.options.unreachableDefinitions then allDefinitionsBy c body

def declarationsBy (name : String) : Except Error (List Declaration) :=
  match (programBy c body name).run State.empty with
  | (.ok _, s) => .ok (s.slots.filterMap id)
  | (.error e, _) => .error e

theorem programBy_bodyType (name : String) :
    programBy c (bodyType c c.bound) name = program c name := rfl

theorem declarationsBy_bodyType (name : String) :
    declarationsBy c (bodyType c c.bound) name = declarations c name := rfl

end ApiTypes.Compile
