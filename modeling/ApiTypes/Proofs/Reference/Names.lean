import ApiTypes.Proofs.Compile.InStep
import ApiTypes.Proofs.Reference.Addresses

namespace ApiTypes.Compile

open Json TypeScript

def Context.address (c : Context) (bases : List String) (ref : String) : String × String :=
  (c.base bases (splitReference ref).1, (splitReference ref).2)

/-- The name that is known for a target under either of its keys. -/
def State.known? (c : Context) (s : State) (base pointer : String) : Option String :=
  (Table.get? (targetKey base pointer) s.refs).or
    ((c.aliasKey? base pointer).bind fun key => Table.get? key s.refs)

def State.given (c : Context) (s : State) (base pointer name : String) : State :=
  { s with
    names := name :: s.names
    refs := (targetKey base pointer, name) ::
      ((c.aliasKey? base pointer).map (·, name)).toList ++ s.refs }

section known

variable {c : Context} {s : State} {base pointer key name : String}

/-- A name that is entered for a target is found under its keys. -/
theorem get?_refer (c : Context) (base pointer name : String) (refs : List (String × String))
    (key : String) :
    Table.get? key ((targetKey base pointer, name) ::
        ((c.aliasKey? base pointer).map (·, name)).toList ++ refs) =
      if c.IsKey base pointer key then some name else Table.get? key refs := by
  rw [List.cons_append, Table.get?_cons]
  by_cases hfirst : key = targetKey base pointer
  · rw [if_pos hfirst, if_pos (.inl hfirst.symm)]
  · rw [if_neg hfirst]
    -- both keys were put in front, the second one only if there is one
    by_cases hsecond : c.aliasKey? base pointer = some key
    · have hkey : c.IsKey base pointer key := .inr hsecond
      rw [if_pos hkey, hsecond]
      show Table.get? key ((key, name) :: refs) = some name
      rw [Table.get?_cons, if_pos rfl]
    · have hkey : ¬ c.IsKey base pointer key :=
        not_or.2 ⟨fun h => hfirst h.symm, hsecond⟩
      rw [if_neg hkey]
      cases halias : c.aliasKey? base pointer with
      | none => rfl
      | some second =>
        have hne : key ≠ second := fun he => hsecond (he ▸ halias)
        show Table.get? key ((second, name) :: refs) = _
        rw [Table.get?_cons, if_neg hne]

theorem get?_of_known?_none (h : s.known? c base pointer = none) (hkey : c.IsKey base pointer key) :
    Table.get? key s.refs = none := by
  obtain ⟨hfirst, hsecond⟩ := Option.or_eq_none_iff.1 h
  rcases hkey with rfl | hkey
  · exact hfirst
  · rw [hkey] at hsecond
    exact hsecond

theorem contains_given (c : Context) (s : State) (base pointer name : String) :
    Table.contains (targetKey base pointer) (s.given c base pointer name).refs := by
  unfold Table.contains State.given
  rw [get?_refer, if_pos (.inl rfl)]
  rfl

theorem contains_given_of_contains (h : Table.contains key s.refs) :
    Table.contains key (s.given c base pointer name).refs := by
  unfold Table.contains State.given at *
  rw [get?_refer]
  split
  · rfl
  · exact h

end known

section base

variable {c : Context} {bases : List String}

theorem headD_entered {base : String} (h : base = "" → bases.headD "" = "") :
    (entered base bases).headD "" = base := by
  unfold entered
  by_cases hbase : base = ""
  · rw [if_pos hbase, h hbase, hbase]
  · rw [if_neg hbase]
    rfl

theorem headD_of_base {document : String} (h : c.base bases document = "") :
    bases.headD "" = "" := by
  unfold Context.base at h
  by_cases hdocument : document = ""
  · rwa [if_pos hdocument] at h
  · rw [if_neg hdocument] at h
    exact absurd h url_ne_empty

end base

section target

variable (c : Context) (inner : Json → Action TypeExpr)

/-- Declares a target under its name, unless it stands in another document and is not to be
declared. -/
def declaredTarget (base name : String) (schema : Json) : Action TypeExpr :=
  if base == "" || c.options.declaresExternal then
    within base (declare name (description? schema) (inner schema))
  else return .named name

def firstTarget (base pointer : String) : Action TypeExpr := do
  let schema ← target c base pointer
  let name ← uniqueName (nameHint schema base pointer)
  modify fun s => { s with refs := (targetKey base pointer, name) ::
    ((c.aliasKey? base pointer).map (·, name)).toList ++ s.refs }
  declaredTarget c inner base name schema

def namedTarget (base pointer : String) : Action TypeExpr := do
  match (← get).known? c base pointer with
  | some name => return .named name
  | none => firstTarget c inner base pointer

variable {c inner} {s s₁ : State} {base pointer : String}

theorem run_firstTarget {j : Json} (h : (target c base pointer).run s = (.ok j, s₁)) :
    (firstTarget c inner base pointer).run s =
      (declaredTarget c inner base (freshName s₁.names (safeName (nameHint j base pointer))) j).run
        (s₁.given c base pointer (freshName s₁.names (safeName (nameHint j base pointer)))) := by
  unfold firstTarget
  rw [run_bind_ok h]
  rfl

theorem run_namedTarget (c : Context) (inner : Json → Action TypeExpr) (base pointer : String)
    (s : State) :
    (namedTarget c inner base pointer).run s =
      (match s.known? c base pointer with
        | some name => return .named name
        | none => firstTarget c inner base pointer : Action TypeExpr).run s := by
  have hget : (get : Action State).run s = (.ok s, s) := rfl
  unfold namedTarget
  rw [run_bind_ok hget]

theorem run_reference_eq (c : Context) (inner : Json → Action TypeExpr) (ref : String) (s : State) :
    (reference c inner ref).run s =
      (namedTarget c inner (c.address s.bases ref).1 (c.address s.bases ref).2).run s := by
  unfold reference namedTarget firstTarget declaredTarget State.known? Context.address
  obtain ⟨document, pointer⟩ := splitReference ref
  have hget : (get : Action State).run s = (.ok s, s) := rfl
  dsimp only
  rw [run_bind_ok hget, run_bind_ok hget]
  generalize Option.or _ _ = known
  cases known with
  | some name => rfl
  | none =>
    by_cases hbase : c.base s.bases document = ""
    · simp only [hbase, within, if_true, beq_self_eq_true, Bool.true_or]
    · have hne : (c.base s.bases document == "") = false := by simpa using hbase
      simp only [hbase, hne, within, if_false, Bool.false_or]

end target

end ApiTypes.Compile
