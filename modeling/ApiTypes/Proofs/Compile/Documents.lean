import ApiTypes.Proofs.Compile.Layer
import ApiTypes.Proofs.Compile.Unrolled

namespace ApiTypes.Compile

open TypeScript

def State.Reads (c : Context) (s : State) : Prop :=
  ∀ url j, (url, j) ∈ s.documents → c.options.resolvers.resolve url = .ok j

theorem reads_empty (c : Context) : State.empty.Reads c := by
  simp [State.Reads, State.empty]

def reading (c : Context) (E : Error → Prop) : Discipline where
  inv := State.Reads c
  grows _ _ := True
  error := E
  refl _ := trivial
  trans _ _ := trivial

def Typing.all : Typing where
  inner _ _ := True
  led _ _ := True

variable {c : Context}

def Context.behind (c : Context) (base : String) : Except Error Json :=
  if base = "" then .ok c.root else c.options.resolvers.resolve base

def Context.part (c : Context) (base pointer : String) : Except Error Json :=
  (c.behind base).bind fun doc =>
    match Json.Pointer.resolve? pointer doc with
    | some j => .ok j
    | none => .error (.invalidPointer pointer (if base = "" then "#" else base))

theorem part_root (c : Context) (pointer : String) :
    c.part "" pointer = match Json.Pointer.resolve? pointer c.root with
      | some j => .ok j
      | none => .error (.invalidPointer pointer "#") := by
  unfold Context.part Context.behind
  rw [if_pos rfl]
  rfl

/-- What a pointer leads to is inside the document behind its base. -/
theorem exists_within_of_part {base pointer : String} {j : Json} (h : c.part base pointer = .ok j) :
    ∃ doc, c.behind base = .ok doc ∧ Json.Within j doc := by
  unfold Context.part at h
  cases hdoc : c.behind base with
  | error e =>
    rw [hdoc] at h
    cases h
  | ok doc =>
    rw [hdoc] at h
    dsimp only [Except.bind] at h
    cases hresolve : Json.Pointer.resolve? pointer doc with
    | none =>
      rw [hresolve] at h
      cases h
    | some k =>
      rw [hresolve] at h
      obtain rfl := Except.ok.inj h
      exact ⟨doc, rfl, Json.within_of_resolve? hresolve⟩

/-- The errors of references whose targets are not there. -/
def Context.Misses (c : Context) (e : Error) : Prop :=
  ∃ base pointer, c.part base pointer = .error e

theorem run_document {s : State} (hs : s.Reads c) (base : String) :
    ∃ documents, State.Reads c { s with documents } ∧
      (document c base).run s = (c.behind base, { s with documents }) := by
  unfold Context.behind
  by_cases hbase : base = ""
  · refine ⟨s.documents, hs, ?_⟩
    rw [if_pos hbase]
    unfold document
    rw [if_pos hbase]
    rfl
  rw [if_neg hbase]
  have hrun : (document c base).run s = (match Table.get? base s.documents with
      | some j => pure j
      | none => do
        let j ← c.options.resolvers.resolve base
        modify fun s => { s with documents := s.documents ++ [(base, j)] }
        return j : Action Json).run s := by
    unfold document
    rw [if_neg hbase]
    rfl
  rw [hrun]
  -- a document that was kept is the one that the resolvers have
  cases hget : Table.get? base s.documents with
  | some j =>
    have hj : c.options.resolvers.resolve base = .ok j := hs base j (Table.mem_of_get? hget)
    exact ⟨s.documents, hs, by rw [hj]; rfl⟩
  | none =>
    cases hr : c.options.resolvers.resolve base with
    | error e => exact ⟨s.documents, hs, rfl⟩
    | ok j =>
      refine ⟨s.documents ++ [(base, j)], fun url k hk => ?_, rfl⟩
      obtain hk | hk := List.mem_append.1 hk
      · exact hs url k hk
      · obtain ⟨rfl, rfl⟩ := Prod.mk.inj (List.mem_singleton.1 hk)
        exact hr

/-- Looking up a target changes nothing but what was read. -/
theorem run_target {s : State} (hs : s.Reads c) (base pointer : String) :
    ∃ documents, State.Reads c { s with documents } ∧
      (target c base pointer).run s = (c.part base pointer, { s with documents }) := by
  obtain ⟨documents, hreads, hrun⟩ := run_document hs base
  refine ⟨documents, hreads, ?_⟩
  unfold target Context.part
  cases hdoc : c.behind base with
  | error e =>
    rw [hdoc] at hrun
    rw [run_bind_error hrun]
    rfl
  | ok doc =>
    rw [hdoc] at hrun
    rw [run_bind_ok hrun]
    dsimp only [Except.bind]
    cases Json.Pointer.resolve? pointer doc with
    | some j => rfl
    | none => rfl

/-- In the root nothing has to be read. -/
theorem run_target_root (c : Context) (pointer : String) (s : State) :
    (target c "" pointer).run s = (c.part "" pointer, s) := by
  have hdocument : (document c "").run s = (.ok c.root, s) := rfl
  unfold target
  rw [run_bind_ok hdocument, part_root]
  cases Json.Pointer.resolve? pointer c.root with
  | some j => rfl
  | none => rfl

/-- A document other than the root is the one that the resolvers have, and it is missed only where
they miss it. -/
theorem ends_document {s : State} {base : String} (hs : s.Reads c) :
    Ends (document c base) s
      (fun j s' => s'.Reads c ∧ (base ≠ "" → c.options.resolvers.resolve base = .ok j))
      fun e => base ≠ "" ∧ c.options.resolvers.resolve base = .error e := by
  obtain ⟨documents, hreads, hrun⟩ := run_document hs base
  unfold Ends
  rw [hrun]
  unfold Context.behind
  by_cases hbase : base = ""
  · rw [if_pos hbase]
    exact ⟨hreads, fun h => absurd hbase h⟩
  · rw [if_neg hbase]
    cases hr : c.options.resolvers.resolve base with
    | error e => exact ⟨hbase, rfl⟩
    | ok j => exact ⟨hreads, fun _ => rfl⟩

section steps

variable {E : Error → Prop} (hE : ∀ e, c.Misses e → E e)
variable {inner : Json → Action TypeExpr} {schema : Json}

include hE in
theorem keeps_target_reading (base pointer : String) :
    (reading c E).Keeps (target c base pointer) fun _ _ => True := by
  intro s hs
  obtain ⟨documents, hreads, hrun⟩ := run_target hs base pointer
  unfold Ends
  rw [hrun]
  cases hpart : c.part base pointer with
  | error e => exact hE e ⟨base, pointer, hpart⟩
  | ok j => exact ⟨hreads, trivial, trivial⟩

theorem keeps_declare_reading (name : String) (description : Option String)
    (hinner : (reading c E).Keeps (inner schema) fun _ _ => True) :
    (reading c E).Keeps (declare name description (inner schema)) fun _ _ => True := by
  intro s hs
  rw [ends_declare]
  exact (hinner { s with slots := s.slots ++ [none] } hs).imp fun _ _ h => h

include hE

theorem keeps_reference_reading (hinner : ∀ schema,
      (reading c E).Keeps (inner schema) fun _ _ => True) (ref : String) :
    (reading c E).Keeps (reference c inner ref) fun _ _ => True := by
  intro s hs
  refine ends_reference ref (fun _ _ _ h => h) (fun _ _ => ⟨hs, trivial, trivial⟩)
    fun base pointer => ?_
  -- looking up the target is the only step that reads
  refine (keeps_target_reading hE base pointer s hs).imp fun schema s' hs' => ?_
  intro name refs bases _ _
  refine ⟨keeps_declare_reading name (description? schema) (hinner schema) _ ?_, fun _ => ?_⟩
  · exact hs'.1
  · exact ⟨hs'.1, trivial, trivial⟩

theorem keeps_typeOf_reading (hinner : ∀ schema,
      (reading c E).Keeps (inner schema) fun _ _ => True) (schema : Json) :
    (reading c E).Keeps (typeOf c inner schema) fun _ _ => True := by
  unfold typeOf
  split
  · exact keeps_reference_reading hE hinner _
  · intro s hs
    simp only [ends_bind, ends_uniqueName]
    refine (keeps_declare_reading _ _ (hinner schema) _ ?_).imp fun _ _ h => h
    exact hs
  · exact hinner schema

theorem types_reading (hinner : ∀ schema, (reading c E).Keeps (inner schema) fun _ _ => True) :
    (reading c E).Types (fun _ => .all) (fun _ => True) c inner := by
  constructor
  · exact fun _ _ _ _ => trivial
  · exact fun _ _ _ => ⟨id, id⟩
  · exact fun schema _ => keeps_typeOf_reading hE hinner schema
  · exact fun _ ref _ _ => keeps_reference_reading hE hinner ref

theorem keeps_bodyTypeThen_reading {rest : Json → Action TypeExpr}
    (hrest : ∀ schema, (reading c E).Keeps (rest schema) fun _ _ => True) (bound : Nat)
    (schema : Json) : (reading c E).Keeps (bodyTypeThen c rest bound schema) fun _ _ => True := by
  induction bound generalizing schema with
  | zero => exact hrest schema
  | succ bound ih =>
    exact ((types_reading hE ih).keeps_schemaType trivial).mono fun _ _ _ _ => trivial

theorem keeps_programBy_reading {body : Json → Action TypeExpr}
    (hbody : ∀ schema, (reading c E).Keeps (body schema) fun _ _ => True) (name : String) :
    (reading c E).Keeps (programBy c body name) fun _ _ => True := by
  have hroot : (reading c E).Keeps (rootBy c body name) fun _ _ => True := by
    intro s hs
    unfold rootBy
    simp only [ends_bind, ends_uniqueName, ends_modify]
    refine (keeps_declare_reading _ _ (hbody _) _ ?_).imp fun _ _ h => h
    exact hs
  have hall : (reading c E).Keeps (allDefinitionsBy c body) fun _ _ => True := by
    refine Discipline.keeps_forM fun id _ s hs => ?_
    rw [ends_bind]
    exact keeps_reference_reading hE hbody _ s hs
  intro s hs
  unfold programBy
  rw [ends_bind]
  refine (hroot s hs).imp fun _ s' hs' => ?_
  split
  · exact hall s' hs'.1
  · exact hs'

end steps

end ApiTypes.Compile
