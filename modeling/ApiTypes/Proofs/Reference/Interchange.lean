import ApiTypes.Proofs.Reference.Names

/-!
The two addresses of a definition are interchangeable where they mean the same: the definition does
not refer to the document it stands in, and its name is made alike from both.  Two compilations
whose roots differ in such addresses stay in step, though one of them may be inside the definition's
document where the other is still in the root.
-/

namespace ApiTypes.Compile

open Json TypeScript

/-- A definition that reads the same as a document of its own and as a part of the root. -/
structure Interchangeable (c : Context) (ds : List (String × Json)) (id : String) (d : Json) :
    Prop where
  definition : Table.get? id ds = some d
  web : Resolver.isWebAddress (c.url id) = false
  /-- Its references name the documents that they are about. -/
  external : ∀ r ∈ references d, (splitReference r).1 ≠ ""
  name : safeName (nameHint d (c.url id) "") = safeName (nameHint d "" (definitionPointer id))

/-- The two references to a definition, in either order. -/
inductive Swapped (id : String) : String → String → Prop
  | document : Swapped id (id ++ "#") ("#" ++ definitionPointer id)
  | pointer : Swapped id ("#" ++ definitionPointer id) (id ++ "#")

def Readdressed (c : Context) (ds : List (String × Json)) (r r' : String) : Prop :=
  r = r' ∨ ∃ id d, Interchangeable c ds id d ∧ Swapped id r r'

def Aligned (c : Context) (ds : List (String × Json)) (base base' r r' : String) : Prop :=
  (r = r' ∧ (base = base' ∨ (splitReference r).1 ≠ "")) ∨
    base = "" ∧ base' = "" ∧ ∃ id d, Interchangeable c ds id d ∧ Swapped id r r'

inductive Meet (c : Context) (ds : List (String × Json)) :
    String → String → String → String → Prop
  | same (base pointer : String) : Meet c ds base pointer base pointer
  | document {id : String} {d : Json} (h : Interchangeable c ds id d) :
      Meet c ds (c.url id) "" "" (definitionPointer id)
  | pointer {id : String} {d : Json} (h : Interchangeable c ds id d) :
      Meet c ds "" (definitionPointer id) (c.url id) ""

/-- Two contexts that differ in the roots, in which addresses of definitions may be interchanged. -/
structure Twins (c c' : Context) (ds : List (String × Json)) : Prop where
  options : c.options = c'.options
  cwd : c.cwd = c'.cwd
  declares : c.options.declaresExternal = true
  definitions : c.root.get? "definitions" = some (.object ds)
  definitions' : c'.root.get? "definitions" = some (.object ds)
  plain : ∀ id ∈ Table.keys ds, PlainId id
  resolves : ∀ {id d}, Interchangeable c ds id d → c.options.resolvers.resolve (c.url id) = .ok d
  root : Respelled (Readdressed c ds) c.root c'.root

theorem Interchangeable.mem_keys {c : Context} {ds : List (String × Json)} {id : String} {d : Json}
    (h : Interchangeable c ds id d) : id ∈ Table.keys ds :=
  List.mem_map_of_mem (Table.mem_of_get? h.definition)

theorem nameHint_eq {R : String → String → Prop} {j j' : Json} (h : Alike R j j')
    (base pointer : String) : nameHint j base pointer = nameHint j' base pointer := by
  unfold nameHint
  rw [h.text?_eq (by decide)]

section part

variable {c : Context} {d : Json}

theorem part_document {url : String} (hne : url ≠ "")
    (h : c.options.resolvers.resolve url = .ok d) : c.part url "" = .ok d := by
  unfold Context.part Context.behind
  rw [if_neg hne, h]
  rfl

theorem part_pointer {ds : List (String × Json)} {id : String}
    (hroot : c.root.get? "definitions" = some (.object ds)) (hd : Table.get? id ds = some d) :
    c.part "" (definitionPointer id) = .ok d := by
  rw [part_root, resolve?_definitionPointer hroot, hd]

end part

/-- A definition is alike to itself inside different documents if none of its references is to the
document it stands in. -/
theorem Interchangeable.alike {c : Context} {ds : List (String × Json)} {id : String} {d : Json}
    (h : Interchangeable c ds id d) (base base' : String) : Alike (Aligned c ds base base') d d :=
  .inl (respelled_self d fun r hr => .inl ⟨rfl, .inr (h.external r hr)⟩)

namespace Twins

variable {c c' : Context} {ds : List (String × Json)} (T : Twins c c' ds)

include T

theorem url_eq (id : String) : c'.url id = c.url id := by
  unfold Context.url
  rw [T.cwd]

theorem aliasKey?_eq (base pointer : String) :
    c'.aliasKey? base pointer = c.aliasKey? base pointer := by
  unfold Context.aliasKey? Context.definitionId?
  rw [definitions?_eq T.definitions, definitions?_eq T.definitions']
  simp only [T.url_eq]

theorem alike_root : Alike (Aligned c ds "" "") c.root c'.root := by
  refine .inl (T.root.mono fun hr => ?_)
  rcases hr with heq | hswapped
  · exact .inl ⟨heq, .inl rfl⟩
  · exact .inr ⟨rfl, rfl, hswapped⟩

theorem meet_of_aligned {bases bases' : List String} {r r' : String}
    (h : Aligned c ds (bases.headD "") (bases'.headD "") r r') :
    Meet c ds (c.base bases (splitReference r).1) (splitReference r).2
      (c'.base bases' (splitReference r').1) (splitReference r').2 := by
  have hurl : ∀ id d, Interchangeable c ds id d → ∀ bases, c.base bases id = c.url id :=
    fun id d hid bases => if_neg (T.plain id hid.mem_keys).ne
  have hurl' : ∀ id d, Interchangeable c ds id d → ∀ bases, c'.base bases id = c.url id :=
    fun id d hid bases => (if_neg (T.plain id hid.mem_keys).ne).trans (T.url_eq id)
  rcases h with ⟨rfl, hbase⟩ | ⟨hbase, hbase', id, d, hid, hswapped⟩
  · -- a reference with a document is resolved the same from everywhere
    have heq : c'.base bases' (splitReference r).1 = c.base bases (splitReference r).1 := by
      unfold Context.base
      by_cases hdocument : (splitReference r).1 = ""
      · rw [if_pos hdocument, if_pos hdocument]
        exact (hbase.resolve_right fun h => h hdocument).symm
      · rw [if_neg hdocument, if_neg hdocument, T.url_eq]
    rw [heq]
    exact .same _ _
  · -- one of the two addresses leads out of the root, the other stays there
    have hsplit := splitReference_document (T.plain id hid.mem_keys).hash
    have hsplit' := splitReference_pointer (definitionPointer id)
    cases hswapped with
    | document =>
      rw [hsplit, hsplit', hurl id d hid]
      show Meet c ds (c.url id) "" (bases'.headD "") (definitionPointer id)
      rw [hbase']
      exact .document hid
    | pointer =>
      rw [hsplit, hsplit', hurl' id d hid]
      show Meet c ds (bases.headD "") (definitionPointer id) (c.url id) ""
      rw [hbase]
      exact .pointer hid

theorem part_eq {base : String} (h : base ≠ "") (pointer : String) :
    c'.part base pointer = c.part base pointer := by
  have hbehind : c'.behind base = c.behind base := by
    unfold Context.behind
    rw [if_neg h, if_neg h, T.options]
  unfold Context.part
  rw [hbehind]

/-- Both targets are missed, or they are found and alike. -/
theorem part_of_meet {base pointer base' pointer' : String}
    (h : Meet c ds base pointer base' pointer') :
    (∃ e, c.part base pointer = .error e ∧ c'.part base' pointer' = .error e) ∨
      ∃ j j', c.part base pointer = .ok j ∧ c'.part base' pointer' = .ok j' ∧
        Alike (Aligned c ds base base') j j' ∧
        safeName (nameHint j base pointer) = safeName (nameHint j' base' pointer') := by
  cases h with
  | same =>
    by_cases hbase : base = ""
    · -- only the roots differ, and only in how they spell references
      subst hbase
      have hpart := T.alike_root.rel_resolve? pointer
      rw [part_root, part_root]
      revert hpart
      generalize Pointer.resolve? pointer c.root = o
      generalize Pointer.resolve? pointer c'.root = o'
      rintro (⟨hj⟩ | _)
      · exact .inr ⟨_, _, rfl, rfl, hj, congrArg safeName (nameHint_eq hj "" pointer)⟩
      · exact .inl ⟨_, rfl, rfl⟩
    · rw [T.part_eq hbase]
      cases c.part base pointer with
      | error e => exact .inl ⟨e, rfl, rfl⟩
      | ok j =>
        have hself : Alike (Aligned c ds base base) j j :=
          .inl (respelled_self j fun r _ => .inl ⟨rfl, .inl rfl⟩)
        exact .inr ⟨j, j, rfl, rfl, hself, rfl⟩
  | @document id d hid =>
    -- the whole document behind the id is what stands under it in the root
    have hne : c.url id ≠ "" := url_ne_empty
    exact .inr ⟨d, d, part_document hne (T.resolves hid),
      part_pointer T.definitions' hid.definition, hid.alike _ _, hid.name⟩
  | @pointer id d hid =>
    have hne : c.url id ≠ "" := url_ne_empty
    exact .inr ⟨d, d, part_pointer T.definitions hid.definition,
      part_document hne (T.options ▸ T.resolves hid), hid.alike _ _, hid.name.symm⟩

end Twins

/-- Targets that meet have the same keys. -/
theorem Twins.isKey_iff {c c' : Context} {ds : List (String × Json)} (T : Twins c c' ds)
    {base pointer base' pointer' : String} (h : Meet c ds base pointer base' pointer')
    (key : String) : c.IsKey base pointer key ↔ c'.IsKey base' pointer' key := by
  unfold Context.IsKey
  rw [T.aliasKey?_eq]
  cases h with
  | same => rfl
  | document hid =>
    rw [aliasKey?_document T.definitions T.plain hid.mem_keys,
      aliasKey?_pointer T.definitions hid.mem_keys, Option.some.injEq, Option.some.injEq, or_comm]
  | pointer hid =>
    rw [aliasKey?_document T.definitions T.plain hid.mem_keys,
      aliasKey?_pointer T.definitions hid.mem_keys, Option.some.injEq, Option.some.injEq, or_comm]

/-- What two compilations have done so far is the same, but for the documents they have read. -/
structure Matching (c c' : Context) (ds : List (String × Json)) (s s' : State) : Prop where
  names : s.names = s'.names
  slots : s.slots = s'.slots
  refs : ∀ key, Table.get? key s.refs = Table.get? key s'.refs
  /-- A definition that is known as a part of the root is known as a document. -/
  known : ∀ id ∈ Table.keys ds, ∀ {name},
    Table.get? (targetKey "" (definitionPointer id)) s.refs = some name →
      Table.get? (targetKey (c.url id) "") s.refs = some name
  reads : s.Reads c
  reads' : s'.Reads c'

def InStep (c c' : Context) (ds : List (String × Json)) (bases bases' : List String)
    (s s' : State) : Prop :=
  Matching c c' ds s s' ∧ s.bases = bases ∧ s'.bases = bases'

namespace Matching

variable {c c' : Context} {ds : List (String × Json)} {s s' : State} (hs : Matching c c' ds s s')

include hs

theorem fill {slots slots' : List (Option Declaration)} (hslots : slots = slots')
    (bases bases' : List String) :
    Matching c c' ds { s with slots, bases } { s' with slots := slots', bases := bases' } where
  names := hs.names
  slots := hslots
  refs := hs.refs
  known := hs.known
  reads := hs.reads
  reads' := hs.reads'

theorem give (name : String) :
    Matching c c' ds { s with names := name :: s.names } { s' with names := name :: s'.names } where
  names := by rw [hs.names]
  slots := hs.slots
  refs := hs.refs
  known := hs.known
  reads := hs.reads
  reads' := hs.reads'

/-- Both addresses of a definition find the same name. -/
theorem known?_eq (T : Twins c c' ds)
    {base pointer base' pointer' : String} (h : Meet c ds base pointer base' pointer') :
    s.known? c base pointer = s'.known? c' base' pointer' := by
  -- both addresses have the same two keys, in the other order
  have hboth : ∀ id ∈ Table.keys ds,
      s.known? c (c.url id) "" = s.known? c "" (definitionPointer id) := by
    intro id hid
    unfold State.known?
    rw [aliasKey?_document T.definitions T.plain hid, aliasKey?_pointer T.definitions hid]
    show (Table.get? (targetKey (c.url id) "") s.refs).or
      (Table.get? (targetKey "" (definitionPointer id)) s.refs) =
      (Table.get? (targetKey "" (definitionPointer id)) s.refs).or
        (Table.get? (targetKey (c.url id) "") s.refs)
    cases hpointer : Table.get? (targetKey "" (definitionPointer id)) s.refs with
    | none => simp
    | some name => simp [hs.known id hid hpointer]
  have hsame : ∀ base pointer, s.known? c base pointer = s'.known? c' base pointer := by
    intro base pointer
    unfold State.known?
    simp only [T.aliasKey?_eq, hs.refs]
  cases h with
  | same => exact hsame base pointer
  | document hid => exact (hboth _ hid.mem_keys).trans (hsame _ _)
  | pointer hid => exact (hboth _ hid.mem_keys).symm.trans (hsame _ _)

/-- A target that is met for the first time gets one name under both its keys. -/
theorem refer (T : Twins c c' ds)
    {base pointer base' pointer' : String} (h : Meet c ds base pointer base' pointer')
    (hnone : s.known? c base pointer = none) (name : String)
    {documents documents' : List (String × Json)} (hreads : State.Reads c { s with documents })
    (hreads' : State.Reads c' { s' with documents := documents' }) :
    Matching c c' ds
      ⟨name :: s.names, (targetKey base pointer, name) ::
        ((c.aliasKey? base pointer).map (·, name)).toList ++ s.refs, documents, s.slots, s.bases⟩
      ⟨name :: s'.names, (targetKey base' pointer', name) ::
        ((c'.aliasKey? base' pointer').map (·, name)).toList ++ s'.refs, documents', s'.slots,
        s'.bases⟩ where
  names := by rw [hs.names]
  slots := hs.slots
  refs key := by
    rw [get?_refer, get?_refer, hs.refs key]
    simp only [T.isKey_iff h key]
  known id hid found hfound := by
    dsimp only at hfound ⊢
    rw [get?_refer] at hfound ⊢
    by_cases hpointer : c.IsKey base pointer (targetKey "" (definitionPointer id))
    · have hdocument := document_key_of_pointer_key T.definitions T.plain hid hpointer
      rw [if_pos hpointer] at hfound
      rw [if_pos hdocument, hfound]
    · -- the name is from before, when nothing was known under the keys of this target
      rw [if_neg hpointer] at hfound
      have hdocument := hs.known id hid hfound
      have hnew : ¬ c.IsKey base pointer (targetKey (c.url id) "") := by
        intro hkey
        rw [get?_of_known?_none hnone hkey] at hdocument
        cases hdocument
      rw [if_neg hnew, hdocument]
  reads := hreads
  reads' := hreads'

end Matching

section steps

variable {c c' : Context} {ds : List (String × Json)} {bases bases' : List String}

theorem agree_declare (name : String) (description : Option String) {a a' : Action TypeExpr}
    (h : Agree (InStep c c' ds bases bases') a a') :
    Agree (InStep c c' ds bases bases') (declare name description a)
      (declare name description a') := by
  rintro s s' ⟨hs, hbases⟩
  have hopen := h _ _ ⟨hs.fill (congrArg (· ++ [none]) hs.slots) s.bases s'.bases, hbases⟩
  refine hopen.declare (congrArg List.length hs.slots) (fun t t' d ht => ?_) name description
  have hslots : t.slots.set s.slots.length d = t'.slots.set s.slots.length d := by rw [ht.1.slots]
  exact ⟨ht.1.fill hslots t.bases t'.bases, ht.2⟩

/-- A titled schema gets the same name and is declared under it. -/
theorem agree_titled (title : String) (description : Option String) {a a' : Action TypeExpr}
    (h : Agree (InStep c c' ds bases bases') a a') :
    Agree (InStep c c' ds bases bases')
      (do let name ← uniqueName title; declare name description a)
      (do let name ← uniqueName title; declare name description a') := by
  rintro s s' ⟨hs, hbases⟩
  show Together (declare (freshName s.names (safeName title)) description a)
    { s with names := freshName s.names (safeName title) :: s.names }
    (declare (freshName s'.names (safeName title)) description a')
    { s' with names := freshName s'.names (safeName title) :: s'.names } _
  have hname : freshName s'.names (safeName title) = freshName s.names (safeName title) := by
    rw [hs.names]
  rw [hname]
  exact agree_declare _ _ h _ _ ⟨hs.give _, hbases⟩

theorem agree_within {base base' : String} {a a' : Action TypeExpr}
    (h : Agree (InStep c c' ds (entered base bases) (entered base' bases')) a a') :
    Agree (InStep c c' ds bases bases') (within base a) (within base' a') := by
  rintro s s' ⟨hs, rfl, rfl⟩
  apply Together.within
  have hentered := h _ _ ⟨hs.fill hs.slots _ _, rfl, rfl⟩
  refine hentered.imp fun t t' ht => ⟨ht.1.fill ht.1.slots _ _, ?_, ?_⟩
  · show left base t.bases = s.bases
    rw [ht.2.1, left_entered]
  · show left base' t'.bases = s'.bases
    rw [ht.2.2, left_entered]

def firstReference (c : Context) (inner : Json → Action TypeExpr) (base pointer : String) :
    Action TypeExpr := do
  let schema ← target c base pointer
  let name ← uniqueName (nameHint schema base pointer)
  modify fun s => { s with refs := (targetKey base pointer, name) ::
    ((c.aliasKey? base pointer).map (·, name)).toList ++ s.refs }
  within base (declare name (description? schema) (inner schema))

/-- A reference leads to a known name, or else to one that it gives. -/
theorem run_reference {inner : Json → Action TypeExpr} {r base pointer : String} {s : State}
    (hdeclares : c.options.declaresExternal = true)
    (hbase : c.base s.bases (splitReference r).1 = base)
    (hpointer : (splitReference r).2 = pointer) :
    (reference c inner r).run s =
      (match s.known? c base pointer with
        | some name => return .named name
        | none => firstReference c inner base pointer : Action TypeExpr).run s := by
  subst hbase hpointer
  have hfirst : ∀ base pointer, firstTarget c inner base pointer =
      firstReference c inner base pointer := by
    intro base pointer
    unfold firstTarget firstReference declaredTarget
    simp only [hdeclares, Bool.or_true, if_true]
  rw [run_reference_eq, run_namedTarget, hfirst]
  rfl

/-- A target that is met for the first time gets the same name and is declared under it. -/
theorem together_firstReference (T : Twins c c' ds) {inner inner' : Json → Action TypeExpr}
    (hinner : ∀ bases bases' j j', Alike (Aligned c ds (bases.headD "") (bases'.headD "")) j j' →
      Agree (InStep c c' ds bases bases') (inner j) (inner' j'))
    {s s' : State} (hs : Matching c c' ds s s') {base pointer base' pointer' : String}
    (hmeet : Meet c ds base pointer base' pointer')
    (hempty : base = "" → s.bases.headD "" = "") (hempty' : base' = "" → s'.bases.headD "" = "")
    (hnone : s.known? c base pointer = none) :
    Together (firstReference c inner base pointer) s (firstReference c' inner' base' pointer') s'
      (InStep c c' ds s.bases s'.bases) := by
  obtain ⟨documents, hreads, hrun⟩ := run_target hs.reads base pointer
  obtain ⟨documents', hreads', hrun'⟩ := run_target hs.reads' base' pointer'
  unfold firstReference
  rcases T.part_of_meet hmeet with ⟨e, he, he'⟩ | ⟨j, j', hj, hj', halike, hhint⟩
  · rw [he] at hrun
    rw [he'] at hrun'
    unfold Together
    rw [run_bind_error hrun, run_bind_error hrun']
  · rw [hj] at hrun
    rw [hj'] at hrun'
    apply Together.bind_of_run hrun hrun'
    have hname : freshName s'.names (safeName (nameHint j' base' pointer')) =
        freshName s.names (safeName (nameHint j base pointer)) := by
      rw [hhint, hs.names]
    have hdescription : description? j' = description? j := (halike.text?_eq (by decide)).symm
    show Together (within base (declare (freshName s.names (safeName (nameHint j base pointer)))
        (description? j) (inner j))) _
      (within base' (declare (freshName s'.names (safeName (nameHint j' base' pointer')))
        (description? j') (inner' j'))) _ _
    rw [hname, hdescription]
    -- the targets are compiled inside documents that need not be the same
    refine agree_within (agree_declare _ _ (hinner _ _ j j' ?_)) _ _
      ⟨hs.refer T hmeet hnone _ hreads hreads', rfl, rfl⟩
    rw [headD_entered hempty, headD_entered hempty']
    exact halike

theorem agree_reference (T : Twins c c' ds) {inner inner' : Json → Action TypeExpr}
    (hinner : ∀ bases bases' j j', Alike (Aligned c ds (bases.headD "") (bases'.headD "")) j j' →
      Agree (InStep c c' ds bases bases') (inner j) (inner' j'))
    {r r' : String} (h : Aligned c ds (bases.headD "") (bases'.headD "") r r') :
    Agree (InStep c c' ds bases bases') (reference c inner r) (reference c' inner' r') := by
  rintro s s' ⟨hs, rfl, rfl⟩
  have hmeet := T.meet_of_aligned h
  have hsame := hs.known?_eq T hmeet
  have hdeclares' : c'.options.declaresExternal = true := T.options ▸ T.declares
  unfold Together
  rw [run_reference T.declares rfl rfl, run_reference hdeclares' rfl rfl]
  show Together _ s _ s' _
  rw [hsame]
  cases hknown : s'.known? c' (c'.base s'.bases (splitReference r').1) (splitReference r').2 with
  | some name => exact ⟨rfl, hs, rfl, rfl⟩
  | none =>
    exact together_firstReference T hinner hs hmeet headD_of_base headD_of_base
      (hsame.trans hknown)

/-- Compilations of respelled schemas stay in step. -/
theorem agree_bodyType (T : Twins c c' ds) (bound : Nat) (bases bases' : List String) (j j' : Json)
    (h : Alike (Aligned c ds (bases.headD "") (bases'.headD "")) j j') :
    Agree (InStep c c' ds bases bases') (bodyType c bound j) (bodyType c' bound j') := by
  -- on the bound, because what a schema leads to is compiled with one less
  induction bound generalizing bases bases' j j' with
  | zero => exact agree_throw .nesting
  | succ bound ih =>
    have hlayers : Layers (InStep c c' ds bases bases')
        (Aligned c ds (bases.headD "") (bases'.headD "")) (fun _ => True) c c' (bodyType c bound)
        (bodyType c' bound) :=
      { options := T.options
        inherited := fun _ _ _ _ => trivial
        reference := fun _ _ hr => agree_reference T ih hr
        titled := fun title description {_ _} ha => agree_titled title description ha
        inner := fun k k' _ hk => ih bases bases' k k' hk }
    exact hlayers.agree_schemaType (fun _ _ => trivial) h

end steps

namespace Twins

variable {c c' : Context} {ds : List (String × Json)} (T : Twins c c' ds)

include T

theorem bound_eq : c.bound = c'.bound := by
  unfold Context.bound Context.documents
  simp only [itemsSize, itemsDepth, T.root.size_eq, T.root.depth_eq, T.options]

theorem together_root (name : String) :
    Together (Compile.root c name) State.empty (Compile.root c' name) State.empty
      (InStep c c' ds [] []) := by
  have hdescription : description? c'.root = description? c.root :=
    (T.alike_root.text?_eq (by decide)).symm
  -- nothing is known but the root, which is no definition
  have hstart : ∀ name, Matching c c' ds ⟨[name], [(targetKey "" "", name)], [], [], []⟩
      ⟨[name], [(targetKey "" "", name)], [], [], []⟩ := fun name =>
    { names := rfl
      slots := rfl
      refs := fun _ => rfl
      known := fun id _ found hfound => by
        rw [Table.get?_cons] at hfound
        split at hfound
        · next hkey =>
          have hempty := (eq_of_targetKey_eq (by simp) hkey).2
          exact absurd hempty (definitionPointer_ne_empty id)
        · cases hfound
      reads := reads_empty c
      reads' := reads_empty c' }
  show Together (declare (freshName [] (safeName name)) (description? c.root)
      (bodyType c c.bound c.root)) _
    (declare (freshName [] (safeName name)) (description? c'.root)
      (bodyType c' c'.bound c'.root)) _ _
  rw [hdescription, T.bound_eq]
  exact agree_declare _ _ (agree_bodyType T _ [] [] _ _ T.alike_root) _ _ ⟨hstart _, rfl, rfl⟩

theorem agree_allDefinitions :
    Agree (InStep c c' ds [] []) (allDefinitions c) (allDefinitions c') := by
  unfold allDefinitions
  rw [definitions?_eq T.definitions, definitions?_eq T.definitions', T.bound_eq]
  refine agree_forM fun id => ?_
  have href : Aligned c ds "" "" ("#" ++ definitionPointer id) ("#" ++ definitionPointer id) :=
    .inl ⟨rfl, .inl rfl⟩
  have hreference : Agree (InStep c c' ds [] [])
      (reference c (bodyType c c'.bound) ("#" ++ definitionPointer id))
      (reference c' (bodyType c' c'.bound) ("#" ++ definitionPointer id)) :=
    agree_reference T (agree_bodyType T c'.bound) href
  exact hreference.bind fun _ => agree_pure _

theorem together_program (name : String) :
    Together (program c name) State.empty (program c' name) State.empty (InStep c c' ds [] []) := by
  unfold program
  refine (T.together_root name).bind fun _ t t' ht => ?_
  rw [← T.options]
  split
  · exact T.agree_allDefinitions t t' ht
  · exact ⟨rfl, ht⟩

/-- Both compilations declare the same, or both fail. -/
theorem declarations_eq (name : String) : declarations c name = declarations c' name := by
  have h := T.together_program name
  unfold Together at h
  unfold declarations
  rcases hrun : (program c name).run State.empty with ⟨e | x, t⟩ <;>
    rcases hrun' : (program c' name).run State.empty with ⟨e' | x', t'⟩ <;> rw [hrun, hrun'] at h
  · exact congrArg Except.error h
  · exact h.elim
  · exact h.elim
  · show Except.ok (t.slots.filterMap id) = Except.ok (t'.slots.filterMap id)
    rw [h.2.1.slots]

end Twins

section shared

variable {workDir : String} {o : Options} {ds : List (String × Json)} {root : Json}

/-- A directory without a slash at its end is taken as it is. -/
theorem cwd_shared (h : (o.directory workDir).toList.getLast? ≠ some '/') :
    (Context.shared workDir o ds root).cwd = o.directory workDir := by
  have hdrop : ∀ s : List Char, s.getLast? ≠ some '/' →
      (s.reverse.dropWhile (· == '/')).reverse = s := by
    intro s hs
    rw [List.getLast?_eq_head?_reverse] at hs
    cases hreverse : s.reverse with
    | nil =>
      rw [List.reverse_eq_nil_iff.1 hreverse]
      rfl
    | cons c rest =>
      rw [hreverse] at hs
      have hc : (c == '/') = false := by simpa using hs
      rw [List.dropWhile_cons_of_neg (by simp [hc]), ← hreverse, List.reverse_reverse]
  show String.ofList ((o.directory workDir).toList.reverse.dropWhile (· == '/')).reverse = _
  rw [hdrop _ h, String.ofList_toList]

/-- An id with a slash in front does not come between, because there is none. -/
theorem resolve_interchangeable (hown : o.resolvers = [])
    (hclean : (o.directory workDir).toList.getLast? ≠ some '/')
    (hplain : ∀ id ∈ Table.keys ds, PlainId id) {id : String} {d : Json}
    (h : Interchangeable (.shared workDir o ds root) ds id d) :
    (Context.shared workDir o ds root).options.resolvers.resolve
      ((Context.shared workDir o ds root).url id) = .ok d := by
  have hid := hplain id h.mem_keys
  have hcwd : (Context.shared workDir o ds root).cwd = o.directory workDir := cwd_shared hclean
  have hslashed : Table.get? ("/" ++ id) ds = none := by
    cases hget : Table.get? ("/" ++ id) ds with
    | none => rfl
    | some j =>
      have hmem : "/" ++ id ∈ Table.keys ds := List.mem_map_of_mem (Table.mem_of_get? hget)
      have hslash := (hplain _ hmem).slash
      simp [Text.startsWith, Text.after?] at hslash
  apply resolve_shared hown h.web
  rw [idOf_url hid.web (.inl hcwd), if_pos ⟨hid.slash, hcwd⟩, Resolver.lookup?_slash h.definition,
    hslashed]
  rfl

/-- Documents that differ in the addresses by which they refer to definitions have the same
declarations, or none of them has any. -/
theorem schemaText_readdressed (workDir : String) (o : Options) (ds : List (String × Json))
    (name : String) {root root' : Json} (hown : o.resolvers = [])
    (hdeclares : o.declaresExternal = true)
    (hclean : (o.directory workDir).toList.getLast? ≠ some '/')
    (hplain : ∀ id ∈ Table.keys ds, PlainId id)
    (hroot : root.get? "definitions" = some (.object ds))
    (hroot' : root'.get? "definitions" = some (.object ds))
    (h : Respelled (Readdressed (.shared workDir o ds root) ds) root root') :
    schemaText workDir (o.forDefinitions workDir ds) name root =
      schemaText workDir (o.forDefinitions workDir ds) name root' := by
  have htwins : Twins (.shared workDir o ds root) (.shared workDir o ds root') ds :=
    { options := rfl
      cwd := rfl
      declares := hdeclares
      definitions := hroot
      definitions' := hroot'
      plain := hplain
      resolves := resolve_interchangeable hown hclean hplain
      root := h }
  have hdeclarations := htwins.declarations_eq name
  unfold Context.shared at hdeclarations
  unfold schemaText
  rw [hdeclarations]

def layered : List (String × Json) :=
  [("mode", .object [("type", .string "string")]),
    ("info", .object [("properties", .object [("mode", .object [("$ref", .string "mode#")])])])]

def referring (ds : List (String × Json)) (first second : String) : Json :=
  .object [("properties", .object [("a", .object [("$ref", .string first)]),
    ("b", .object [("$ref", .string second)])]), ("definitions", .object ds)]

theorem respelled_referring {R : String → String → Prop} {ds : List (String × Json)}
    {first second first' second' : String} (h : R first first') (h' : R second second')
    (hds : ∀ r ∈ membersReferences ds, R r r) :
    Respelled R (referring ds first second) (referring ds first' second') := by
  have ha : Respelled R (.object [("$ref", .string first)]) (.object [("$ref", .string first')]) :=
    .object (.ref h .nil)
  have hb : Respelled R (.object [("$ref", .string second)])
      (.object [("$ref", .string second')]) :=
    .object (.ref h' .nil)
  have hproperties : RespelledMembers R
      [("a", .object [("$ref", .string first)]), ("b", .object [("$ref", .string second)])]
      [("a", .object [("$ref", .string first')]), ("b", .object [("$ref", .string second')])] :=
    .cons (fun _ => rfl) ha (.cons (fun _ => rfl) hb .nil)
  have hdefinitions : Respelled R (.object ds) (.object ds) :=
    .object (respelledMembers_self ds hds)
  exact .object (.cons (fun _ => rfl) (.object hproperties)
    (.cons (fun _ => rfl) hdefinitions .nil))

theorem schemaText_readdressed_layered :
    schemaText "/app" (Options.default.forDefinitions "/app" layered) "Root"
        (referring layered "info#" "#/definitions/mode") =
      schemaText "/app" (Options.default.forDefinitions "/app" layered) "Root"
        (referring layered "#/definitions/info" "mode#") := by
  have hplain : ∀ id ∈ Table.keys layered, PlainId id := by
    intro id hid
    have hid : id = "mode" ∨ id = "info" := by simpa [layered, Table.keys] using hid
    rcases hid with rfl | rfl
    · exact ⟨by decide, by decide, by decide, by decide⟩
    · exact ⟨by decide, by decide, by decide, by decide⟩
  let c := Context.shared "/app" .default layered (referring layered "info#" "#/definitions/mode")
  have hinfo : Readdressed c layered "info#" "#/definitions/info" :=
    .inr ⟨"info", _, ⟨rfl, by decide +kernel, by decide +kernel, by decide +kernel⟩, .document⟩
  have hmode : Readdressed c layered "#/definitions/mode" "mode#" :=
    .inr ⟨"mode", _, ⟨rfl, by decide +kernel, by decide +kernel, by decide +kernel⟩, .pointer⟩
  exact schemaText_readdressed "/app" .default layered "Root" rfl rfl (by decide) hplain rfl rfl
    (respelled_referring hinfo hmode fun _ _ => .inl rfl)

def reflexive : List (String × Json) :=
  [("a", .object [("items", .object [("$ref", .string "#")])])]

/-- Not all definitions mean the same under both addresses. -/
theorem not_schemaText_readdressed : ¬ ∀ (workDir : String) (o : Options)
    (ds : List (String × Json)) (name : String) (root root' : Json), o.resolvers = [] →
      (o.directory workDir).toList.getLast? ≠ some '/' → (∀ id ∈ Table.keys ds, PlainId id) →
      root.get? "definitions" = some (.object ds) → root'.get? "definitions" = some (.object ds) →
      Respelled (fun r r' => r = r' ∨ ∃ id ∈ Table.keys ds, Swapped id r r') root root' →
      (schemaText workDir (o.forDefinitions workDir ds) name root).toOption =
        (schemaText workDir (o.forDefinitions workDir ds) name root').toOption := by
  intro hall
  have hplain : ∀ id ∈ Table.keys reflexive, PlainId id := by
    intro id hid
    have hid : id = "a" := by simpa [reflexive, Table.keys] using hid
    subst hid
    exact ⟨by decide, by decide, by decide, by decide⟩
  have heq := hall "/app" .default reflexive "Root" (referring reflexive "a#" "a#")
    (referring reflexive "#/definitions/a" "a#") rfl (by decide) hplain rfl rfl
    (respelled_referring (.inr ⟨"a", by decide, .document⟩) (.inl rfl) fun _ _ => .inl rfl)
  revert heq
  decide +kernel

end shared

end ApiTypes.Compile
