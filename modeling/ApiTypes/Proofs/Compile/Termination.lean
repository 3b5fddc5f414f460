import ApiTypes.Proofs.Compile.Documents
import ApiTypes.Proofs.Compile.InStep
import ApiTypes.Proofs.Compile.Names
import ApiTypes.Proofs.Reference.Addresses

/-!
Compilations end.  A reference is followed only to a target that was not met before, and its key is
made from the documents: there are finitely many.  Between two references the nesting follows a
document.  So no compilation goes through more layers than the bound, whatever refers to whatever.
-/

namespace ApiTypes

namespace Json

open Compile

mutual

theorem length_references_le : ∀ j : Json, (references j).length ≤ size j
  | .array items => length_itemsReferences_le items
  | .object members => length_membersReferences_le members
  | .null | .bool _ | .number _ | .string _ => Nat.le_refl 0

theorem length_itemsReferences_le :
    ∀ items : List Json, (itemsReferences items).length ≤ itemsSize items
  | [] => Nat.le_refl 0
  | j :: items => by
    have hj := length_references_le j
    have hitems := length_itemsReferences_le items
    rw [itemsReferences, itemsSize, List.length_append]
    omega

theorem length_membersReferences_le :
    ∀ members : List (String × Json), (membersReferences members).length ≤ membersSize members
  | [] => Nat.le_refl 0
  | (key, j) :: members => by
    have hj := length_references_le j
    have hmembers := length_membersReferences_le members
    have hself : (if key = "$ref" then j.string?.toList else []).length ≤ 1 := by
      split
      · cases j.string? <;> simp
      · simp
    rw [membersReferences, membersSize, List.length_append, List.length_append]
    omega

end

theorem depth_pos (j : Json) : 0 < depth j := by
  cases j <;> simp [depth]

variable {j k : Json}

theorem references_subset_of_item {items : List Json} (h : j ∈ items) :
    references j ⊆ itemsReferences items ∧ depth j ≤ itemsDepth items := by
  induction items with
  | nil => cases h
  | cons i items ih =>
    rw [itemsReferences, itemsDepth]
    rcases List.mem_cons.1 h with rfl | h
    · exact ⟨List.subset_append_left _ _, Nat.le_max_left _ _⟩
    · obtain ⟨hreferences, hdepth⟩ := ih h
      exact ⟨List.subset_append_of_subset_right _ hreferences,
        Nat.le_trans hdepth (Nat.le_max_right _ _)⟩

theorem references_subset_of_member {key : String} {members : List (String × Json)}
    (h : (key, j) ∈ members) :
    references j ⊆ membersReferences members ∧ depth j ≤ membersDepth members := by
  induction members with
  | nil => cases h
  | cons p members ih =>
    obtain ⟨key', i⟩ := p
    rw [membersReferences, membersDepth]
    rcases List.mem_cons.1 h with he | h
    · obtain ⟨rfl, rfl⟩ := Prod.mk.inj he
      exact ⟨fun r hr => by simp [hr], Nat.le_max_left _ _⟩
    · obtain ⟨hreferences, hdepth⟩ := ih h
      exact ⟨List.subset_append_of_subset_right _ hreferences,
        Nat.le_trans hdepth (Nat.le_max_right _ _)⟩

theorem references_subset_of_part (h : Part j k) : references j ⊆ references k := by
  cases h with
  | item h => exact (references_subset_of_item h).1
  | member h => exact (references_subset_of_member h).1

theorem depth_lt_of_part (h : Part j k) : depth j < depth k := by
  cases h with
  | item h => exact Nat.lt_succ_of_le (references_subset_of_item h).2
  | member h => exact Nat.lt_succ_of_le (references_subset_of_member h).2

theorem references_subset_of_within (h : Within j k) : references j ⊆ references k := by
  induction h with
  | self => exact List.Subset.refl _
  | part _ hp ih => exact List.Subset.trans ih (references_subset_of_part hp)

theorem depth_le_of_within (h : Within j k) : depth j ≤ depth k := by
  induction h with
  | self => exact Nat.le_refl _
  | part _ hp ih => exact Nat.le_trans ih (Nat.le_of_lt (depth_lt_of_part hp))

end Json

namespace Compile

open TypeScript Json

variable {c : Context}

section targets

variable (c)

def Context.references : List String :=
  itemsReferences c.documents

def Context.addresses : List String :=
  "" :: c.references.map fun r => c.url (splitReference r).1

def Context.targets : List String :=
  c.addresses.flatMap fun base => c.references.map fun r => targetKey base (splitReference r).2

def State.isNew (s : State) (key : String) : Bool :=
  !Table.contains key s.refs

def Context.unmet (s : State) : Nat :=
  c.targets.countP s.isNew

/-- The number of targets that the bound provides for. -/
def Context.targetBound : Nat :=
  (itemsSize c.documents + 1) * (itemsSize c.documents + 1)

theorem unmet_le_targetBound (s : State) : c.unmet s ≤ c.targetBound := by
  have hreferences : c.references.length ≤ itemsSize c.documents :=
    length_itemsReferences_le c.documents
  have htargets : c.targets.length = (c.references.length + 1) * c.references.length := by
    simp [Context.targets, Context.addresses, List.length_flatMap, Function.comp_def,
      Nat.add_mul, Nat.add_comm]
  have hle : c.targets.length ≤ c.targetBound := by
    rw [htargets]
    exact Nat.mul_le_mul (by omega) (by omega)
  exact Nat.le_trans List.countP_le_length hle

theorem mem_targets {base r : String} (hbase : base ∈ c.addresses) (hr : r ∈ c.references) :
    targetKey base (splitReference r).2 ∈ c.targets :=
  List.mem_flatMap.2 ⟨base, hbase, List.mem_map_of_mem hr⟩

end targets

section unmet

variable {s s' : State} {new : List (String × String)}

theorem isNew_of_isNew {key : String} (hrefs : s'.refs = new ++ s.refs)
    (h : s'.isNew key = true) : s.isNew key = true := by
  unfold State.isNew Table.contains Table.get? at h ⊢
  rw [hrefs, List.lookup_append] at h
  cases hold : s.refs.lookup key with
  | none => rfl
  | some name =>
    rw [hold] at h
    cases hnew : new.lookup key <;> simp [hnew] at h

/-- A target that is met for the first time is one less to be met. -/
theorem unmet_lt {key name : String} (hkey : key ∈ c.targets) (hnew : s.isNew key = true)
    (hrefs : s'.refs = (key, name) :: new ++ s.refs) : c.unmet s' < c.unmet s := by
  obtain ⟨before, after, htargets⟩ := List.append_of_mem hkey
  have hmet : ¬ s'.isNew key = true := by
    simp [State.isNew, Table.contains, Table.get?, hrefs]
  have hbefore : before.countP s'.isNew ≤ before.countP s.isNew :=
    List.countP_mono_left fun _ _ h => isNew_of_isNew hrefs h
  have hafter : after.countP s'.isNew ≤ after.countP s.isNew :=
    List.countP_mono_left fun _ _ h => isNew_of_isNew hrefs h
  unfold Context.unmet
  rw [htargets, List.countP_append, List.countP_append, List.countP_cons_of_pos hnew,
    List.countP_cons_of_neg hmet]
  omega

end unmet

/-- A schema that a compilation can come to. -/
structure Context.Reaches (c : Context) (schema : Json) : Prop where
  depth : depth schema ≤ itemsDepth c.documents
  references : Json.references schema ⊆ c.references

theorem reaches_of_within {doc j : Json} (hdoc : doc ∈ c.documents) (h : Within j doc) :
    c.Reaches j where
  depth := Nat.le_trans (depth_le_of_within h) (references_subset_of_item hdoc).2
  references :=
    List.Subset.trans (references_subset_of_within h) (references_subset_of_item hdoc).1

theorem reaches_root (c : Context) : c.Reaches c.root :=
  reaches_of_within List.mem_cons_self .self

theorem reaches_of_part {base pointer : String} {j : Json} (h : c.part base pointer = .ok j) :
    c.Reaches j := by
  obtain ⟨doc, hdoc, hwithin⟩ := exists_within_of_part h
  refine reaches_of_within ?_ hwithin
  unfold Context.behind at hdoc
  by_cases hbase : base = ""
  · rw [if_pos hbase] at hdoc
    obtain rfl := Except.ok.inj hdoc
    exact List.mem_cons_self
  · rw [if_neg hbase] at hdoc
    exact List.mem_cons_of_mem _ (Resolvers.mem_documents hdoc)

structure Context.Confined (c : Context) (k : Nat) (s : State) : Prop where
  reads : s.Reads c
  bases : ∀ base ∈ s.bases, base ∈ c.addresses
  unmet : c.unmet s ≤ k

def Context.Same (c : Context) (k : Nat) (s s' : State) : Prop :=
  s = s' ∧ c.Confined k s

section steps

variable {k : Nat} {inner inner' : Json → Action TypeExpr}

theorem Context.Same.mono {k' : Nat} {s s' : State} (h : c.Same k s s') (hk : k ≤ k') :
    c.Same k' s s' :=
  ⟨h.1, h.2.reads, h.2.bases, Nat.le_trans h.2.unmet hk⟩

theorem agree_declare_same {a a' : Action TypeExpr} (h : Agree (c.Same k) a a') (name : String)
    (description : Option String) :
    Agree (c.Same k) (declare name description a) (declare name description a') := by
  rintro s _ ⟨rfl, hs⟩
  refine Together.declare rfl (h _ _ ⟨rfl, hs.reads, hs.bases, hs.unmet⟩) ?_ name description
  rintro t _ d ⟨rfl, ht⟩
  exact ⟨rfl, ht.reads, ht.bases, ht.unmet⟩

theorem agree_titled_same (title : String) (description : Option String)
    {a a' : Action TypeExpr} (h : Agree (c.Same k) a a') :
    Agree (c.Same k) (do let name ← uniqueName title; declare name description a)
      (do let name ← uniqueName title; declare name description a') := by
  rintro s _ ⟨rfl, hs⟩
  exact agree_declare_same h _ _ _ _ ⟨rfl, hs.reads, hs.bases, hs.unmet⟩

theorem agree_within_same {base : String} (hbase : base ∈ c.addresses) {a a' : Action TypeExpr}
    (h : Agree (c.Same k) a a') : Agree (c.Same k) (within base a) (within base a') := by
  rintro s _ ⟨rfl, hs⟩
  have hentered : ∀ b ∈ entered base s.bases, b ∈ c.addresses := by
    unfold entered
    split
    · exact hs.bases
    · exact List.forall_mem_cons.2 ⟨hbase, hs.bases⟩
  apply Together.within
  have hsame : c.Same k { s with bases := entered base s.bases }
      { s with bases := entered base s.bases } :=
    ⟨rfl, hs.reads, hentered, hs.unmet⟩
  refine (h _ _ hsame).imp ?_
  rintro t _ ⟨rfl, ht⟩
  refine ⟨rfl, ht.reads, fun b hb => ht.bases b ?_, ht.unmet⟩
  unfold left at hb
  split at hb
  · exact hb
  · exact List.mem_of_mem_tail hb

/-- A reference stays in step if the schemas that can be targets do so with the targets that are
left once its own is met. -/
theorem together_reference {s : State} {r document pointer base : String} (hs : c.Confined k s)
    (hsplit : splitReference r = (document, pointer)) (hbase : c.base s.bases document = base)
    (haddress : base ∈ c.addresses)
    (hfirst : s.isNew (targetKey base pointer) = true → ∃ k' ≤ k,
      (∀ (s' : State) name new, s'.refs = (targetKey base pointer, name) :: new ++ s.refs →
        c.unmet s' ≤ k') ∧
      ∀ j, c.Reaches j → Agree (c.Same k') (inner j) (inner' j)) :
    Together (reference c inner r) s (reference c inner' r) s (c.Same k) := by
  have hget : (get : Action State).run s = (.ok s, s) := rfl
  unfold reference
  rw [hsplit]
  apply Together.bind_of_run hget hget
  dsimp only
  rw [hbase]
  cases hknown : (Table.get? (targetKey base pointer) s.refs).or
      ((c.aliasKey? base pointer).bind fun key => Table.get? key s.refs) with
  | some name => exact ⟨rfl, rfl, hs⟩
  | none =>
    have hnew : s.isNew (targetKey base pointer) = true := by
      unfold State.isNew Table.contains
      rw [(Option.or_eq_none_iff.1 hknown).1]
      rfl
    obtain ⟨k', hk, hmeet, hinner⟩ := hfirst hnew
    obtain ⟨documents, hreads, hrun⟩ := run_target hs.reads base pointer
    cases hpart : c.part base pointer with
    | error e =>
      rw [hpart] at hrun
      unfold Together
      rw [run_bind_error hrun, run_bind_error hrun]
    | ok schema =>
      rw [hpart] at hrun
      apply Together.bind_of_run hrun hrun
      apply Together.bind_of_run rfl rfl
      apply Together.bind_of_run rfl rfl
      -- the target counts as met before it is compiled
      have hdeclared := fun name => agree_declare_same
        (hinner schema (reaches_of_part hpart)) name (description? schema)
      have hmet : ∀ names name new, c.Confined k' { s with
          names, documents, refs := (targetKey base pointer, name) :: new ++ s.refs } :=
        fun _ _ _ => ⟨hreads, hs.bases, hmeet _ _ _ rfl⟩
      have hstep : ∀ {t t' : State}, c.Same k' t t' → c.Same k t t' := fun h => h.mono hk
      by_cases hempty : base = ""
      · rw [if_pos hempty, if_pos hempty]
        exact (hdeclared _ _ _ ⟨rfl, hmet _ _ _⟩).imp fun _ _ => hstep
      · rw [if_neg hempty, if_neg hempty]
        split
        · have hinside := fun name => agree_within_same haddress (hdeclared name)
          unfold within at hinside
          simp only [if_neg hempty] at hinside
          exact (hinside _ _ _ ⟨rfl, hmet _ _ _⟩).imp fun _ _ => hstep
        · exact ⟨rfl, hstep ⟨rfl, hmet _ _ _⟩⟩

theorem headD_mem_addresses {s : State} (hs : c.Confined k s) : s.bases.headD "" ∈ c.addresses := by
  cases hbases : s.bases with
  | nil => exact List.mem_cons_self
  | cons base bases => exact hs.bases base (by simp [hbases])

/-- The document that a reference of the documents is about is one of theirs. -/
theorem base_mem_addresses {s : State} {r : String} (hs : c.Confined k s) (hr : r ∈ c.references) :
    c.base s.bases (splitReference r).1 ∈ c.addresses := by
  unfold Context.base
  split
  · exact headD_mem_addresses hs
  · exact List.mem_cons_of_mem _ (List.mem_map_of_mem hr)

/-- What a reference leads to is compiled with one target less to be met. -/
theorem agree_reference_same
    (hinner : ∀ k' < k, ∀ j, c.Reaches j → Agree (c.Same k') (inner j) (inner' j)) {r : String}
    (hr : r ∈ c.references) :
    Agree (c.Same k) (reference c inner r) (reference c inner' r) := by
  rintro s _ ⟨rfl, hs⟩
  have haddress := base_mem_addresses hs hr
  have htarget := mem_targets c haddress hr
  apply together_reference hs rfl rfl haddress
  intro hnew
  have hle := hs.unmet
  refine ⟨c.unmet s - 1, by omega, fun s' name new hrefs => ?_, hinner _ ?_⟩
  · have hlt := unmet_lt htarget hnew hrefs
    omega
  · have hlt : c.unmet { s with refs := (targetKey (c.base s.bases (splitReference r).1)
        (splitReference r).2, "") :: [] ++ s.refs } < c.unmet s := unmet_lt htarget hnew rfl
    omega

def Context.Refers (c : Context) (r r' : String) : Prop :=
  r = r' ∧ r ∈ c.references

theorem Context.Reaches.alike {j : Json} (h : c.Reaches j) : Alike c.Refers j j :=
  .inl (respelled_self j fun _ hr => ⟨rfl, h.references hr⟩)

/-- With enough layers for the targets to be met and the nesting of the schema it makes no
difference what comes after the last layer. -/
theorem agree_bodyTypeThen (rest rest' : Json → Action TypeExpr) (bound k : Nat) (j j' : Json)
    (hj : Alike c.Refers j j')
    (hbound : k * (itemsDepth c.documents + 1) + depth j ≤ bound) :
    Agree (c.Same k) (bodyTypeThen c rest bound j) (bodyTypeThen c rest' bound j') := by
  -- on the bound; a layer needs less of it inside the schema, or with one target less to be met
  induction bound generalizing k j j' with
  | zero =>
    have hpos := depth_pos j
    omega
  | succ bound ih =>
    have hlayers : Layers (c.Same k) c.Refers (fun i => depth i < depth j) c c
        (bodyTypeThen c rest bound) (bodyTypeThen c rest' bound) :=
      { options := rfl
        inherited := fun i l hi hl => Nat.lt_trans (depth_lt_of_part hl) hi
        reference := by
          rintro r _ ⟨rfl, hr⟩
          refine agree_reference_same (fun k' hk' i hi => ?_) hr
          have hpos := depth_pos j
          have hdepth := hi.depth
          have hless : (k' + 1) * (itemsDepth c.documents + 1) ≤
              k * (itemsDepth c.documents + 1) := Nat.mul_le_mul_right _ hk'
          rw [Nat.add_mul] at hless
          exact ih k' i i hi.alike (by omega)
        titled := fun title description {_ _} ha => agree_titled_same title description ha
        inner := fun i i' hi h => ih k i i' h (by omega) }
    exact hlayers.agree_schemaType (fun _ hi => depth_lt_of_part hi) hj

end steps

section program

variable (c) (rest rest' : Json → Action TypeExpr)

/-- The layers of a compilation suffice wherever it starts. -/
theorem agree_body {j : Json} (hj : c.Reaches j) :
    Agree (c.Same c.targetBound) (bodyTypeThen c rest c.bound j)
      (bodyTypeThen c rest' c.bound j) := by
  apply agree_bodyTypeThen rest rest' _ _ _ _ hj.alike
  have hdepth := hj.depth
  have hbound : c.bound = (c.targetBound + 1) * (itemsDepth c.documents + 1) := rfl
  rw [hbound, Nat.add_mul]
  omega

theorem together_programBy (name : String) :
    Together (programBy c (bodyTypeThen c rest c.bound) name) State.empty
      (programBy c (bodyTypeThen c rest' c.bound) name) State.empty (c.Same c.targetBound) := by
  have hroot : Together (rootBy c (bodyTypeThen c rest c.bound) name) State.empty
      (rootBy c (bodyTypeThen c rest' c.bound) name) State.empty (c.Same c.targetBound) := by
    unfold rootBy
    apply Together.bind_of_run rfl rfl
    apply Together.bind_of_run rfl rfl
    exact agree_declare_same (agree_body c rest rest' (reaches_root c)) _ _ _ _
      ⟨rfl, reads_empty c, by simp [State.empty], unmet_le_targetBound c _⟩
  have hall : Agree (c.Same c.targetBound) (allDefinitionsBy c (bodyTypeThen c rest c.bound))
      (allDefinitionsBy c (bodyTypeThen c rest' c.bound)) := by
    refine agree_forM fun id => ?_
    rintro s _ ⟨rfl, hs⟩
    -- the layers provide for all targets, so it does not matter how many are left
    have hmeet : ∀ s' : State, c.unmet s' ≤ c.targetBound := unmet_le_targetBound c
    have hreference := together_reference hs (splitReference_pointer (definitionPointer id))
      rfl (headD_mem_addresses hs) fun _ => ⟨c.targetBound, Nat.le_refl _, fun s' _ _ _ => hmeet s',
        fun j hj => agree_body c rest rest' hj⟩
    exact hreference.bind fun _ t t' ht => agree_pure _ t t' ht
  unfold programBy
  refine hroot.bind fun _ s s' hs => ?_
  split
  · exact hall s s' hs
  · exact ⟨rfl, hs⟩

/-- What comes after the last layer makes no difference to the declarations. -/
theorem declarationsBy_bodyTypeThen (name : String) :
    declarationsBy c (bodyTypeThen c rest c.bound) name = declarations c name := by
  rw [← declarationsBy_bodyType, ← bodyTypeThen_nesting]
  have h := together_programBy c rest (fun _ => throw .nesting) name
  unfold Together at h
  unfold declarationsBy
  rcases hrun : (programBy c (bodyTypeThen c rest c.bound) name).run State.empty with ⟨e | x, t⟩ <;>
    rcases hrun' : (programBy c (bodyTypeThen c (fun _ => throw .nesting) c.bound) name).run
      State.empty with ⟨e' | x', t'⟩ <;> rw [hrun, hrun'] at h
  · rw [hrun', h]
  · exact h.elim
  · exact h.elim
  · rw [hrun', h.2.1]

/-- A compilation that succeeds is the same with more layers. -/
theorem run_programBy_add {name : String} {s : State} (more : Nat)
    (h : (program c name).run State.empty = (.ok ⟨⟩, s)) :
    (programBy c (bodyType c (more + c.bound)) name).run State.empty = (.ok ⟨⟩, s) := by
  have htogether := together_programBy c (bodyType c more) (fun _ => throw .nesting) name
  rw [bodyTypeThen_bodyType, bodyTypeThen_nesting, programBy_bodyType] at htogether
  unfold Together at htogether
  rw [h] at htogether
  rcases hrun : (programBy c (bodyType c (more + c.bound)) name).run State.empty with ⟨e | x, t⟩ <;>
    rw [hrun] at htogether
  · exact htogether.elim
  · rw [htogether.2.1]

/-- The only errors are those of targets that are not there. -/
theorem misses_of_declarations {name : String} {e : Error} (h : declarations c name = .error e) :
    c.Misses e := by
  -- the layers are not used up, so what comes after them may be anything without errors
  have hany : ∀ _ : Json, (reading c c.Misses).Keeps (pure (.keyword .unknown) : Action TypeExpr)
      fun _ _ => True := fun _ _ hs => ⟨hs, trivial, trivial⟩
  have hkeeps := keeps_programBy_reading (fun _ he => he)
    (keeps_bodyTypeThen_reading (fun _ he => he) hany c.bound) name State.empty (reads_empty c)
  rw [← declarationsBy_bodyTypeThen c fun _ => pure (.keyword .unknown)] at h
  unfold declarationsBy at h
  unfold Ends at hkeeps
  split at h
  · cases h
  · next e' s hrun =>
    rw [hrun] at hkeeps
    exact Except.error.inj h ▸ hkeeps

end program

theorem ok_or_misses (workDir : String) (o : Options) (name : String) (schema : Json) :
    (∃ text, schemaText workDir o name schema = .ok text) ∨
      ∃ e, (Context.of workDir o schema).Misses e ∧
        schemaText workDir o name schema = .error e := by
  unfold schemaText
  cases hds : declarations (.of workDir o schema) name with
  | error e => exact .inr ⟨e, misses_of_declarations _ hds, rfl⟩
  | ok ds =>
    dsimp only [bind, Except.bind]
    split
    · exact .inl ⟨_, rfl⟩
    · exact .inl ⟨_, rfl⟩

/-- A target that is not there is missed by the resolvers, or by its pointer. -/
theorem error_of_misses {e : Error} (h : c.Misses e) :
    (∃ url, c.options.resolvers.resolve url = .error e) ∨
      ∃ pointer document, e = .invalidPointer pointer document := by
  obtain ⟨base, pointer, hpart⟩ := h
  unfold Context.part at hpart
  -- either the document is not to be had, or the pointer leads nowhere in it
  cases hdoc : c.behind base with
  | error e' =>
    rw [hdoc] at hpart
    obtain rfl := Except.error.inj hpart
    unfold Context.behind at hdoc
    split at hdoc
    · cases hdoc
    · exact .inl ⟨base, hdoc⟩
  | ok doc =>
    rw [hdoc] at hpart
    dsimp only [Except.bind] at hpart
    split at hpart
    · cases hpart
    · exact .inr ⟨_, _, (Except.error.inj hpart).symm⟩

/-- Definitions are found, or they are missed. -/
theorem error_of_resolve_definitions {o : Options} {workDir url : String}
    {ds : List (String × Json)} {e : Error}
    (h : ({ o with resolvers := [] }.forDefinitions workDir ds).resolvers.resolve url = .error e) :
    e = .unresolved url ∨ e = .noResolver url := by
  have hone : ({ o with resolvers := [] }.forDefinitions workDir ds).resolvers =
      [(Options.definitionsResolver, Resolver.ofDefinitions (o.directory workDir) ds)] := rfl
  rw [hone] at h
  unfold Resolvers.resolve at h
  split at h
  · next name r hfind =>
    obtain ⟨-, rfl⟩ := Prod.mk.inj (List.mem_singleton.1 (List.mem_of_find?_eq_some hfind))
    dsimp only [Resolver.ofDefinitions] at h
    split at h
    · cases h
    · exact .inl (Except.error.inj h).symm
  · exact .inr (Except.error.inj h).symm

/-- Every compilation ends.  Its recursion ends within the bound, as what would come after the last
layer is never reached; so there is a text, unless a reference has no target.  Over definitions the
errors are those of references, and each search for a name ends too. -/
theorem schemaText_ends (workDir name : String) (o : Options) (schema : Json) :
    (∀ rest, declarationsBy (.of workDir o schema) (bodyTypeThen (.of workDir o schema) rest
      (Context.of workDir o schema).bound) name = declarations (.of workDir o schema) name) ∧
    ((∃ text, schemaText workDir o name schema = .ok text) ∨
      ∃ e, (Context.of workDir o schema).Misses e ∧ schemaText workDir o name schema = .error e) ∧
    (∀ ds, (∃ text, schemaText workDir ({ o with resolvers := [] }.forDefinitions workDir ds) name
        schema = .ok text) ∨
      ∃ e, schemaText workDir ({ o with resolvers := [] }.forDefinitions workDir ds) name schema =
        .error e ∧ ((∃ url, e = .unresolved url) ∨ (∃ url, e = .noResolver url) ∨
          ∃ pointer document, e = .invalidPointer pointer document)) ∧
    ∀ names hint, ∃ k ≤ names.length, freshName names hint = candidate hint k ∧
      candidate hint k ∉ names ∧ ∀ i < k, candidate hint i ∈ names := by
  refine ⟨fun rest => declarationsBy_bodyTypeThen _ rest name, ok_or_misses workDir o name schema,
    fun ds => ?_, exists_freshName⟩
  rcases ok_or_misses workDir ({ o with resolvers := [] }.forDefinitions workDir ds) name schema
    with hok | ⟨e, hmisses, he⟩
  · exact .inl hok
  refine .inr ⟨e, he, ?_⟩
  rcases error_of_misses hmisses with ⟨url, hurl⟩ | hpointer
  · rcases error_of_resolve_definitions hurl with rfl | rfl
    · exact .inl ⟨url, rfl⟩
    · exact .inr (.inl ⟨url, rfl⟩)
  · exact .inr (.inr hpointer)

end Compile

end ApiTypes
