import ApiTypes.Compile.Text
import ApiTypes.Proofs.Compile.Layer
import ApiTypes.Proofs.Compile.Names

namespace ApiTypes.Compile

open TypeScript

/-- Names are given out once and are identifiers, and references lead to names given out. -/
structure State.Named (s : State) : Prop where
  nodup : s.names.Nodup
  identifier : ∀ n ∈ s.names, isIdentifier n.toList
  refs : ∀ e ∈ s.refs, e.2 ∈ s.names

theorem State.Named.give {s : State} {name : String} {refs : List (String × String)} (hs : s.Named)
    (hn : name ∉ s.names) (hid : isIdentifier name.toList) (hrefs : ∀ e ∈ refs, e.2 = name)
    (documents : List (String × Json)) (slots : List (Option Declaration)) (bases : List String) :
    State.Named ⟨name :: s.names, refs ++ s.refs, documents, slots, bases⟩ where
  nodup := List.nodup_cons.2 ⟨hn, hs.nodup⟩
  identifier n hm := by
    obtain rfl | hm := List.mem_cons.1 hm
    · exact hid
    · exact hs.identifier n hm
  refs e he := by
    obtain he | he := List.mem_append.1 he
    · simp [hrefs e he]
    · exact List.mem_cons_of_mem _ (hs.refs e he)

/-- From `s` to `s'` the declarations `ds` and the names `bare` of types without a declaration were
added, and nothing else changed but the tables of references and documents. -/
structure Context.Adds (c : Context) (s s' : State) (ds : List Declaration) (bare : List String) :
    Prop where
  slots : s'.slots = s.slots ++ ds.map some
  names : s'.names.Perm (ds.map Declaration.name ++ (bare ++ s.names))
  mentions : ∀ d ∈ ds, d.type.MentionsOnly s'.names
  bare : c.options.declaresExternal → bare = []

variable {c : Context}

theorem Context.Adds.names_subset {s s' : State} {ds : List Declaration} {bare : List String}
    (h : c.Adds s s' ds bare) : s.names ⊆ s'.names := by
  intro n hn
  exact h.names.mem_iff.2 (by simp [hn])

theorem Context.Adds.trans {s s₁ s₂ : State} {ds ds' : List Declaration} {bare bare' : List String}
    (h : c.Adds s s₁ ds bare) (h' : c.Adds s₁ s₂ ds' bare') :
    c.Adds s s₂ (ds ++ ds') (bare' ++ bare) where
  slots := by rw [h'.slots, h.slots, List.map_append, List.append_assoc]
  names := by
    have hp := h'.names.trans ((h.names.append_left bare').append_left (ds'.map Declaration.name))
    refine hp.trans (List.perm_iff_count.2 fun n => ?_)
    simp only [List.map_append, List.count_append]
    omega
  mentions d hd := by
    obtain hd | hd := List.mem_append.1 hd
    · exact (h.mentions d hd).mono h'.names_subset
    · exact h'.mentions d hd
  bare he := by rw [h.bare he, h'.bare he]; rfl

def closing (c : Context) : Discipline where
  inv := State.Named
  grows s s' := ∃ ds bare, c.Adds s s' ds bare
  error _ := True
  refl s := ⟨[], [], by simp, by simp, by simp, fun _ => rfl⟩
  trans := fun ⟨_, _, h⟩ ⟨_, _, h'⟩ => ⟨_, _, h.trans h'⟩

def mentioning (s : State) : Typing where
  inner _ t := t.MentionsOnly s.names
  led _ t := t.MentionsOnly s.names

section steps

variable {inner : Json → Action TypeExpr}

/-- A name that was just given out is declared; what its type adds comes behind it. -/
theorem ends_declare_named {s : State} {name : String} {refs : List (String × String)}
    {documents : List (String × Json)} {bases : List String} (description : Option String)
    {schema : Json} (hs : s.Named) (hn : name ∉ s.names) (hid : isIdentifier name.toList)
    (hrefs : ∀ e ∈ refs, e.2 = name)
    (hinner : (closing c).Keeps (inner schema) fun t s => t.MentionsOnly s.names) :
    Ends (declare name description (inner schema))
      { s with names := name :: s.names, refs := refs ++ s.refs, documents, bases }
      (fun t s' => s'.Named ∧ (∃ ds bare, c.Adds s s' ds bare) ∧ t.MentionsOnly s'.names)
      fun _ => True := by
  rw [ends_declare]
  refine (hinner _ (hs.give hn hid hrefs documents _ bases)).imp ?_
  rintro t s' ⟨hs', ⟨ds, bare, ha⟩, ht⟩
  have hname : name ∈ s'.names := ha.names_subset List.mem_cons_self
  -- the place was opened before the type was compiled, so the declaration comes first
  refine ⟨⟨hs'.nodup, hs'.identifier, hs'.refs⟩, ⟨⟨name, description, t⟩ :: ds, bare, ?_⟩,
    TypeExpr.mentionsOnly_named hname⟩
  constructor
  · simp [ha.slots]
  · refine ha.names.trans (List.perm_iff_count.2 fun n => ?_)
    simp only [List.map_cons, List.count_append, List.count_cons]
    omega
  · intro d hd
    obtain rfl | hd := List.mem_cons.1 hd
    · exact ht
    · exact ha.mentions d hd
  · exact ha.bare

/-- A target is looked up without any change but to the table of documents. -/
theorem ends_target {s : State} {base pointer : String} {Q : Json → State → Prop}
    (hQ : ∀ j documents, Q j { s with documents }) :
    Ends (target c base pointer) s Q fun _ => True := by
  have hdoc : Ends (document c base) s
      (fun _ s' => ∃ documents, s' = { s with documents }) fun _ => True := by
    unfold document
    split
    · exact ⟨s.documents, rfl⟩
    · simp only [ends_bind, ends_get]
      split
      · exact ⟨s.documents, rfl⟩
      · cases c.options.resolvers.resolve base with
        | error e => trivial
        | ok j => exact ⟨_, rfl⟩
  unfold target
  rw [ends_bind]
  refine hdoc.imp ?_
  rintro j _ ⟨documents, rfl⟩
  split
  · exact hQ _ documents
  · trivial

theorem keeps_reference_closing (hinner : ∀ schema,
      (closing c).Keeps (inner schema) fun t s => t.MentionsOnly s.names) (ref : String) :
    (closing c).Keeps (reference c inner ref) fun t s => t.MentionsOnly s.names := by
  intro s hs
  refine ends_reference ref ?_
    (fun e he => ⟨hs, (closing c).refl s, TypeExpr.mentionsOnly_named (hs.refs e he)⟩)
    fun base pointer => ends_target fun schema documents name refs bases hname hrefs => ?_
  · rintro t s' bases ⟨hs', ⟨ds, bare, ha⟩, ht⟩
    exact ⟨⟨hs'.nodup, hs'.identifier, hs'.refs⟩,
      ⟨ds, bare, ha.slots, ha.names, ha.mentions, ha.bare⟩, ht⟩
  have hn : name ∉ s.names := hname ▸ freshName_not_mem s.names _
  have hid : isIdentifier name.toList :=
    hname ▸ isIdentifier_freshName s.names (isIdentifier_safeName _)
  refine ⟨ends_declare_named _ hs hn hid hrefs (hinner schema), fun hexternal => ?_⟩
  -- the target stands in another document and is not declared: its name stays bare
  refine ⟨hs.give hn hid hrefs documents s.slots bases, ⟨[], [name], ?_⟩,
    TypeExpr.mentionsOnly_named List.mem_cons_self⟩
  exact ⟨by simp, by simp, by simp, fun h => absurd h hexternal⟩

theorem keeps_typeOf_closing (hinner : ∀ schema,
      (closing c).Keeps (inner schema) fun t s => t.MentionsOnly s.names) (schema : Json) :
    (closing c).Keeps (typeOf c inner schema) fun t s => t.MentionsOnly s.names := by
  unfold typeOf
  split
  · exact keeps_reference_closing hinner _
  · next title _ _ =>
    intro s hs
    simp only [ends_bind, ends_uniqueName]
    have hrefs : ∀ e ∈ ([] : List (String × String)), e.2 = freshName s.names (safeName title) := by
      simp
    exact ends_declare_named _ hs (freshName_not_mem _ _)
      (isIdentifier_freshName _ (isIdentifier_safeName title)) hrefs (hinner schema)
  · exact hinner schema

theorem types_closing (hinner : ∀ schema, True → (closing c).Keeps (inner schema)
      fun t s => (mentioning s).OfSchema c schema t) :
    (closing c).Types mentioning (fun _ => True) c inner := by
  have hmentions : ∀ schema,
      (closing c).Keeps (inner schema) fun t s => t.MentionsOnly s.names := by
    intro schema
    refine (hinner schema trivial).mono fun t s _ ht => ?_
    exact ht.compositional (TypeExpr.compositional_mentionsOnly s.names) (fun h => h) fun h => h
  constructor
  · exact fun _ _ _ _ => trivial
  · rintro s s' ⟨ds, bare, ha⟩
    exact ⟨fun ht => ht.mono ha.names_subset, fun ht => ht.mono ha.names_subset⟩
  · exact fun schema _ => keeps_typeOf_closing hmentions schema
  · exact fun _ ref _ _ => keeps_reference_closing hmentions ref

end steps

/-- Compiling a schema gives out names, declares them and mentions no others. -/
theorem keeps_bodyType_closing (bound : Nat) (schema : Json) :
    (closing c).Keeps (bodyType c bound schema) fun t s => t.MentionsOnly s.names := by
  refine (Discipline.keeps_bodyType trivial (fun _ => types_closing) bound schema trivial).mono ?_
  intro t s _ ht
  exact ht.compositional (TypeExpr.compositional_mentionsOnly s.names) (fun h => h) fun h => h

theorem ends_root (name : String) :
    Ends (root c name) State.empty
      (fun _ s => s.Named ∧ ∃ ds bare, c.Adds State.empty s ds bare) fun _ => True := by
  have hempty : State.empty.Named := ⟨List.nodup_nil, by simp [State.empty], by simp [State.empty]⟩
  unfold root
  simp only [ends_bind, ends_uniqueName, ends_modify]
  have hrefs : ∀ e ∈ [(targetKey "" "", freshName [] (safeName name))],
      e.2 = freshName [] (safeName name) := by
    simp
  refine (ends_declare_named _ hempty (freshName_not_mem _ _)
    (isIdentifier_freshName _ (isIdentifier_safeName name)) hrefs
    (keeps_bodyType_closing c.bound c.root)).imp ?_
  rintro t s ⟨hs, ha, -⟩
  exact ⟨hs, ha⟩

theorem keeps_allDefinitions_closing : (closing c).Keeps (allDefinitions c) fun _ _ => True := by
  unfold allDefinitions
  refine Discipline.keeps_forM fun id _ s hs => ?_
  have href : (closing c).Keeps (reference c (bodyType c c.bound) ("#" ++ definitionPointer id))
      fun t s => t.MentionsOnly s.names :=
    keeps_reference_closing (keeps_bodyType_closing c.bound) _
  rw [ends_bind]
  refine (href s hs).imp ?_
  rintro t s' ⟨hs', hg, -⟩
  exact ⟨hs', hg, trivial⟩

theorem ends_program (name : String) :
    Ends (program c name) State.empty
      (fun _ s => s.Named ∧ ∃ ds bare, c.Adds State.empty s ds bare) fun _ => True := by
  unfold program
  rw [ends_bind]
  refine (ends_root name).imp ?_
  rintro _ s ⟨hs, ha⟩
  split
  · refine (keeps_allDefinitions_closing s hs).imp ?_
    rintro _ s' ⟨hs', ha', -⟩
    exact ⟨hs', (closing c).trans ha ha'⟩
  · exact ⟨hs, ha⟩

/-- A compilation that succeeds ends with all its places filled. -/
theorem exists_adds_of_declarations {name : String} {ds : List Declaration}
    (h : declarations c name = .ok ds) :
    ∃ s bare, (program c name).run State.empty = (.ok ⟨⟩, s) ∧ s.Named ∧
      c.Adds State.empty s ds bare := by
  unfold declarations at h
  split at h
  · next s hrun =>
    obtain ⟨hs, ds', bare, ha⟩ := (ends_program name).of_run hrun
    have hds : s.slots.filterMap id = ds' := by
      simp [show s.slots = ds'.map some from ha.slots, List.filterMap_map]
    obtain rfl : ds' = ds := hds.symm.trans (Except.ok.inj h)
    exact ⟨s, bare, hrun, hs, ha⟩
  · cases h

theorem nodup_of_declarations {name : String} {ds : List Declaration}
    (h : declarations c name = .ok ds) : (ds.map Declaration.name).Nodup := by
  obtain ⟨s, bare, -, hs, ha⟩ := exists_adds_of_declarations h
  exact (ha.names.nodup_iff.1 hs.nodup).of_append_left

/-- The declarations of a document are complete and unambiguous: no place is left open, the names
are distinct identifiers, and each name in a type is that of exactly one declaration. -/
theorem declarations_closed (workDir : String) (options : Options) (schema : Json) (name : String)
    {ds : List Declaration} (hexternal : options.declaresExternal = true)
    (h : declarations (.of workDir options schema) name = .ok ds) :
    (∃ s, (program (.of workDir options schema) name).run State.empty = (.ok ⟨⟩, s) ∧
      s.slots = ds.map some) ∧
    (ds.map Declaration.name).Nodup ∧
    (∀ d ∈ ds, isIdentifier d.name.toList) ∧
    ∀ d ∈ ds, ∀ n, d.type.Mentions n → (ds.map Declaration.name).count n = 1 := by
  obtain ⟨s, bare, hrun, hs, ha⟩ := exists_adds_of_declarations h
  have hnodup := nodup_of_declarations h
  have hnames : s.names.Perm (ds.map Declaration.name) := by
    simpa [ha.bare hexternal, State.empty] using ha.names
  refine ⟨⟨s, hrun, ha.slots⟩, hnodup, ?_, ?_⟩
  · intro d hd
    exact hs.identifier _ (hnames.mem_iff.2 (List.mem_map_of_mem hd))
  · intro d hd n hn
    have hmem : n ∈ ds.map Declaration.name := hnames.mem_iff.1 (ha.mentions d hd n hn)
    exact List.count_eq_one_of_mem hnodup hmem

/-- Titles that numbered names use up, and a schema that refers to itself. -/
def clashing : Json :=
  .object [("title", .string "Mode"), ("properties", .object [
    ("a", .object [("title", .string "Mode")]),
    ("b", .object [("title", .string "Mode1"),
      ("items", .object [("$ref", .string "#/properties/b")])])])]

theorem declarations_closed_clashing :
    Options.default.declaresExternal = true ∧
      ∃ ds, declarations (.of "/app" .default clashing) "Mode" = .ok ds ∧
        ds.map Declaration.name = ["Mode", "Mode1", "Mode11", "Mode12"] ∧
        ∀ d ∈ ds, ∀ n, d.type.Mentions n → (ds.map Declaration.name).count n = 1 := by
  have hnames : ((declarations (.of "/app" .default clashing) "Mode").map
      (List.map Declaration.name)).toOption = some ["Mode", "Mode1", "Mode11", "Mode12"] := by
    decide +kernel
  refine ⟨rfl, ?_⟩
  cases h : declarations (.of "/app" .default clashing) "Mode" with
  | error e =>
    rw [h] at hnames
    cases hnames
  | ok ds =>
    rw [h] at hnames
    have hclosed := declarations_closed "/app" .default clashing "Mode" rfl h
    exact ⟨ds, rfl, Option.some.inj hnames, hclosed.2.2.2⟩

end ApiTypes.Compile
