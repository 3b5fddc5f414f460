import ApiTypes.Proofs.Compile.Blocks
import ApiTypes.Proofs.Compile.Termination
import ApiTypes.Proofs.Document.Extended

namespace ApiTypes.Compile

open TypeScript

section runs

variable {c : Context} {s t : State}

theorem exists_of_run_declare {name : String} {description : Option String}
    {a : Action TypeExpr} {x : TypeExpr} (h : (declare name description a).run s = (.ok x, t)) :
    ∃ u s₁, a.run { s with slots := s.slots ++ [none] } = (.ok u, s₁) ∧
      t = { s₁ with slots := s₁.slots.set s.slots.length (some ⟨name, description, u⟩) } := by
  have hget : (get : Action State).run s = (.ok s, s) := rfl
  unfold declare at h
  rw [run_bind_ok hget] at h
  obtain ⟨_, s₀, hopen, h⟩ := exists_of_run_bind_ok h
  obtain rfl : { s with slots := s.slots ++ [none] } = s₀ := congrArg Prod.snd hopen
  obtain ⟨u, s₁, hu, h⟩ := exists_of_run_bind_ok h
  exact ⟨u, s₁, hu, (congrArg Prod.snd h).symm⟩

/-- Without further definitions a compilation is that of the root. -/
theorem exists_of_run_programBy {body : Json → Action TypeExpr} {name : String}
    (hunreachable : c.options.unreachableDefinitions = false)
    (h : (programBy c body name).run State.empty = (.ok ⟨⟩, t)) :
    ∃ u s₁, (body c.root).run (.rooted (safeName name)) = (.ok u, s₁) ∧
      t = { s₁ with slots := s₁.slots.set 0 (some ⟨safeName name, description? c.root, u⟩) } := by
  unfold programBy at h
  obtain ⟨x, s₀, hroot, h⟩ := exists_of_run_bind_ok h
  rw [hunreachable, if_neg Bool.false_ne_true] at h
  obtain rfl : s₀ = t := congrArg Prod.snd h
  exact exists_of_run_declare
    (s := ⟨[safeName name], [(targetKey "" "", safeName name)], [], [], []⟩) hroot

/-- A closed object schema is compiled by compiling its properties in turn. -/
theorem exists_of_run_exact {ps members : List (String × Json)} (hexact : Exact ps members)
    {bound : Nat} {u : TypeExpr} (h : (bodyType c bound (.object members)).run s = (.ok u, t)) :
    ∃ inner ms, bound = inner + 1 ∧ u = .object ms none ∧
      (ps.mapM (requiredMember c (bodyType c inner))).run s = (.ok ms, t) := by
  cases bound with
  | zero => cases h
  | succ inner =>
    rw [bodyType, schemaType_of_exact hexact] at h
    obtain ⟨ms, s₁, hms, h⟩ := exists_of_run_bind_ok h
    obtain ⟨hu, rfl⟩ := Prod.mk.inj h
    exact ⟨inner, ms, rfl, (Except.ok.inj hu).symm, hms⟩

/-- What is done for the last item comes after what is done for the others. -/
theorem exists_of_run_mapM_concat {α β : Type} {f : α → Action β} {xs : List α} {x : α}
    {ys zs : List β} {s₁ : State} (hxs : (xs.mapM f).run s = (.ok ys, s₁))
    (h : ((xs ++ [x]).mapM f).run s = (.ok zs, t)) :
    ∃ y, (f x).run s₁ = (.ok y, t) ∧ zs = ys ++ [y] := by
  rw [List.mapM_append, run_bind_ok hxs, List.mapM_cons, List.mapM_nil, bind_assoc] at h
  obtain ⟨y, s₂, hy, h⟩ := exists_of_run_bind_ok h
  rw [pure_bind, pure_bind] at h
  obtain ⟨hzs, rfl⟩ := Prod.mk.inj h
  exact ⟨y, hy, (Except.ok.inj hzs).symm⟩

end runs

section concat

open Document

variable {c c' : Context} {apart : List String} {bound : Nat}

theorem repeats_requiredMember (h : c.Covers c' apart) (p : String × Json) :
    Repeats apart (requiredMember c (bodyType c bound) p)
      (requiredMember c' (bodyType c' bound) p) := by
  have hlayer := simulates_repeating h fun _ _ => repeats_bodyType h bound
  exact (repeating apart).rel_map (hlayer.typeOf trivial)
    fun t => (⟨p.1, t, false, propertyDescription? p.2⟩ : Member TypeExpr)

theorem keeps_requiredMember_closing (c : Context) (bound : Nat) (p : String × Json) :
    (closing c).Keeps (requiredMember c (bodyType c bound) p) fun m _ => m.name = p.1 := by
  have htype := keeps_typeOf_closing (keeps_bodyType_closing (c := c) bound) p.2
  refine (Discipline.keeps_map htype).mono ?_
  rintro _ s - ⟨t, -, rfl⟩
  rfl

theorem eq_cons_of_filled {slots : List (Option Declaration)} {d : Declaration}
    {rest ds : List Declaration} (hslots : slots = none :: rest.map some)
    (h : slots.set 0 (some d) = ds.map some) : ds = d :: rest := by
  rw [hslots, List.set_cons_zero, ← List.map_cons] at h
  exact (List.map_injective_iff.2 (fun _ _ => Option.some.inj) h).symm

/-- The root and its places are filled with one more member, and what was declared without it comes
first. -/
theorem exists_declarations_concat {defs nodes : List (String × Json)} {p : String × Json}
    (hcovers : c.Covers c' apart) (hroot : c.root = .object (rootMembers defs nodes))
    (hroot' : c'.root = .object (rootMembers defs (nodes ++ [p])))
    (hunreachable : c.options.unreachableDefinitions = false)
    (hspared : Spared apart (.rooted (safeName rootName))
      ((program c rootName).run State.empty).2)
    {ds ds' : List Declaration} (h : declarations c rootName = .ok ds)
    (h' : declarations c' rootName = .ok ds') :
    ∃ ms m rest more, ds = ⟨"API", none, .object ms none⟩ :: rest ∧
      ds' = ⟨"API", none, .object (ms ++ [m]) none⟩ :: (rest ++ more) ∧ m.name = p.1 := by
  have hexact : ∀ nodes, Exact nodes (rootMembers defs nodes) := fun nodes =>
    (exact_objectNode (some rootName) (some nodes)).insert (by decide) (.object defs)
  obtain ⟨s, _, hrun, -, hs⟩ := exists_adds_of_declarations h
  obtain ⟨s', _, hrun', -, hs'⟩ := exists_adds_of_declarations h'
  rw [hrun] at hspared
  -- with the layers of both, the two compilations go through the same number of them
  have hmore := run_programBy_add c c'.bound hrun
  have hmore' := run_programBy_add c' c.bound hrun'
  rw [Nat.add_comm] at hmore
  obtain ⟨u, s₁, hbody, rfl⟩ := exists_of_run_programBy hunreachable hmore
  obtain ⟨u', s₂, hbody', rfl⟩ := exists_of_run_programBy (hcovers.options ▸ hunreachable) hmore'
  rw [hroot] at hbody
  rw [hroot'] at hbody'
  obtain ⟨inner, ms, hbound, rfl, hms⟩ := exists_of_run_exact (hexact nodes) hbody
  obtain ⟨inner', ms', hbound', rfl, hms'⟩ := exists_of_run_exact (hexact _) hbody'
  obtain rfl : inner = inner' := by omega
  have hrepeats : Repeats apart (nodes.mapM (requiredMember c (bodyType c inner)))
      (nodes.mapM (requiredMember c' (bodyType c' inner))) :=
    (repeating apart).rel_mapM fun q _ => repeats_requiredMember hcovers q
  have hfirst : (nodes.mapM (requiredMember c' (bodyType c' inner))).run
      (.rooted (safeName rootName)) = (.ok ms, s₁) := (hrepeats _ _ _ hms).2 hspared
  obtain ⟨m, hm, rfl⟩ := exists_of_run_mapM_concat hfirst hms'
  -- what is declared comes behind what there is
  obtain ⟨hs₁, ⟨rest, bare, ha⟩, -⟩ :=
    (keeps_bodyType_closing _ _ _ (named_rooted rootName)).of_run hbody
  obtain ⟨-, ⟨more, bare', ha'⟩, hname⟩ :=
    (keeps_requiredMember_closing c' inner p s₁ hs₁).of_run hm
  have hrootName : safeName rootName = "API" := by decide +kernel
  have hdescription : ∀ nodes, description? (.object (rootMembers defs nodes)) = none :=
    fun _ => rfl
  refine ⟨ms, m, rest, more, ?_, ?_, hname⟩
  · have hfilled := eq_cons_of_filled ha.slots hs.slots
    rwa [hroot, hdescription, hrootName] at hfilled
  · have hslots : s₂.slots = none :: (rest ++ more).map some := by
      rw [ha'.slots, ha.slots, List.map_append]
      rfl
    have hfilled := eq_cons_of_filled hslots hs'.slots
    rwa [hroot', hdescription, hrootName] at hfilled

end concat

section routes

open Document

variable {ignoreHead : Bool} {registry : Naming.Registry} {rs : Route.Routes}

theorem holdsObjects_paths (hrs : (rs.map Prod.fst).Nodup) :
    HoldsObjects (paths ignoreHead registry rs).1 := by
  intro key j hget
  obtain ⟨e, -, -, title, hnode⟩ :=
    (forall₂_paths hrs).exists_left (Table.mem_of_get? hget)
  exact ⟨_, hnode⟩

def Context.ReadsPaths (c : Context) : Prop :=
  Table.contains (targetKey "" "/properties") ((program c rootName).run State.empty).2.refs

/-- The table of paths is set apart if no reference to it was met. -/
theorem exists_covers {c c' : Context} {defs nodes more : List (String × Json)}
    (hroot : c.root = .object (rootMembers defs nodes))
    (hroot' : c'.root = .object (rootMembers defs (nodes ++ more)))
    (hoptions : c'.options = c.options) (hcwd : c'.cwd = c.cwd)
    (halike : c.ReadsPaths → ReadAlike (.object nodes) (.object (nodes ++ more))) :
    ∃ apart, c.Covers c' apart ∧ Spared apart (.rooted (safeName rootName))
      ((program c rootName).run State.empty).2 := by
  have hwhole : Table.contains (targetKey "" "") (State.rooted (safeName rootName)).refs := rfl
  by_cases hreads : c.ReadsPaths
  · refine ⟨[""], covers_append hroot hroot' hoptions hcwd List.mem_cons_self
      (fun _ => halike hreads), fun pointer hpointer _ => ?_⟩
    rw [List.mem_singleton.1 hpointer]
    exact hwhole
  · refine ⟨["", "/properties"], covers_append hroot hroot' hoptions hcwd List.mem_cons_self
      (fun h => absurd (by simp) h), fun pointer hpointer hmet => ?_⟩
    rcases List.mem_cons.1 hpointer with rfl | hpaths
    · exact hwhole
    · rw [List.mem_singleton.1 hpaths] at hmet
      exact absurd hmet hreads

/-- A route behind the others adds a member to the interface of the application, behind its other
members, and declarations behind the others; all else is the same to the letter.  Only a reference
that reads the table of paths as a schema can see the difference, if the new path is a keyword that
counts there. -/
theorem routes_concat (workDir : String) {path : String} {route : List Route.Record}
    (defs : List (String × Json)) {options : Options} {compiled compiled' : Compiled}
    (hsorted : (rs ++ [(path, route)]).Pairwise fun a b => a.1 < b.1)
    (hunreachable : options.unreachableDefinitions = false)
    (h : (routes workDir rs defs ignoreHead options registry).1 = .ok compiled)
    (h' : (routes workDir (rs ++ [(path, route)]) defs ignoreHead options registry).1 =
      .ok compiled')
    (hpaths :
      (Context.of workDir (options.forDefinitions workDir defs) compiled.schema).ReadsPaths →
        ¬ Heeded (rs.map Prod.fst) path) :
    ∃ ms m rest more,
      declarations (.of workDir (options.forDefinitions workDir defs) compiled.schema) rootName =
        .ok (⟨"API", none, .object ms none⟩ :: rest) ∧
      declarations (.of workDir (options.forDefinitions workDir defs) compiled'.schema) rootName =
        .ok (⟨"API", none, .object (ms ++ [m]) none⟩ :: (rest ++ more)) ∧
      m.name = path ∧
      compiled.text.toList = (aliasBlocks rest).flatten ++
        ['\n'].intercalate (rootBlock (ms.map memberLines) :: interfaceBlocks rest) ∧
      compiled'.text.toList = (aliasBlocks rest ++ aliasBlocks more).flatten ++
        ['\n'].intercalate (rootBlock (ms.map memberLines ++ [memberLines m]) ::
          (interfaceBlocks rest ++ interfaceBlocks more)) := by
  have hnodup := nodup_of_sorted hsorted
  obtain ⟨hpairwise, -, hlast⟩ := List.pairwise_append.1 hsorted
  have hrs : (rs.map Prod.fst).Nodup := nodup_of_sorted hpairwise
  obtain ⟨ds, hds, rfl⟩ := compiled_of_routes h
  obtain ⟨ds', hds', rfl⟩ := compiled_of_routes h'
  obtain ⟨node, hnode⟩ := exists_paths_concat hnodup
  rw [build_eq, hnode] at hds'
  rw [build_eq] at hds hpaths
  -- only where the table of paths is read does it matter what it says as a schema
  have halike : (Context.of workDir (options.forDefinitions workDir defs)
      (.object (rootMembers defs (paths ignoreHead registry rs).1))).ReadsPaths →
        ReadAlike (.object (paths ignoreHead registry rs).1)
          (.object ((paths ignoreHead registry rs).1 ++ [(path, .object node)])) := by
    intro hreads
    have hkeys : Table.keys (paths ignoreHead registry rs).1 = rs.map Prod.fst := keys_paths hrs
    refine readAlike_concat (holdsObjects_paths hrs) (fun key hkey => ?_) (hkeys ▸ hpaths hreads)
    rw [hkeys] at hkey
    obtain ⟨e, he, rfl⟩ := List.mem_map.1 hkey
    exact hlast e he _ List.mem_cons_self
  have hroot : ∀ nodes, (Context.of workDir (options.forDefinitions workDir defs)
      (.object (rootMembers defs nodes))).root = .object (rootMembers defs nodes) := fun _ => rfl
  obtain ⟨apart, hcovers, hspared⟩ := exists_covers (hroot _) (hroot _) rfl rfl halike
  obtain ⟨ms, m, rest, more, rfl, rfl, hname⟩ :=
    exists_declarations_concat hcovers (hroot _) (hroot _) hunreachable hspared hds hds'
  refine ⟨ms, m, rest, more, hds, ?_, hname, ?_, ?_⟩
  · rw [build_eq, hnode]
    exact hds'
  · rw [String.toList_ofList, separate_declarationsText_root]
  · rw [String.toList_ofList, separate_declarationsText_root, aliasBlocks_append,
      interfaceBlocks_append, List.map_append]
    rfl

/-- A body that is what the table of paths says as a schema. -/
def readingRoutes : Route.Routes :=
  [("/", [⟨"/", .one "POST", some { Route.Schema.empty with
    body := some (.object [("$ref", .string "#/properties")]) }⟩])]

def plainRoute (path : String) : String × List Route.Record :=
  (path, [⟨path, .one "GET", none⟩])

theorem exists_compiled (rs : Route.Routes)
    (hok : (routes "/app" rs [] false .default .empty).1.toOption.isSome) :
    ∃ compiled, (routes "/app" rs [] false .default .empty).1 = .ok compiled :=
  Except.exists_of_isSome_toOption hok

def askDeclarations {α : Type} (rs : Route.Routes) (f : List Declaration → α) : Option α :=
  ((declarations (.of "/app" (Options.default.forDefinitions "/app" [])
    (build rs [] false .empty).1) rootName).map f).toOption

theorem askDeclarations_eq {α : Type} {compiled : Compiled} {ds : List Declaration}
    (h : (routes "/app" rs [] false .default .empty).1 = .ok compiled)
    (hds : declarations (.of "/app" (Options.default.forDefinitions "/app" []) compiled.schema)
      rootName = .ok ds) (f : List Declaration → α) : askDeclarations rs f = some (f ds) := by
  obtain ⟨_, -, rfl⟩ := compiled_of_routes h
  unfold askDeclarations
  rw [hds]
  rfl

theorem routes_concat_reading :
    ∃ compiled compiled',
      (routes "/app" readingRoutes [] false .default .empty).1 = .ok compiled ∧
      (routes "/app" (readingRoutes ++ [plainRoute "/users"]) [] false .default .empty).1 =
        .ok compiled' ∧
      ∃ (ms : List (Member TypeExpr)) (m : Member TypeExpr) (rest more : List Declaration),
        m.name = "/users" ∧ rest.map Declaration.name = ["RootPost", "Properties"] ∧
        more.map Declaration.name = ["UsersGet"] ∧
        compiled.text.toList = (aliasBlocks rest).flatten ++
          ['\n'].intercalate (rootBlock (ms.map memberLines) :: interfaceBlocks rest) ∧
        compiled'.text.toList = (aliasBlocks rest ++ aliasBlocks more).flatten ++
          ['\n'].intercalate (rootBlock (ms.map memberLines ++ [memberLines m]) ::
            (interfaceBlocks rest ++ interfaceBlocks more)) := by
  obtain ⟨compiled, h⟩ := exists_compiled readingRoutes (by decide +kernel)
  obtain ⟨compiled', h'⟩ := exists_compiled (readingRoutes ++ [plainRoute "/users"])
    (by decide +kernel)
  obtain ⟨ms, m, rest, more, hds, hds', hname, htext, htext'⟩ :=
    routes_concat "/app" [] (by decide) rfl h h' fun _ => by decide
  have hnames : askDeclarations readingRoutes (List.map Declaration.name) =
      some ["API", "RootPost", "Properties"] := by
    decide +kernel
  have hnames' : askDeclarations (readingRoutes ++ [plainRoute "/users"])
      (List.map Declaration.name) = some ["API", "RootPost", "Properties", "UsersGet"] := by
    decide +kernel
  rw [askDeclarations_eq h hds] at hnames
  rw [askDeclarations_eq h' hds'] at hnames'
  have hrest : rest.map Declaration.name = ["RootPost", "Properties"] :=
    (List.cons.inj (Option.some.inj hnames)).2
  have hmore : (rest ++ more).map Declaration.name = ["RootPost", "Properties", "UsersGet"] :=
    (List.cons.inj (Option.some.inj hnames')).2
  rw [List.map_append, hrest] at hmore
  exact ⟨compiled, compiled', h, h', ms, m, rest, more, hname, hrest,
    List.append_cancel_left hmore, htext, htext'⟩

/-- With `properties` as a path the table of paths becomes an interface, and its alias is gone. -/
theorem not_routes_concat : ¬ ∀ (workDir path : String) (rs : Route.Routes)
    (route : List Route.Record) (defs : List (String × Json)) (ignoreHead : Bool)
    (options : Options) (registry : Naming.Registry) (compiled compiled' : Compiled),
      (rs ++ [(path, route)]).Pairwise (fun a b => a.1 < b.1) →
      options.unreachableDefinitions = false →
      (routes workDir rs defs ignoreHead options registry).1 = .ok compiled →
      (routes workDir (rs ++ [(path, route)]) defs ignoreHead options registry).1 =
        .ok compiled' →
      ∃ ds ds',
        declarations (.of workDir (options.forDefinitions workDir defs) compiled.schema) rootName =
          .ok ds ∧
        declarations (.of workDir (options.forDefinitions workDir defs) compiled'.schema) rootName =
          .ok ds' ∧
        (aliasBlocks ds).flatten <+: (aliasBlocks ds').flatten := by
  intro hall
  obtain ⟨compiled, h⟩ := exists_compiled readingRoutes (by decide +kernel)
  obtain ⟨compiled', h'⟩ := exists_compiled (readingRoutes ++ [plainRoute "properties"])
    (by decide +kernel)
  obtain ⟨ds, ds', hds, hds', hprefix⟩ := hall "/app" _ _ _ [] false .default .empty compiled
    compiled' (by decide) rfl h h'
  -- a path named `properties` makes an object type of what was unknown before
  have haliases : askDeclarations readingRoutes (fun ds => (aliasBlocks ds).flatten) =
      some "\nexport type Properties = unknown;\n".toList := by
    decide +kernel
  have haliases' : askDeclarations (readingRoutes ++ [plainRoute "properties"])
      (fun ds => (aliasBlocks ds).flatten) = some [] := by
    decide +kernel
  rw [askDeclarations_eq h hds] at haliases
  rw [askDeclarations_eq h' hds'] at haliases'
  rw [Option.some.inj haliases, Option.some.inj haliases'] at hprefix
  exact absurd (List.prefix_nil.1 hprefix) (by decide)

end routes

end ApiTypes.Compile
