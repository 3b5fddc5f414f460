import ApiTypes.Proofs.Compile.Beginning
import ApiTypes.Proofs.Document.Faithful

namespace ApiTypes

namespace Naming

/-- A path in which the first wildcard segment reads `all`. -/
def spelledOut (path : String) : List Char :=
  Text.replaceFirst ['/', '*'] ['/', 'a', 'l', 'l'] path.toList

/-- The name of the endpoint at `path` behind `earlier` ones.  It is numbered if there is an earlier
path of the same words. -/
def nameAfter (earlier : List String) (path : String) : String :=
  if path = "" then "Empty"
  else if (spelledOut path).any Char.isAlphanum then
    Compile.candidate (baseName path) (earlier.countP fun p => baseName p = baseName path)
  else "Root"

def namesAfter (earlier : List String) : List String → List String
  | [] => []
  | path :: paths => nameAfter earlier path :: namesAfter (earlier ++ [path]) paths

def Registry.handOut (r : Registry) : List String → List String × Registry
  | [] => ([], r)
  | path :: paths =>
    let (name, r) := r.endpointName path
    let (names, r) := r.handOut paths
    (name :: names, r)

def Registry.Counts (r : Registry) (paths : List String) : Prop :=
  ∀ base, base ≠ "" → r.count base = paths.countP fun p => baseName p = base

theorem counts_empty : Registry.empty.Counts [] :=
  fun _ _ => rfl

theorem joinWords_eq_nil_iff (keep : Char → Bool) (wordStart : Bool) (s : List Char) :
    joinWords keep wordStart s = [] ↔ s.any keep = false := by
  induction s generalizing wordStart with
  | nil => simp [joinWords]
  | cons c s ih =>
    unfold joinWords
    by_cases hc : keep c
    · simp [hc]
    · simp [hc, ih]

/-- There are no words in a path without letters and digits. -/
theorem baseName_eq_empty_iff (path : String) :
    baseName path = "" ↔ (spelledOut path).any Char.isAlphanum = false := by
  unfold baseName normalizeTitle
  rw [String.toList_ofList, ← String.toList_inj, String.toList_ofList]
  exact joinWords_eq_nil_iff _ _ _

theorem baseName_empty : baseName "" = "" :=
  rfl

theorem candidate_eq (base : String) (n : Nat) :
    Compile.candidate base n = if n = 0 then base else base ++ toString n := by
  cases n with
  | zero => rfl
  | succ n => rfl

variable {r : Registry} {earlier paths paths' : List String} {path path' : String}

/-- A path without words is named without regard to others. -/
theorem nameAfter_of_baseName_empty (h : baseName path = "") (earlier : List String) :
    nameAfter earlier path = nameAfter [] path := by
  simp [nameAfter, (baseName_eq_empty_iff path).1 h]

/-- Only how often its own words came before matters for a path. -/
theorem nameAfter_congr {earlier' : List String}
    (h : earlier.countP (fun p => baseName p = baseName path) =
      earlier'.countP fun p => baseName p = baseName path) :
    nameAfter earlier path = nameAfter earlier' path := by
  unfold nameAfter
  rw [h]

theorem nameAfter_concat_of_ne (h : baseName path' ≠ baseName path) :
    nameAfter (earlier ++ [path']) path = nameAfter earlier path := by
  apply nameAfter_congr
  simp [List.countP_append, h]

theorem nameAfter_of_baseName_ne (h : baseName path ≠ "") (earlier : List String) :
    nameAfter earlier path =
      Compile.candidate (baseName path) (earlier.countP fun p => baseName p = baseName path) := by
  have hpath : path ≠ "" := by
    rintro rfl
    exact h baseName_empty
  have hany : (spelledOut path).any Char.isAlphanum = true :=
    Bool.eq_true_of_not_eq_false (mt (baseName_eq_empty_iff path).2 h)
  unfold nameAfter
  rw [if_neg hpath, if_pos hany]

/-- A path with words is numbered by how often its own words were counted. -/
theorem Registry.endpointName_of_baseName_ne (r : Registry) (h : baseName path ≠ "") :
    r.endpointName path =
      (Compile.candidate (baseName path) (r.count (baseName path)), r.record (baseName path)) := by
  have hpath : path ≠ "" := by
    rintro rfl
    exact h baseName_empty
  unfold Registry.endpointName
  rw [if_neg hpath]
  dsimp only
  rw [if_neg h, candidate_eq]

/-- One name: it is the one behind the paths that were counted, and its path is counted too. -/
theorem Registry.Counts.endpointName (h : r.Counts earlier) (path : String) :
    (r.endpointName path).1 = nameAfter earlier path ∧
      (r.endpointName path).2.Counts (earlier ++ [path]) := by
  have huncounted : baseName path = "" → r.Counts (earlier ++ [path]) := by
    intro hempty base hbase
    have hne : ¬ baseName path = base := fun he => hbase (he.symm.trans hempty)
    simp [List.countP_append, hne, h base hbase]
  by_cases hword : baseName path = ""
  · have hname : r.endpointName path = (nameAfter earlier path, r) := by
      unfold Registry.endpointName nameAfter
      rw [(baseName_eq_empty_iff path).1 hword]
      dsimp only
      rw [if_pos hword]
      split <;> rfl
    rw [hname]
    exact ⟨rfl, huncounted hword⟩
  · rw [r.endpointName_of_baseName_ne hword, nameAfter_of_baseName_ne hword, h _ hword]
    refine ⟨rfl, fun base hbase => ?_⟩
    rw [Registry.count_record, List.countP_append, h base hbase, h _ hword]
    -- one more path of its own base, none of any other
    by_cases hsame : base = baseName path
    · subst hsame
      simp
    · simp [hsame, Ne.symm hsame]

/-- Any number of names. -/
theorem Registry.Counts.handOut (h : r.Counts earlier) (paths : List String) :
    (r.handOut paths).1 = namesAfter earlier paths ∧
      (r.handOut paths).2.Counts (earlier ++ paths) := by
  induction paths generalizing r earlier with
  | nil => exact ⟨rfl, (List.append_nil earlier).symm ▸ h⟩
  | cons path paths ih =>
    obtain ⟨hname, hcounts⟩ := h.endpointName path
    obtain ⟨hnames, hcounts⟩ := ih hcounts
    refine ⟨congrArg₂ List.cons hname hnames, ?_⟩
    rw [List.append_cons]
    exact hcounts

@[simp] theorem length_namesAfter (earlier paths : List String) :
    (namesAfter earlier paths).length = paths.length := by
  induction paths generalizing earlier with
  | nil => rfl
  | cons path paths ih => exact congrArg Nat.succ (ih _)

theorem namesAfter_append (earlier paths paths' : List String) :
    namesAfter earlier (paths ++ paths') =
      namesAfter earlier paths ++ namesAfter (earlier ++ paths) paths' := by
  induction paths generalizing earlier with
  | nil => simp [namesAfter]
  | cons path paths ih => simp [namesAfter, ih]

theorem namesAfter_congr {earlier earlier' : List String} (h : earlier.Perm earlier')
    (paths : List String) : namesAfter earlier paths = namesAfter earlier' paths := by
  induction paths generalizing earlier earlier' with
  | nil => rfl
  | cons path paths ih =>
    exact congrArg₂ List.cons (nameAfter_congr (h.countP_eq _)) (ih (h.append_right [path]))

/-- Paths in another order get the same names, though perhaps not each its own. -/
theorem namesAfter_perm (h : paths.Perm paths') (earlier : List String) :
    (namesAfter earlier paths).Perm (namesAfter earlier paths') := by
  -- the names of later paths depend on the earlier ones up to their order only
  induction h generalizing earlier with
  | nil => exact .refl _
  | cons path _ ih => exact (ih _).cons _
  | trans _ _ ih ih' => exact (ih earlier).trans (ih' earlier)
  | swap path path' paths =>
    have hrest : namesAfter (earlier ++ [path'] ++ [path]) paths =
        namesAfter (earlier ++ [path] ++ [path']) paths := by
      apply namesAfter_congr
      rw [List.append_assoc, List.append_assoc]
      exact (List.Perm.swap path path' []).append_left earlier
    show (nameAfter earlier path' :: nameAfter (earlier ++ [path']) path ::
        namesAfter (earlier ++ [path'] ++ [path]) paths).Perm
      (nameAfter earlier path :: nameAfter (earlier ++ [path]) path' ::
        namesAfter (earlier ++ [path] ++ [path']) paths)
    rw [hrest]
    by_cases hsame : baseName path' = baseName path
    · by_cases hword : baseName path = ""
      · -- paths without words do not take part in the counting
        have hnone := nameAfter_of_baseName_empty hword
        have hnone' := nameAfter_of_baseName_empty (hsame.trans hword)
        rw [hnone (earlier ++ [path']), hnone earlier, hnone' (earlier ++ [path]), hnone' earlier]
        exact .swap _ _ _
      · -- the first of two paths with one base gets the lower number, whichever it is
        have hword' : baseName path' ≠ "" := by
          rw [hsame]
          exact hword
        have hnumber := nameAfter_of_baseName_ne hword
        have hnumber' := nameAfter_of_baseName_ne hword'
        rw [hnumber, hnumber, hnumber', hnumber', hsame]
        simp [List.countP_append, hsame]
    · rw [nameAfter_concat_of_ne hsame, nameAfter_concat_of_ne (Ne.symm hsame)]
      exact .swap _ _ _

end Naming

namespace Document

def titledNodes (ignoreHead : Bool) (titles : List String) (rs : Route.Routes) :
    List (String × Json) :=
  List.zipWith (fun title e =>
    (e.1, .object (objectNode none (some (methods title e.2 ignoreHead))))) titles rs

theorem routeNodes_eq (ignoreHead : Bool) (registry : Naming.Registry) (rs : Route.Routes) :
    routeNodes ignoreHead registry rs =
      (titledNodes ignoreHead (registry.handOut (rs.map Prod.fst)).1 rs,
        (registry.handOut (rs.map Prod.fst)).2) := by
  induction rs generalizing registry with
  | nil => rfl
  | cons e rs ih =>
    obtain ⟨path, route⟩ := e
    show (_ :: (routeNodes ignoreHead (registry.endpointName path).2 rs).1,
      (routeNodes ignoreHead (registry.endpointName path).2 rs).2) = _
    rw [ih]
    rfl

/-- Building a document names the paths in turn. -/
theorem build_registry (rs : Route.Routes) (ds : List (String × Json)) (ignoreHead : Bool)
    (registry : Naming.Registry) :
    (build rs ds ignoreHead registry).2 = (registry.handOut (rs.map Prod.fst)).2 :=
  congrArg Prod.snd (routeNodes_eq ignoreHead registry rs)

end Document

namespace Compile

open Naming Document

/-- A compilation of routes, where the registry is left open. -/
structure Run where
  workDir : String
  routes : Route.Routes
  sorted : routes.Pairwise fun a b => a.1 < b.1
  definitions : List (String × Json)
  ignoreHead : Bool
  options : Options

namespace Run

def paths (run : Run) : List String :=
  run.routes.map Prod.fst

def compile (run : Run) (registry : Registry) : Except Error Compiled × Registry :=
  Compile.routes run.workDir run.routes run.definitions run.ignoreHead run.options registry

def document (run : Run) (registry : Registry) : Json :=
  (build run.routes run.definitions run.ignoreHead registry).1

theorem compile_registry (run : Run) (registry : Registry) :
    (run.compile registry).2 = (registry.handOut run.paths).2 :=
  build_registry run.routes run.definitions run.ignoreHead registry

theorem schema_of_compile {run : Run} {registry : Registry} {compiled : Compiled}
    (h : (run.compile registry).1 = .ok compiled) : compiled.schema = run.document registry := by
  obtain ⟨ds, -, rfl⟩ := compiled_of_routes h
  rfl

end Run

def registryAfter (runs : List Run) : Registry :=
  runs.foldl (fun registry run => (run.compile registry).2) .empty

def handedOut : Registry → List Run → List String
  | _, [] => []
  | registry, run :: runs =>
    (registry.handOut run.paths).1 ++ handedOut (run.compile registry).2 runs

theorem counts_registryAfter (runs : List Run) :
    (registryAfter runs).Counts (runs.flatMap Run.paths) := by
  -- from the end, because the last run counts on what the others have counted
  induction runs using List.reverseRecOn with
  | nil => exact counts_empty
  | append_singleton runs run ih =>
    unfold registryAfter at ih ⊢
    rw [List.foldl_append, List.flatMap_append, List.flatMap_singleton]
    show ((run.compile _).2).Counts _
    rw [Run.compile_registry]
    exact (ih.handOut run.paths).2

theorem handedOut_eq {registry : Registry} {earlier : List String} (h : registry.Counts earlier)
    (runs : List Run) : handedOut registry runs = namesAfter earlier (runs.flatMap Run.paths) := by
  induction runs generalizing registry earlier with
  | nil => rfl
  | cons run runs ih =>
    obtain ⟨hnames, hcounts⟩ := h.handOut run.paths
    rw [handedOut, hnames, Run.compile_registry, ih hcounts, List.flatMap_cons, namesAfter_append]

/-- A path has its node in the document of its run, under its name behind the paths of the earlier
runs and those before it. -/
theorem exists_node_of_path (before : List Run) (run : Run) {done todo : Route.Routes}
    {path : String} {route : List Route.Record}
    (hroutes : run.routes = done ++ (path, route) :: todo) :
    ∃ members nodes, run.document (registryAfter before) = .object members ∧
      Table.get? "properties" members = some (.object nodes) ∧
      Table.get? path nodes = some (.object (objectNode none (some (methods
        (nameAfter (before.flatMap Run.paths ++ done.map Prod.fst) path) route
          run.ignoreHead)))) := by
  obtain ⟨hnames, -⟩ := (counts_registryAfter before).handOut run.paths
  have hpaths : run.paths = done.map Prod.fst ++ path :: todo.map Prod.fst := by
    rw [Run.paths, hroutes, List.map_append, List.map_cons]
  have hnodes := congrArg Prod.fst
    (routeNodes_eq run.ignoreHead (registryAfter before) run.routes)
  have hkeys := keys_of_forall₂
    (forall₂_routeNodes run.ignoreHead (registryAfter before) run.routes)
  have hnodup : (Table.keys
      (routeNodes run.ignoreHead (registryAfter before) run.routes).1).Nodup :=
    hkeys ▸ nodup_of_sorted run.sorted
  obtain ⟨hproperties, -⟩ := get?_objectNode (some rootName)
    (some (Document.paths run.ignoreHead (registryAfter before) run.routes).1)
  refine ⟨_, Table.ofList (routeNodes run.ignoreHead (registryAfter before) run.routes).1, rfl,
    ?_, ?_⟩
  · rw [Table.get?_insert, if_neg (by decide)]
    exact hproperties
  · rw [Table.ofList_of_nodup hnodup]
    apply Table.get?_of_mem hnodup
    rw [hnodes]
    -- the names are given in the order of the routes, so the node of the path stands behind those
    -- done before
    change _ ∈ titledNodes run.ignoreHead ((registryAfter before).handOut run.paths).1 run.routes
    rw [hnames, hpaths, hroutes, namesAfter_append, titledNodes,
      List.zipWith_append (by simp)]
    exact List.mem_append_right _ List.mem_cons_self

/-- Runs share a registry, each of them successful or not.  The endpoint of a path is named by how
many of the paths before it, in the same run or in others, have the same base; this name begins the
titles of its methods.  So the same paths get the same names in any order. -/
theorem endpoints_numbered :
    (∀ (before : List Run) (run : Run) (done todo : Route.Routes) (path : String)
      (route : List Route.Record), run.routes = done ++ (path, route) :: todo →
      ∃ members nodes, run.document (registryAfter before) = .object members ∧
        Table.get? "properties" members = some (.object nodes) ∧
        Table.get? path nodes = some (.object (objectNode none (some (methods
          (nameAfter (before.flatMap Run.paths ++ done.map Prod.fst) path) route
            run.ignoreHead)))) ∧
        ∀ compiled, (run.compile (registryAfter before)).1 = .ok compiled →
          compiled.schema = .object members) ∧
    (∀ runs, handedOut .empty runs = namesAfter [] (runs.flatMap Run.paths)) ∧
    ∀ runs runs', (runs.flatMap Run.paths).Perm (runs'.flatMap Run.paths) →
      (handedOut .empty runs).Perm (handedOut .empty runs') := by
  refine ⟨fun before run done todo path route hroutes => ?_, handedOut_eq counts_empty,
    fun runs runs' hperm => ?_⟩
  · obtain ⟨members, nodes, hdocument, hproperties, hnode⟩ :=
      exists_node_of_path before run hroutes
    exact ⟨members, nodes, hdocument, hproperties, hnode, fun compiled hcompiled =>
      hdocument ▸ Run.schema_of_compile hcompiled⟩
  · rw [handedOut_eq counts_empty, handedOut_eq counts_empty]
    exact namesAfter_perm hperm []

def plainRun (records : List Route.Record) : Run :=
  ⟨"/app", Route.group records, sorted_group records, [], false, .default⟩

def failingRun : Run :=
  plainRun [⟨"/user-id", .one "POST", some { Route.Schema.empty with
    body := some (.object [("$ref", .string "info#")]) }⟩, ⟨"", .one "GET", none⟩]

def laterRun : Run :=
  plainRun [⟨"/user/id", .one "GET", none⟩, ⟨"/*", .one "GET", none⟩]

theorem endpoints_numbered_failing :
    (failingRun.compile .empty).1.toOption.isNone ∧
    handedOut .empty [failingRun, laterRun] = ["Empty", "UserId", "All", "UserId1"] ∧
    (∃ members nodes, laterRun.document (registryAfter [failingRun]) = .object members ∧
      Table.get? "properties" members = some (.object nodes) ∧
      Table.get? "/user/id" nodes = some (.object (objectNode none (some (methods "UserId1"
        [⟨"/user/id", .one "GET", none⟩] false))))) ∧
    (handedOut .empty [failingRun, laterRun]).Perm (handedOut .empty [laterRun, failingRun]) := by
  obtain ⟨hpaths, hnames, hperm⟩ := endpoints_numbered
  refine ⟨by decide +kernel, (hnames _).trans (by decide +kernel), ?_, hperm _ _ ?_⟩
  · obtain ⟨members, nodes, hdocument, hproperties, hnode, -⟩ := hpaths [failingRun] laterRun
      [("/*", [⟨"/*", .one "GET", none⟩])] [] "/user/id" [⟨"/user/id", .one "GET", none⟩] rfl
    have hname : nameAfter ([failingRun].flatMap Run.paths ++ ["/*"]) "/user/id" = "UserId1" := by
      decide +kernel
    rw [List.map_singleton, hname] at hnode
    exact ⟨members, nodes, hdocument, hproperties, hnode⟩
  · exact List.perm_append_comm

end Compile

end ApiTypes
