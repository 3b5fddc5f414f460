import ApiTypes.Proofs.Output.Banner

namespace ApiTypes.Output

open TypeScript

/-- The names that a statement introduces: the list of an import, or the name of an alias. -/
def statementNames (s : List Char) : List String :=
  let s := Text.trim s
  if Text.startsWith "import".toList s then
    ((Layout.Import.ofStatement? s).map fun i => i.items.map String.ofList).getD []
  else
    match Text.after? "export type ".toList s with
    | some rest => [String.ofList (rest.takeWhile isIdentifierChar)]
    | none => []

def introducedNames (s : List Char) : List String :=
  (s.splitOn ';').flatMap statementNames

def Target.names (t : Target) : List String :=
  introducedNames t.imports.toList

theorem names_serverTypes :
    Target.names .serverTypes =
      ["ContextConfigDefault", "RawReplyDefaultExpression", "RawRequestDefaultExpression",
        "RawServerDefault", "RouteHandlerMethod", "RouteGenericInterface", "Handler"] := by
  change introducedNames serverImports.toList = _
  unfold serverImports
  rw [String.toList_intercalate]
  decide +kernel

theorem nodup_names (t : Target) : t.names.Nodup := by
  cases t with
  | serverTypes =>
    rw [names_serverTypes]
    decide
  | clientTypes => exact List.nodup_nil

/-- Below the standard banner, which is a comment, the names in an output are distinct exactly if no
declaration has one of the names that the target brings with it. -/
theorem introduced_nodup_iff (workDir : String) (rs : Route.Routes) (ds : List (String × Json))
    (ignoreHead : Bool) (options : Options) (registry : Naming.Registry)
    (hbanner : options.bannerComment.getD "" = "") {compiled : Compile.Compiled}
    (h : (Compile.routes workDir rs ds ignoreHead options registry).1 = .ok compiled)
    (t : Target) :
    ∃ decls,
      Compile.declarations (.of workDir (options.forDefinitions workDir ds) compiled.schema)
        Document.rootName = .ok decls ∧
      banner options t ++ compiled.text =
        standardBanner ++ t.imports ++ String.ofList (Compile.separate (declarationsText decls)) ∧
      ((t.names ++ decls.map Declaration.name).Nodup ↔ ∀ d ∈ decls, d.name ∉ t.names) := by
  obtain ⟨decls, hdecls, htext⟩ := Compile.exists_declarations_of_routes h
  have hnodup := Compile.nodup_of_declarations hdecls
  have hstandard : banner options t = standardBanner ++ t.imports := by
    unfold banner
    dsimp only
    rw [if_pos hbanner]
    cases t with
    | serverTypes => rfl
    | clientTypes => exact (String.append_empty).symm
  refine ⟨decls, hdecls, by rw [hstandard, htext], ?_⟩
  rw [List.nodup_append]
  constructor
  · rintro ⟨-, -, hdisjoint⟩ d hd hn
    exact hdisjoint _ hn _ (List.mem_map_of_mem hd) rfl
  · intro hno
    refine ⟨nodup_names t, hnodup, ?_⟩
    rintro n hn _ hm rfl
    obtain ⟨d, hd, rfl⟩ := List.mem_map.1 hm
    exact hno d hd hn

def handlerRoutes : Route.Routes :=
  [("/", [⟨"/", .one "POST", some { Route.Schema.empty with
    body := some (.object [("title", .string "Handler")]) }⟩])]

theorem introduced_nodup_iff_handlerRoutes :
    ∃ compiled,
      (Compile.routes "/app" handlerRoutes [] false .default .empty).1 = .ok compiled ∧
      ∃ decls,
        Compile.declarations (.of "/app" (Options.default.forDefinitions "/app" [])
          compiled.schema) Document.rootName = .ok decls ∧
        ((Target.names .serverTypes ++ decls.map Declaration.name).Nodup ↔
          ∀ d ∈ decls, d.name ∉ Target.names .serverTypes) := by
  have hok : (Compile.routes "/app" handlerRoutes [] false .default .empty).1.toOption.isSome =
      true := by
    decide +kernel
  cases h : (Compile.routes "/app" handlerRoutes [] false .default .empty).1 with
  | error e =>
    rw [h] at hok
    cases hok
  | ok compiled =>
    obtain ⟨decls, hdecls, -, hiff⟩ :=
      introduced_nodup_iff "/app" handlerRoutes [] false .default .empty rfl h .serverTypes
    exact ⟨compiled, rfl, decls, hdecls, hiff⟩

/-- A declaration can have the name of something that the server imports or declares. -/
theorem not_introduced_nodup : ¬ ∀ (workDir : String) (rs : Route.Routes)
    (ds : List (String × Json)) (ignoreHead : Bool) (options : Options)
    (registry : Naming.Registry) (compiled : Compile.Compiled) (decls : List Declaration)
    (t : Target), options.bannerComment.getD "" = "" →
      (Compile.routes workDir rs ds ignoreHead options registry).1 = .ok compiled →
      Compile.declarations (.of workDir (options.forDefinitions workDir ds) compiled.schema)
        Document.rootName = .ok decls →
      (t.names ++ decls.map Declaration.name).Nodup := by
  intro hall
  have hname : (Except.bind (Compile.routes "/app" handlerRoutes [] false .default .empty).1
      fun compiled => (Compile.declarations (.of "/app" (Options.default.forDefinitions "/app" [])
        compiled.schema) Document.rootName).map fun decls =>
          (decls.map Declaration.name).contains "Handler").toOption = some true := by
    decide +kernel
  cases hc : (Compile.routes "/app" handlerRoutes [] false .default .empty).1 with
  | error e =>
    rw [hc] at hname
    cases hname
  | ok compiled =>
    rw [hc] at hname
    change ((Compile.declarations _ _).map _).toOption = _ at hname
    cases hd : Compile.declarations (.of "/app" (Options.default.forDefinitions "/app" [])
        compiled.schema) Document.rootName with
    | error e =>
      rw [hd] at hname
      cases hname
    | ok decls =>
      rw [hd] at hname
      have hnodup := hall "/app" handlerRoutes [] false .default .empty compiled decls .serverTypes
        rfl hc hd
      have hmem : "Handler" ∈ decls.map Declaration.name :=
        List.contains_iff_mem.1 (Option.some.inj hname)
      have himported : "Handler" ∈ Target.names .serverTypes := by
        rw [names_serverTypes]
        decide
      exact (List.nodup_append.1 hnodup).2.2 _ himported _ hmem rfl

end ApiTypes.Output
