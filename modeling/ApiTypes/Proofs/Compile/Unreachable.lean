import ApiTypes.Proofs.Compile.Closed

namespace ApiTypes.Compile

open TypeScript

def aliasTexts (ds : List Declaration) : List (List Char) :=
  (ds.filter (!·.isInterface)).map Declaration.text

def interfaceTexts (ds : List Declaration) : List (List Char) :=
  (ds.filter (·.isInterface)).map Declaration.text

def heading (options : Options) : List Char :=
  match options.bannerComment.getD "" with
  | "" => []
  | banner => banner.toList ++ ['\n', '\n']

/-- The same compilation, with all definitions or only with those that are referred to. -/
def Context.reaching (c : Context) (all : Bool) : Context :=
  { c with options := { c.options with unreachableDefinitions := all } }

section declarations

variable {c : Context} {name : String}

theorem bodyType_reaching (c : Context) (all : Bool) (bound : Nat) :
    bodyType (c.reaching all) bound = bodyType c bound := by
  induction bound with
  | zero => rfl
  | succ bound ih =>
    funext schema
    unfold bodyType
    rw [ih]
    rfl

theorem root_reaching (c : Context) (all : Bool) (name : String) :
    root (c.reaching all) name = root c name := by
  have hbody : bodyType (c.reaching all) (c.reaching all).bound = bodyType c c.bound :=
    bodyType_reaching c all c.bound
  unfold root
  rw [hbody]
  rfl

/-- The root is complete before the definitions that are left are compiled, so its declarations come
first. -/
theorem exists_declarations_reaching {ds' : List Declaration}
    (h : declarations (c.reaching true) name = .ok ds') :
    ∃ ds more, declarations (c.reaching false) name = .ok ds ∧ ds' = ds ++ more := by
  obtain ⟨s', bare', hrun, -, hadds⟩ := exists_adds_of_declarations h
  unfold program at hrun
  obtain ⟨t, s, hroot, hrest⟩ := exists_of_run_bind_ok hrun
  obtain ⟨hs, ds, bare, ha⟩ := (ends_root name).of_run hroot
  obtain ⟨-, ⟨more, bare'', ha'⟩, -⟩ := (keeps_allDefinitions_closing s hs).of_run hrest
  refine ⟨ds, more, ?_, ?_⟩
  · -- the run without the definitions ends where this one goes on to them
    rw [root_reaching] at hroot
    have hprogram : (program (c.reaching false) name).run State.empty = (.ok ⟨⟩, s) := by
      unfold program
      rw [root_reaching]
      exact run_bind_ok hroot
    have hslots : s.slots = ds.map some := ha.slots
    unfold declarations
    rw [hprogram]
    dsimp only
    rw [hslots, List.filterMap_map]
    exact congrArg Except.ok List.filterMap_some
  · have hslots : ds'.map some = (ds ++ more).map some := by
      rw [List.map_append, ← show s.slots = ds.map some from ha.slots, ← ha'.slots]
      exact hadds.slots.symm
    exact (List.map_inj_right fun _ _ => Option.some.inj).1 hslots

end declarations

section text

theorem exists_schemaText {workDir : String} {options : Options} {name : String} {schema : Json}
    {ds : List Declaration} (h : declarations (.of workDir options schema) name = .ok ds) :
    ∃ text, schemaText workDir options name schema = .ok text ∧
      text.toList = heading options ++ (aliasTexts ds).flatten ++ (interfaceTexts ds).flatten := by
  have hbody : declarationsText ds = (aliasTexts ds).flatten ++ (interfaceTexts ds).flatten := rfl
  unfold schemaText heading
  rw [h]
  generalize options.bannerComment.getD "" = banner
  split
  · exact ⟨_, rfl, by simp [hbody]⟩
  · refine ⟨_, rfl, ?_⟩
    simp [hbody]

/-- With the definitions that nothing refers to a document is compiled to the same declarations and
more of them: the aliases there were are followed by the new ones, and so are the interfaces. -/
theorem schemaText_unreachable {workDir : String} {options : Options} {name : String}
    {schema : Json} {text' : String}
    (h : schemaText workDir { options with unreachableDefinitions := true } name schema =
      .ok text') :
    ∃ text ds more,
      schemaText workDir { options with unreachableDefinitions := false } name schema = .ok text ∧
      declarations (.of workDir { options with unreachableDefinitions := false } schema) name =
        .ok ds ∧
      declarations (.of workDir { options with unreachableDefinitions := true } schema) name =
        .ok (ds ++ more) ∧
      ((ds ++ more).map Declaration.name).Nodup ∧
      text.toList = heading options ++ (aliasTexts ds).flatten ++ (interfaceTexts ds).flatten ∧
      text'.toList = heading options ++ (aliasTexts ds ++ aliasTexts more).flatten ++
        (interfaceTexts ds ++ interfaceTexts more).flatten := by
  cases hds' : declarations (.of workDir { options with unreachableDefinitions := true } schema)
      name with
  | error e =>
    unfold schemaText at h
    rw [hds'] at h
    cases h
  | ok ds' =>
    obtain ⟨ds, more, hds, rfl⟩ :=
      exists_declarations_reaching (c := .of workDir options schema) hds'
    obtain ⟨text, htext, hlist⟩ := exists_schemaText hds
    obtain ⟨text'', htext', hlist'⟩ := exists_schemaText hds'
    obtain rfl : text' = text'' := Except.ok.inj (h.symm.trans htext')
    refine ⟨text, ds, more, htext, hds, rfl, nodup_of_declarations hds', hlist, ?_⟩
    rw [hlist']
    simp only [aliasTexts, interfaceTexts, List.filter_append, List.map_append]
    rfl

/-- One definition is referred to; two are not, and refer to it and to the root. -/
def spareModes : Json :=
  .object [
    ("properties", .object [("mode", .object [("$ref", .string "#/definitions/mode")])]),
    ("definitions", .object [
      ("modes", .object [("items", .object [("$ref", .string "#/definitions/mode")])]),
      ("mode", .object [("title", .string "Modes"), ("type", .string "string")]),
      ("kept", .object [("properties", .object [("root", .object [("$ref", .string "#")])])])])]

theorem schemaText_unreachable_spareModes :
    ∃ (text : String) (text' : String) (ds more : List Declaration),
      schemaText "/app" { Options.default with unreachableDefinitions := true } "Root" spareModes =
        .ok text' ∧
      schemaText "/app" { Options.default with unreachableDefinitions := false } "Root" spareModes =
        .ok text ∧
      (ds ++ more).map Declaration.name = ["Root", "Modes", "Modes1", "Kept"] ∧
      text = "export type Modes = string;\n" ++
        "export interface Root \x7b\n  mode?: Modes;\n  [k: string]: unknown;\n\x7d\n" ∧
      text.toList = (aliasTexts ds).flatten ++ (interfaceTexts ds).flatten ∧
      text'.toList = (aliasTexts ds ++ aliasTexts more).flatten ++
        (interfaceTexts ds ++ interfaceTexts more).flatten := by
  have h' : schemaText "/app" { Options.default with unreachableDefinitions := true } "Root"
      spareModes = .ok ("export type Modes = string;\nexport type Modes1 = Modes[];\n" ++
        "export interface Root \x7b\n  mode?: Modes;\n  [k: string]: unknown;\n\x7d\n" ++
        "export interface Kept \x7b\n  root?: Root;\n  [k: string]: unknown;\n\x7d\n") := by
    decide +kernel
  have h : schemaText "/app" { Options.default with unreachableDefinitions := false } "Root"
      spareModes = .ok ("export type Modes = string;\n" ++
        "export interface Root \x7b\n  mode?: Modes;\n  [k: string]: unknown;\n\x7d\n") := by
    decide +kernel
  have hnames : ((declarations (.of "/app" { Options.default with unreachableDefinitions := true }
      spareModes) "Root").map (List.map Declaration.name)).toOption =
        some ["Root", "Modes", "Modes1", "Kept"] := by
    decide +kernel
  obtain ⟨text, ds, more, htext, -, hds, -, hlist, hlist'⟩ := schemaText_unreachable h'
  rw [hds] at hnames
  exact ⟨text, _, ds, more, h', htext, Option.some.inj hnames, Except.ok.inj (htext.symm.trans h),
    hlist, hlist'⟩

end text

end ApiTypes.Compile
