import ApiTypes.Proofs.Compile.Closed
import ApiTypes.Proofs.TypeScript.AliasMark

namespace ApiTypes.Compile

open Text TypeScript

def breakMarks (s : List Char) : List Char :=
  replaceAll aliasMark ('\n' :: aliasMark) s

theorem aliasMark_ne_nil : aliasMark ≠ [] := by decide

theorem breakMarks_append_cons {c : Char} (hc : c ∉ aliasMark) (u w : List Char) :
    breakMarks (u ++ c :: w) = breakMarks u ++ c :: breakMarks w :=
  replaceAll_append_cons aliasMark_ne_nil hc u w

theorem exists_breakMarks {s : List Char} (h : aliasMark <:+: s) :
    ∃ a b, breakMarks s = a ++ '\n' :: (aliasMark ++ breakMarks b) := by
  obtain ⟨a, b, -, hb⟩ := exists_replaceAll_of_infix aliasMark_ne_nil h
  refine ⟨a, b, ?_⟩
  rw [breakMarks, hb, List.append_assoc, List.cons_append]
  rfl

def Kept (s : List Char) : Prop :=
  nonEmptyLines (breakMarks s) = nonEmptyLines s

theorem nonEmptyLines_breakMarks (s : List Char) :
    nonEmptyLines (breakMarks s) =
      (nonEmptyLines s).flatMap fun l => nonEmptyLines (breakMarks l) :=
  nonEmptyLines_replaceAll aliasMark_ne_nil (by decide) s

/-- The steps before the last one add empty lines and nothing else. -/
theorem nonEmptyLines_separate (s : List Char) :
    nonEmptyLines (separate s) = nonEmptyLines (breakMarks s) := by
  have hcomment := nonEmptyLines_replaceAll_double ['}'] ['/'] s
  have hexport := nonEmptyLines_replaceAll_double ['}'] "export ".toList
    (replaceAll (['}'] ++ '\n' :: ['/']) (['}'] ++ '\n' :: '\n' :: ['/']) s)
  -- what the last step makes of a text depends on its lines only
  change nonEmptyLines (breakMarks _) = _
  rw [nonEmptyLines_breakMarks, nonEmptyLines_breakMarks s]
  exact congrArg (List.flatMap _) (hexport.trans hcomment)

section kept

variable {s u w : List Char}

theorem kept_of_free (h : Free s) : Kept s := by
  unfold Kept breakMarks
  rw [replaceAll_eq_self h]

theorem Kept.append_newline (hu : Kept u) (hw : Kept w) : Kept (u ++ '\n' :: w) := by
  unfold Kept at *
  rw [breakMarks_append_cons (by decide), nonEmptyLines_append_newline,
    nonEmptyLines_append_newline, hu, hw]

/-- Before an alias there is a line break already. -/
theorem kept_alias (h : Free s) : Kept (aliasMark ++ s) := by
  unfold Kept breakMarks
  rw [replaceAll_append aliasMark_ne_nil, replaceAll_eq_self h, List.cons_append,
    nonEmptyLines_newline_cons]

theorem kept_comment_append {text : List Char} (h : ∀ l ∈ commentLines text, Free l) (hw : Kept w) :
    Kept (docComment text [] ++ w) := by
  have hall := free_commentBlock h
  rw [docComment_eq]
  generalize commentBlock text = block at hall ⊢
  induction block with
  | nil => exact hw
  | cons l ls ih =>
    have hls := ih fun k hk => hall k (List.mem_cons_of_mem l hk)
    simpa using (kept_of_free (hall l List.mem_cons_self)).append_newline hls

/-- The words before the name of an interface and the blank behind it are not the mark. -/
theorem free_interface_head {name : List Char} (h : ' ' ∉ name) :
    Free ("export interface ".toList ++ name ++ [' ']) := by
  have hname : Free (' ' :: (name ++ [' '])) :=
    ((free_of_blank_not_mem h).concat (by decide)).cons (by decide)
  have he : Free ('e' :: ' ' :: (name ++ [' '])) := by
    intro hmark
    obtain ⟨t, ht⟩ | hmark := List.infix_cons_iff.1 hmark
    · cases ht
    · exact hname hmark
  have hc : Free ("export interfa".toList ++ 'c' :: 'e' :: ' ' :: (name ++ [' '])) := by
    refine Free.append_cons ?_ he (by decide)
    unfold Free
    decide
  simpa using hc

theorem kept_interface_append {name body : List Char} (hname : ' ' ∉ name) (hbody : Free body)
    (hw : Kept w) :
    Kept ("export interface ".toList ++ name ++ ' ' :: '{' :: body ++ ['\n'] ++ w) := by
  have hline : Free (("export interface ".toList ++ name ++ [' ']) ++ '{' :: body) :=
    (free_interface_head hname).append_cons hbody (by decide)
  have hkept := (kept_of_free hline).append_newline hw
  simpa only [List.append_assoc, List.cons_append, List.nil_append] using hkept

theorem kept_alias_append {name type : List Char} (hname : ' ' ∉ name) (htype : Free type)
    (hw : Kept w) :
    Kept ("export type ".toList ++ name ++ [' ', '=', ' '] ++ type ++ [';', '\n'] ++ w) := by
  -- only the mark at the beginning of the line is one
  have hmark : "export type ".toList = aliasMark ++ [' '] := by decide
  have hhead : Free (' ' :: (name ++ [' '])) :=
    ((free_of_blank_not_mem hname).concat (by decide)).cons (by decide)
  have htail : Free (type ++ ';' :: []) :=
    htype.append_cons (free_of_blank_not_mem (by simp)) (by decide)
  have hline : Free (' ' :: (name ++ [' ']) ++ '=' :: ' ' :: (type ++ ';' :: [])) :=
    hhead.append_cons (htail.cons (by decide)) (by decide)
  have hkept := (kept_alias hline).append_newline hw
  rw [hmark]
  simpa only [List.append_assoc, List.cons_append, List.nil_append] using hkept

theorem exists_body {d : Declaration} (h : d.isInterface = true) :
    ∃ body, d.type.textAt 0 = '{' :: body := by
  obtain ⟨name, description, type⟩ := d
  cases type with
  | object ms index => cases ms <;> cases index <;> exact ⟨_, rfl⟩
  | _ => cases h

theorem kept_declaration_append {d : Declaration} (hname : isIdentifier d.name.toList)
    (hnames : ∀ n, d.type.Mentions n → isIdentifier n.toList) (hparts : ∀ f, d.Writes f → Free f)
    (hw : Kept w) : Kept (d.text ++ w) := by
  have hblank : ' ' ∉ d.name.toList :=
    blank_not_mem_of_words fun _ => isWordChar_of_mem_identifier hname
  have htype : Free (d.type.textAt 0) :=
    TypeExpr.free_textAt d.type ⟨hnames, fun f hf => hparts f (.type hf)⟩ 0
  have hcomment : ∀ text code, d.description = some text → Kept (code ++ w) →
      Kept (docComment text.toList [] ++ (code ++ w)) := fun text code hd hcode =>
    kept_comment_append (fun l hl => hparts l (.comment hd hl)) hcode
  -- comment, code and what follows are cut apart by characters that the mark does not have
  unfold Declaration.text
  cases hi : d.isInterface with
  | true =>
    obtain ⟨body, hbody⟩ := exists_body hi
    rw [hbody] at htype ⊢
    have hcode := kept_interface_append hblank (fun h => htype (List.infix_cons h)) hw
    cases hd : d.description with
    | none => exact hcode
    | some text =>
      rw [List.append_assoc]
      exact hcomment text _ hd hcode
  | false =>
    have hcode := kept_alias_append hblank htype hw
    cases hd : d.description with
    | none => exact hcode
    | some text =>
      rw [List.append_assoc]
      exact hcomment text _ hd hcode

theorem kept_flatMap_append {ds : List Declaration} (h : ∀ d ∈ ds, ∀ w, Kept w → Kept (d.text ++ w))
    (hw : Kept w) : Kept (ds.flatMap Declaration.text ++ w) := by
  induction ds with
  | nil => exact hw
  | cons d ds ih =>
    rw [List.flatMap_cons, List.append_assoc]
    exact h d List.mem_cons_self _ (ih fun d' hd' => h d' (List.mem_cons_of_mem d hd'))

theorem kept_declarationsText {ds : List Declaration} (hname : ∀ d ∈ ds, isIdentifier d.name.toList)
    (hnames : ∀ d ∈ ds, ∀ n, d.type.Mentions n → isIdentifier n.toList)
    (hparts : ∀ d ∈ ds, ∀ f, d.Writes f → Free f) : Kept (declarationsText ds) := by
  have hkept : ∀ d ∈ ds, ∀ w, Kept w → Kept (d.text ++ w) := fun d hd w hw =>
    kept_declaration_append (hname d hd) (hnames d hd) (hparts d hd) hw
  have hnil : Kept [] := rfl
  have hinterfaces : Kept ((ds.filter (·.isInterface)).flatMap Declaration.text ++ []) :=
    kept_flatMap_append (fun d hd => hkept d (List.mem_of_mem_filter hd)) hnil
  rw [List.append_nil] at hinterfaces
  exact kept_flatMap_append (fun d hd => hkept d (List.mem_of_mem_filter hd)) hinterfaces

end kept

section broken

variable {s l : List Char}

/-- Something is left of every line. -/
theorem nonEmptyLines_breakMarks_ne_nil (h : l ∈ nonEmptyLines s) :
    nonEmptyLines (breakMarks l) ≠ [] := by
  by_cases hmark : aliasMark <:+: l
  · obtain ⟨a, b, hb⟩ := exists_breakMarks hmark
    have he : 'e' ∈ aliasMark := by decide
    rw [hb]
    exact nonEmptyLines_ne_nil (c := 'e') (by simp [he]) (by decide)
  · obtain ⟨hne, hl⟩ := mem_nonEmptyLines h
    rw [breakMarks, replaceAll_eq_self hmark, nonEmptyLines_of_not_mem hl hne]
    simp

/-- A line with the mark inside becomes two lines or more. -/
theorem two_le_length_of_broken (h : Broken l) : 2 ≤ (nonEmptyLines (breakMarks l)).length := by
  obtain ⟨c, f, hc, hn, hf, a, b, rfl⟩ := h
  have hmark : aliasMark <:+: f ++ b := List.infix_append_of_infix_left hf
  obtain ⟨x, y, hxy⟩ := exists_breakMarks hmark
  have hsplit : breakMarks (a ++ c :: f ++ b) =
      (breakMarks a ++ c :: x) ++ '\n' :: (aliasMark ++ breakMarks y) := by
    rw [List.append_assoc, List.cons_append, breakMarks_append_cons hc, hxy, List.append_assoc,
      List.cons_append]
  -- both parts have something to see: the character before the mark, and the mark
  have he : 'e' ∈ aliasMark := by decide
  have hhead : nonEmptyLines (breakMarks a ++ c :: x) ≠ [] :=
    nonEmptyLines_ne_nil (c := c) (by simp) fun h => hn (by simp [h])
  have htail : nonEmptyLines (aliasMark ++ breakMarks y) ≠ [] :=
    nonEmptyLines_ne_nil (List.mem_append_left _ he) (by decide)
  rw [hsplit, nonEmptyLines_append_newline, List.length_append]
  have := List.length_pos_of_ne_nil hhead
  have := List.length_pos_of_ne_nil htail
  omega

theorem not_kept_of_broken {f : List Char} (hf : Broken f) (h : f <:+: s) : ¬ Kept s := by
  obtain ⟨c, g, hc, hn, hg, hgf⟩ := hf
  obtain ⟨l, hl, hgl⟩ := exists_line_of_infix hn (by simp) (hgf.trans h)
  -- one line becomes two or more and no other line is lost, so there are more lines than before
  have htwo := two_le_length_of_broken ⟨c, g, hc, hn, hg, hgl⟩
  obtain ⟨ls, ls', hls⟩ := List.append_of_mem hl
  intro hkept
  have hlength := congrArg List.length (hkept.symm.trans (nonEmptyLines_breakMarks s))
  have hone : ∀ k ∈ nonEmptyLines s, nonEmptyLines (breakMarks k) ≠ [] :=
    fun k hk => nonEmptyLines_breakMarks_ne_nil hk
  rw [hls] at hlength hone
  have hbefore := List.length_le_flatMap fun k hk => hone k (List.mem_append_left _ hk)
  have hafter := List.length_le_flatMap fun k hk =>
    hone k (List.mem_append_right _ (List.mem_cons_of_mem l hk))
  simp only [List.flatMap_append, List.flatMap_cons, List.length_append, List.length_cons]
    at hlength
  omega

end broken

/-- The lines of declarations stay whole exactly if no part that the schemas give has the mark. -/
theorem kept_declarationsText_iff {ds : List Declaration}
    (hname : ∀ d ∈ ds, isIdentifier d.name.toList)
    (hnames : ∀ d ∈ ds, ∀ n, d.type.Mentions n → isIdentifier n.toList) :
    Kept (declarationsText ds) ↔ ∀ d ∈ ds, ∀ f, d.Writes f → Free f := by
  constructor
  · intro hkept d hd f hf
    by_contra hfree
    exact not_kept_of_broken (hf.broken hfree) (hf.isInfix.trans (infix_declarationsText hd)) hkept
  · exact kept_declarationsText hname hnames

/-- Below the options for routes there is no banner. -/
theorem schemaText_forDefinitions (workDir : String) (o : Options) (ds : List (String × Json))
    (name : String) (schema : Json) :
    schemaText workDir (o.forDefinitions workDir ds) name schema =
      (declarations (.of workDir (o.forDefinitions workDir ds) schema) name).map
        fun decls => String.ofList (declarationsText decls) := by
  unfold schemaText
  cases declarations (.of workDir (o.forDefinitions workDir ds) schema) name <;> rfl

theorem identifiers_of_declarations {c : Context} {name : String} {decls : List Declaration}
    (h : declarations c name = .ok decls) :
    (∀ d ∈ decls, isIdentifier d.name.toList) ∧
      ∀ d ∈ decls, ∀ n, d.type.Mentions n → isIdentifier n.toList := by
  obtain ⟨s, bare, -, hs, ha⟩ := exists_adds_of_declarations h
  refine ⟨fun d hd => hs.identifier _ ?_, fun d hd n hn => hs.identifier n (ha.mentions d hd n hn)⟩
  exact ha.names.mem_iff.2 (List.mem_append_left _ (List.mem_map_of_mem hd))

/-- The lines of the declarations of an application are those of its document exactly if no literal,
key or comment in them has the words that begin an alias. -/
theorem routes_keeps_lines_iff (workDir : String) (rs : Route.Routes) (ds : List (String × Json))
    (ignoreHead : Bool) (options : Options) (registry : Naming.Registry) {compiled : Compiled}
    (h : (routes workDir rs ds ignoreHead options registry).1 = .ok compiled) :
    ∃ decls text,
      declarations (.of workDir (options.forDefinitions workDir ds) compiled.schema)
        Document.rootName = .ok decls ∧
      schemaText workDir (options.forDefinitions workDir ds) Document.rootName compiled.schema =
        .ok text ∧
      (nonEmptyLines compiled.text.toList = nonEmptyLines text.toList ↔
        ∀ d ∈ decls, ∀ f, d.Writes f → ¬ aliasMark <:+: f) := by
  unfold routes at h
  generalize Document.build rs ds ignoreHead registry = built at h
  obtain ⟨schema, registry'⟩ := built
  have htext := schemaText_forDefinitions workDir options ds Document.rootName schema
  dsimp only at h
  rw [htext] at h
  cases hdecls : declarations (.of workDir (options.forDefinitions workDir ds) schema)
      Document.rootName with
  | error e =>
    rw [hdecls] at h
    cases h
  | ok decls =>
    rw [hdecls] at h htext
    obtain rfl := Except.ok.inj h
    obtain ⟨hname, hnames⟩ := identifiers_of_declarations hdecls
    refine ⟨decls, _, hdecls, htext, ?_⟩
    rw [String.toList_ofList, String.toList_ofList, nonEmptyLines_separate]
    exact kept_declarationsText_iff hname hnames

/-- A route at a path with the words that begin an alias. -/
def exportRoutes : Route.Routes :=
  [("/export type", [⟨"/export type", .one "GET", none⟩])]

theorem routes_keeps_lines_iff_exportRoutes :
    ∃ compiled, (routes "/app" exportRoutes [] false .default .empty).1 = .ok compiled ∧
      ∃ decls text,
        declarations (.of "/app" (Options.default.forDefinitions "/app" []) compiled.schema)
          Document.rootName = .ok decls ∧
        schemaText "/app" (Options.default.forDefinitions "/app" []) Document.rootName
          compiled.schema = .ok text ∧
        (nonEmptyLines compiled.text.toList = nonEmptyLines text.toList ↔
          ∀ d ∈ decls, ∀ f, d.Writes f → ¬ aliasMark <:+: f) := by
  have hok : (routes "/app" exportRoutes [] false .default .empty).1.toOption.isSome = true := by
    decide +kernel
  cases h : (routes "/app" exportRoutes [] false .default .empty).1 with
  | error e =>
    rw [h] at hok
    cases hok
  | ok compiled =>
    exact ⟨compiled, rfl, routes_keeps_lines_iff "/app" exportRoutes [] false .default .empty h⟩

/-- A path can be split: the lines of an application are not always those of its document. -/
theorem not_routes_keeps_lines : ¬ ∀ (workDir : String) (rs : Route.Routes)
    (ds : List (String × Json)) (ignoreHead : Bool) (options : Options)
    (registry : Naming.Registry) (compiled : Compiled) (text : String),
      (routes workDir rs ds ignoreHead options registry).1 = .ok compiled →
      schemaText workDir (options.forDefinitions workDir ds) Document.rootName compiled.schema =
        .ok text →
      nonEmptyLines compiled.text.toList = nonEmptyLines text.toList := by
  intro h
  have hne : ((routes "/app" exportRoutes [] false .default .empty).1.bind fun c =>
      (schemaText "/app" (Options.default.forDefinitions "/app" []) Document.rootName c.schema).map
        fun t => decide (nonEmptyLines c.text.toList = nonEmptyLines t.toList)).toOption =
      some false := by
    decide +kernel
  cases hc : (routes "/app" exportRoutes [] false .default .empty).1 with
  | error e =>
    rw [hc] at hne
    cases hne
  | ok c =>
    rw [hc] at hne
    change ((schemaText _ _ _ c.schema).map _).toOption = _ at hne
    cases ht : schemaText "/app" (Options.default.forDefinitions "/app" []) Document.rootName
        c.schema with
    | error e =>
      rw [ht] at hne
      cases hne
    | ok t =>
      rw [ht] at hne
      have hfalse := of_decide_eq_false (Option.some.inj hne)
      exact hfalse (h _ _ _ _ _ _ c t hc ht)

end ApiTypes.Compile
