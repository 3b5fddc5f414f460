import ApiTypes.Proofs.Compile.Separate

namespace ApiTypes

namespace TypeScript

/-- A declaration begins with a comment or with its export. -/
def Begins (w : List Char) : Prop :=
  ['/'] <+: w ∨ "export ".toList <+: w

theorem begins_text (d : Declaration) : Begins d.text := by
  unfold Declaration.text
  cases d.description with
  | some text => exact .inl ⟨_, rfl⟩
  | none =>
    cases d.isInterface with
    | true => exact .inr ⟨_, rfl⟩
    | false => exact .inr ⟨_, rfl⟩

/-- The first character of a comment, or that of `export`. -/
theorem exists_text_eq_cons (d : Declaration) :
    ∃ c s, d.text = c :: s ∧ (c = '/' ∨ c = 'e') := by
  obtain ⟨s, hs⟩ | ⟨s, hs⟩ := begins_text d
  · exact ⟨'/', s, hs.symm, .inl rfl⟩
  · exact ⟨'e', _, hs.symm, .inr rfl⟩

theorem exists_declarationsText_eq_cons {ds : List Declaration} (h : ds ≠ []) :
    ∃ c s, declarationsText ds = c :: s ∧ (c = '/' ∨ c = 'e') := by
  have hhead : ∀ (ds : List Declaration) (w : List Char), ds ≠ [] →
      ∃ c s, ds.flatMap Declaration.text ++ w = c :: s ∧ (c = '/' ∨ c = 'e') := by
    intro ds w hds
    obtain ⟨d, ds, rfl⟩ := List.exists_cons_of_ne_nil hds
    obtain ⟨c, s, hd, hc⟩ := exists_text_eq_cons d
    exact ⟨c, s ++ (ds.flatMap Declaration.text ++ w), by simp [hd], hc⟩
  unfold declarationsText
  by_cases haliases : (ds.filter fun d => !d.isInterface) = []
  · -- without aliases all declarations are interfaces
    have hall : ds.filter (fun d => d.isInterface) = ds := by
      rw [List.filter_eq_self]
      intro d hd
      simpa using List.filter_eq_nil_iff.1 haliases d hd
    rw [haliases, hall]
    simpa using hhead ds [] h
  · exact hhead _ _ haliases

end TypeScript

namespace Compile

open Text TypeScript

variable {c : Context} {name : String} {ds : List Declaration}

/-- What asks only for declarations that are there stays true as long as they stay. -/
def Lasting {α : Type} (Q : α → State → Prop) : Prop :=
  ∀ x s s', (∀ d, some d ∈ s.slots → some d ∈ s'.slots) → Q x s → Q x s'

theorem Lasting.stable {α : Type} {Q : α → State → Prop} (hQ : Lasting Q) :
    (closing c).Stable Q := by
  rintro x s s' ⟨ds, bare, ha⟩ hx
  refine hQ x s s' (fun d hd => ?_) hx
  rw [ha.slots]
  exact List.mem_append_left _ hd

def State.rooted (name : String) : State :=
  ⟨[name], [(targetKey "" "", name)], [], [none], []⟩

theorem named_rooted (name : String) : (State.rooted (safeName name)).Named where
  nodup := List.nodup_singleton _
  identifier := by simpa [State.rooted] using isIdentifier_safeName name
  refs := by simp [State.rooted]

section first

variable {Q : TypeExpr → State → Prop} (hQ : Lasting Q)
  (hbody : ∀ s, s.Named → Ends (bodyType c c.bound c.root) s Q fun _ => True)

include hQ hbody

/-- The root takes the first place and keeps it. -/
theorem ends_root_first (name : String) :
    Ends (root c name) State.empty
      (fun _ s => ∃ t slots,
        s.slots = some ⟨safeName name, description? c.root, t⟩ :: slots ∧ Q t s)
      fun _ => True := by
  unfold root
  simp only [ends_bind, ends_uniqueName, ends_modify, ends_declare]
  refine ((keeps_bodyType_closing c.bound c.root _ (named_rooted name)).and
    (hbody _ (named_rooted name))).imp ?_
  rintro t s ⟨⟨-, ⟨ds, bare, ha⟩, -⟩, ht⟩
  have hslots : s.slots = none :: ds.map some := ha.slots
  refine ⟨t, ds.map some, ?_, hQ t s _ (fun d hd => ?_) ht⟩
  · rw [hslots]
    rfl
  · -- the place that is filled was open
    rw [hslots] at hd ⊢
    exact List.mem_cons_of_mem _ (by simpa using hd)

/-- The first declaration is that of the root. -/
theorem exists_root_of_declarations (h : declarations c name = .ok ds) :
    ∃ t ds' s, ds = ⟨safeName name, description? c.root, t⟩ :: ds' ∧ s.slots = ds.map some ∧
      Q t s := by
  obtain ⟨s, bare, hrun, -, ha⟩ := exists_adds_of_declarations h
  -- the root opens the first place and fills it before any definition is declared
  have hfirst : Ends (program c name) State.empty
      (fun _ s => ∃ t slots,
        s.slots = some ⟨safeName name, description? c.root, t⟩ :: slots ∧ Q t s)
      fun _ => True := by
    unfold program
    rw [ends_bind]
    refine ((ends_root name).and (ends_root_first hQ hbody name)).imp ?_
    rintro _ s₁ ⟨⟨hs₁, -⟩, t, slots, hslots, ht⟩
    split
    · -- later declarations come behind those that are there
      refine (keeps_allDefinitions_closing s₁ hs₁).imp ?_
      rintro _ s₂ ⟨-, hg, -⟩
      have ht₂ := hQ.stable t s₁ s₂ hg ht
      obtain ⟨ds₂, bare₂, ha₂⟩ := hg
      exact ⟨t, slots ++ ds₂.map some, by rw [ha₂.slots, hslots]; rfl, ht₂⟩
    · exact ⟨t, slots, hslots, ht⟩
  obtain ⟨t, slots, hslots, ht⟩ := hfirst.of_run hrun
  have hs : s.slots = ds.map some := ha.slots
  have hds : some _ :: slots = ds.map some := hslots.symm.trans hs
  cases ds with
  | nil => cases hds
  | cons d ds' =>
    obtain ⟨hd, -⟩ := List.cons.inj hds
    obtain rfl := Option.some.inj hd
    exact ⟨t, ds', s, rfl, hs, ht⟩

end first

theorem ne_nil_of_declarations (h : declarations c name = .ok ds) : ds ≠ [] := by
  have hbody : ∀ s, s.Named → Ends (bodyType c c.bound c.root) s (fun _ _ => True) fun _ => True :=
    fun s hs => (keeps_bodyType_closing _ _ s hs).imp fun _ _ _ => trivial
  obtain ⟨t, ds', s, rfl, -⟩ := exists_root_of_declarations (fun _ _ _ _ _ => trivial) hbody h
  exact List.cons_ne_nil _ _

/-- A character that the replaced text does not start with stays in front. -/
theorem exists_replaceAll_eq_cons {c d : Char} (h : c ≠ d) (old new s : List Char) :
    ∃ s', replaceAll (d :: old) new (c :: s) = c :: s' := by
  refine ⟨_, replaceAll_cons ?_⟩
  rintro ⟨t, ht⟩
  exact h (List.cons.inj ht).1.symm

/-- The separation puts nothing in front of a text but the line break before an alias. -/
theorem exists_separate_eq_append {c : Char} {s : List Char} (h : c ≠ '}') :
    ∃ w s', separate (c :: s) = w ++ c :: s' ∧ (w = [] ∨ w = ['\n']) := by
  obtain ⟨s₁, h₁⟩ := exists_replaceAll_eq_cons h "\n/".toList "\x7d\n\n/".toList s
  obtain ⟨s₂, h₂⟩ := exists_replaceAll_eq_cons h "\nexport ".toList "\x7d\n\nexport ".toList s₁
  have hsep : separate (c :: s) = breakMarks (c :: s₂) := by
    change breakMarks (replaceAll ('}' :: "\nexport ".toList) _
      (replaceAll ('}' :: "\n/".toList) _ (c :: s))) = _
    exact congrArg breakMarks ((congrArg _ h₁).trans h₂)
  rw [hsep, breakMarks]
  by_cases hmark : aliasMark <+: c :: s₂
  · obtain ⟨t, ht⟩ := hmark
    obtain ⟨m, hm⟩ : ∃ m, aliasMark = 'e' :: m := ⟨_, rfl⟩
    have hc : 'e' = c := by
      rw [hm] at ht
      exact (List.cons.inj ht).1
    refine ⟨['\n'], m ++ replaceAll aliasMark ('\n' :: aliasMark) t, ?_, .inr rfl⟩
    rw [← ht, replaceAll_append aliasMark_ne_nil, ← hc, List.cons_append, hm]
    rfl
  · exact ⟨[], _, replaceAll_cons hmark, .inl rfl⟩

/-- What a compilation of routes makes. -/
theorem compiled_of_routes {workDir : String} {rs : Route.Routes}
    {defs : List (String × Json)} {ignoreHead : Bool} {options : Options}
    {registry : Naming.Registry} {compiled : Compiled}
    (h : (routes workDir rs defs ignoreHead options registry).1 = .ok compiled) :
    ∃ ds, declarations (.of workDir (options.forDefinitions workDir defs)
        (Document.build rs defs ignoreHead registry).1) Document.rootName = .ok ds ∧
      compiled = ⟨String.ofList (separate (declarationsText ds)),
        (Document.build rs defs ignoreHead registry).1⟩ := by
  unfold routes at h
  generalize Document.build rs defs ignoreHead registry = built at h ⊢
  obtain ⟨schema, registry'⟩ := built
  dsimp only at h ⊢
  rw [schemaText_forDefinitions] at h
  cases hds : declarations (.of workDir (options.forDefinitions workDir defs) schema)
      Document.rootName with
  | error e =>
    rw [hds] at h
    cases h
  | ok ds =>
    rw [hds] at h
    obtain rfl := Except.ok.inj h
    refine ⟨ds, rfl, ?_⟩
    dsimp only
    rw [String.toList_ofList]

section routes

variable {workDir : String} {rs : Route.Routes} {defs : List (String × Json)} {ignoreHead : Bool}
variable {options : Options} {registry : Naming.Registry} {compiled : Compiled}

theorem exists_declarations_of_routes
    (h : (routes workDir rs defs ignoreHead options registry).1 = .ok compiled) :
    ∃ ds, declarations (.of workDir (options.forDefinitions workDir defs) compiled.schema)
        Document.rootName = .ok ds ∧
      compiled.text = String.ofList (separate (declarationsText ds)) := by
  obtain ⟨ds, hds, rfl⟩ := compiled_of_routes h
  exact ⟨ds, hds, rfl⟩

/-- The text of an application starts with a character that is not blank, behind an empty line at
most. -/
theorem exists_append_of_routes
    (h : (routes workDir rs defs ignoreHead options registry).1 = .ok compiled) :
    ∃ w c s, compiled.text.toList = w ++ c :: s ∧ isBlank c = false ∧ (w = [] ∨ w = ['\n']) := by
  obtain ⟨ds, hds, htext⟩ := exists_declarations_of_routes h
  obtain ⟨c, s, hc, hcases⟩ := exists_declarationsText_eq_cons (ne_nil_of_declarations hds)
  have hbrace : c ≠ '}' ∧ isBlank c = false := by
    obtain rfl | rfl := hcases
    · exact ⟨by decide, by decide⟩
    · exact ⟨by decide, by decide⟩
  obtain ⟨w, s', hs', hw⟩ := exists_separate_eq_append (s := s) hbrace.1
  refine ⟨w, c, s', ?_, hbrace.2, hw⟩
  rw [htext, String.toList_ofList, hc, hs']

/-- The text of an application starts with an empty line or with a character that is not blank. -/
theorem exists_text_of_routes
    (h : (routes workDir rs defs ignoreHead options registry).1 = .ok compiled) :
    ∃ d s, compiled.text.toList = d :: s ∧ (isBlank d = false ∨ d = '\n') := by
  obtain ⟨w, c, s, htext, hc, rfl | rfl⟩ := exists_append_of_routes h
  · exact ⟨c, s, htext, .inl hc⟩
  · exact ⟨'\n', c :: s, htext, .inr rfl⟩

end routes

end Compile

end ApiTypes
