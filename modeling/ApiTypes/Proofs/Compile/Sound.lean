import ApiTypes.Proofs.Compile.Closed
import ApiTypes.Proofs.Compile.Values

namespace ApiTypes.Compile

open TypeScript

/-- A reference was given a name, whether its target is declared yet or not. -/
def State.Leads (s : State) (ref : String) (t : TypeExpr) : Prop :=
  ∃ name, t = .named name ∧ (ref, name) ∈ s.refs

/-- The types of schemas by what is declared: a schema has the type of its layer, or the name under
which that type is declared. -/
inductive Made (c : Context) (s : State) : Json → TypeExpr → Prop
  | inline {schema : Json} {t : TypeExpr} (R : Json → TypeExpr → Prop)
      (hR : ∀ schema t, R schema t → Made c s schema t)
      (ht : (Typing.mk R s.Leads).OfSchema c schema t) : Made c s schema t
  | declared {schema : Json} {d : Declaration} (R : Json → TypeExpr → Prop)
      (hR : ∀ schema t, R schema t → Made c s schema t) (hd : some d ∈ s.slots)
      (ht : (Typing.mk R s.Leads).OfSchema c schema d.type) : Made c s schema (.named d.name)

def made (c : Context) (s : State) : Typing :=
  ⟨Made c s, s.Leads⟩

/-- The declaration that a schema of a type from `made` stands for. -/
structure State.Declares (c : Context) (s : State) (schema : Json) (d : Declaration) : Prop where
  slot : some d ∈ s.slots
  type : (made c s).OfSchema c schema d.type

def State.Settled (c : Context) (s : State) (e : String × String) : Prop :=
  ∃ pointer target d, e = ("#" ++ pointer, d.name) ∧
    Json.Pointer.resolve? pointer c.root = some target ∧ s.Declares c target d

structure State.Within (s s' : State) : Prop where
  refs : s.refs ⊆ s'.refs
  slots : ∀ d, some d ∈ s.slots → some d ∈ s'.slots

section mono

variable {c : Context} {s s' : State}

theorem State.Leads.mono (h : s.Within s') {ref : String} {t : TypeExpr} (ht : s.Leads ref t) :
    s'.Leads ref t := by
  obtain ⟨name, rfl, hn⟩ := ht
  exact ⟨name, rfl, h.refs hn⟩

theorem Made.mono (h : s.Within s') {schema : Json} {t : TypeExpr} (ht : Made c s schema t) :
    Made c s' schema t := by
  have hsub : ∀ R, (Typing.mk R s.Leads).Sub ⟨R, s'.Leads⟩ :=
    fun R => ⟨fun hr => hr, fun hl => State.Leads.mono h hl⟩
  induction ht with
  | inline R _ ht ih => exact .inline R ih (ht.mono (hsub R))
  | declared R _ hd ht ih => exact .declared R ih (h.slots _ hd) (ht.mono (hsub R))

theorem sub_made (h : s.Within s') : (made c s).Sub (made c s') :=
  ⟨fun ht => ht.mono h, fun hl => hl.mono h⟩

theorem State.Settled.mono (h : s.Within s') {e : String × String} (he : s.Settled c e) :
    s'.Settled c e := by
  obtain ⟨pointer, target, d, he, ht, hd⟩ := he
  exact ⟨pointer, target, d, he, ht, h.slots d hd.slot, hd.type.mono (sub_made h)⟩

end mono

/-- From `s` to `s'` places were added behind those of `s`, and the addresses that were added are
settled. -/
structure Context.Settles (c : Context) (s s' : State) : Prop where
  slots : s.slots <+: s'.slots
  refs : s.refs ⊆ s'.refs
  settled : ∀ e ∈ s'.refs, e ∈ s.refs ∨ s'.Settled c e

theorem Context.Settles.within {c : Context} {s s' : State} (h : c.Settles s s') : s.Within s' :=
  ⟨h.refs, fun _ hd => h.slots.subset hd⟩

/-- The discipline of a document without definitions, whose parts are compiled in one place. -/
def settling (c : Context) : Discipline where
  inv s := s.bases = []
  grows := c.Settles
  error _ := True
  refl _ := ⟨List.prefix_rfl, List.Subset.refl _, fun _ he => .inl he⟩
  trans h h' := by
    refine ⟨h.slots.trans h'.slots, List.Subset.trans h.refs h'.refs, fun e he => ?_⟩
    obtain he | he := h'.settled e he
    · exact (h.settled e he).imp id fun he => he.mono h'.within
    · exact .inr he

section steps

variable {c : Context} {inner : Json → Action TypeExpr} {schema : Json}

/-- The place of a declaration is still open where its type is complete, and is filled then. -/
theorem keeps_declare (name : String) (description : Option String)
    (hinner : (settling c).Keeps (inner schema) fun t s => (made c s).OfSchema c schema t) :
    (settling c).Keeps (declare name description (inner schema)) fun t s =>
      ∃ d, t = .named name ∧ d.name = name ∧ s.Declares c schema d := by
  intro s hs
  rw [ends_declare]
  refine (hinner { s with slots := s.slots ++ [none] } hs).imp ?_
  rintro t s' ⟨hs', hg, ht⟩
  obtain ⟨rest, hrest⟩ := hg.slots
  -- the place is still empty when the type is known, behind those there were and before `rest`
  have hset : s'.slots.set s.slots.length (some ⟨name, description, t⟩) =
      s.slots ++ some ⟨name, description, t⟩ :: rest := by
    rw [← hrest]
    simp
  have hwithin : s'.Within { s' with
      slots := s'.slots.set s.slots.length (some ⟨name, description, t⟩) } := by
    refine ⟨List.Subset.refl _, fun d hd => ?_⟩
    rw [hset]
    rw [← hrest] at hd
    simp only [List.append_assoc, List.mem_append, List.mem_cons, List.not_mem_nil,
      reduceCtorEq, false_or] at hd ⊢
    exact hd.imp id .inr
  refine ⟨hs', ⟨?_, hg.refs, ?_⟩, ⟨name, description, t⟩, rfl, rfl, ?_, ?_⟩
  · exact ⟨_, hset.symm⟩
  · intro e he
    exact (hg.settled e he).imp id fun he => he.mono hwithin
  · rw [hset]
    simp
  · exact ht.mono (sub_made hwithin)

theorem aliasKey?_root (hdefs : c.root.get? "definitions" = none) (pointer : String) :
    c.aliasKey? "" pointer = none := by
  have hd : c.definitions? = none := by simp [Context.definitions?, hdefs]
  simp [Context.aliasKey?, Context.definitionId?, hd]

/-- A target in the root is looked up without any change. -/
theorem ends_target_root {s : State} {pointer : String} {Q : Json → State → Prop}
    (hQ : ∀ j, Json.Pointer.resolve? pointer c.root = some j → Q j s) :
    Ends (target c "" pointer) s Q fun _ => True := by
  unfold target document
  rw [if_pos rfl, ends_bind, ends_pure]
  split
  · next j hj => exact hQ j hj
  · trivial

theorem keeps_reference_settling (hdefs : c.root.get? "definitions" = none)
    (hlocal : c.root.Local) (hinner : ∀ schema, schema.Local →
      (settling c).Keeps (inner schema) fun t s => (made c s).OfSchema c schema t)
    (pointer : String) :
    (settling c).Keeps (reference c inner ("#" ++ pointer))
      fun t s => s.Leads ("#" ++ pointer) t := by
  intro s hs
  have hbase : c.base s.bases "" = "" := by
    rw [show s.bases = [] from hs]
    rfl
  have hkey : targetKey "" pointer = "#" ++ pointer := by simp [targetKey]
  unfold reference
  simp only [ends_bind, ends_get, splitReference_pointer, hbase, aliasKey?_root hdefs, hkey,
    Option.bind_none, Option.or_none]
  split
  · next name hname =>
    exact ⟨hs, (settling c).refl s, name, rfl, Table.mem_of_get? hname⟩
  rw [ends_bind]
  refine ends_target_root fun schema hschema => ?_
  simp only [ends_bind, ends_uniqueName, ends_modify, if_true]
  generalize freshName s.names _ = name
  have hdeclare := keeps_declare name (description? schema)
    (hinner schema (hlocal.within (Json.within_of_resolve? hschema)))
  refine (hdeclare ⟨name :: s.names, ("#" ++ pointer, name) :: s.refs, s.documents, s.slots,
    s.bases⟩ hs).imp ?_
  rintro _ s' ⟨hs', hg, d, rfl, rfl, hd⟩
  -- the new address is settled now that the declaration of its target is complete
  refine ⟨hs', ⟨hg.slots, ?_, ?_⟩, d.name, rfl, hg.refs List.mem_cons_self⟩
  · exact List.Subset.trans (List.subset_cons_self _ _) hg.refs
  · intro e he
    obtain he | he := hg.settled e he
    · obtain rfl | he := List.mem_cons.1 he
      · exact .inr ⟨pointer, schema, d, rfl, hschema, hd⟩
      · exact .inl he
    · exact .inr he

theorem types_settling (hdefs : c.root.get? "definitions" = none) (hlocal : c.root.Local)
    (hinner : ∀ schema, schema.Local →
      (settling c).Keeps (inner schema) fun t s => (made c s).OfSchema c schema t) :
    (settling c).Types (made c) Json.Local c inner := by
  -- references and titles are where a schema is declared; everything else has its type in place
  have hreference := keeps_reference_settling hdefs hlocal hinner
  constructor
  · exact fun j k hk hj => hk.within (Json.Within.self.part hj)
  · exact fun s s' hg => sub_made hg.within
  · intro schema hs
    unfold typeOf
    split
    · next ref hr =>
      obtain ⟨members, rfl, hm⟩ := Json.exists_members_of_text? hr
      obtain ⟨pointer, rfl⟩ := hs members ref .self hm
      exact (hreference pointer).mono fun t s _ ht => .inline _ (fun _ _ h => h) (.reference hr ht)
    · next title _ _ =>
      intro s hs'
      simp only [ends_bind, ends_uniqueName]
      generalize freshName s.names (safeName title) = name
      refine (keeps_declare name (description? schema) (hinner schema hs)
        ⟨name :: s.names, s.refs, s.documents, s.slots, s.bases⟩ hs').imp ?_
      rintro _ s' ⟨hs', hg, d, rfl, hn, hd⟩
      rw [← hn]
      exact ⟨hs', ⟨hg.slots, hg.refs, hg.settled⟩, .declared _ (fun _ _ h => h) hd.slot hd.type⟩
    · exact (hinner schema hs).mono fun t s _ ht => .inline _ (fun _ _ h => h) ht
  · intro members ref hs hr
    obtain ⟨pointer, rfl⟩ := hs members ref .self (Json.eq_string hr)
    exact hreference pointer

theorem keeps_bodyType_settling (hdefs : c.root.get? "definitions" = none)
    (hlocal : c.root.Local) (bound : Nat) (hs : schema.Local) :
    (settling c).Keeps (bodyType c bound schema) fun t s => (made c s).OfSchema c schema t :=
  Discipline.keeps_bodyType trivial (fun _ => types_settling hdefs hlocal) bound schema hs

end steps

/-- At the end every address is settled, and so is the document itself. -/
theorem ends_program_settled {c : Context} (hdefs : c.root.get? "definitions" = none)
    (hlocal : c.root.Local) (name : String) :
    Ends (program c name) State.empty
      (fun _ s => (∀ e ∈ s.refs, s.Settled c e) ∧
        ∃ d, d.name = safeName name ∧ s.Declares c c.root d) fun _ => True := by
  have hd : c.definitions? = none := by simp [Context.definitions?, hdefs]
  have hkey : targetKey "" "" = "#" ++ "" := by simp [targetKey]
  have hfresh : freshName State.empty.names (safeName name) = safeName name := by
    simp [freshName, State.empty, candidate]
  have hroot : Ends (root c name) State.empty
      (fun _ s => (∀ e ∈ s.refs, s.Settled c e) ∧
        ∃ d, d.name = safeName name ∧ s.Declares c c.root d) fun _ => True := by
    unfold root
    simp only [ends_bind, ends_uniqueName, ends_modify, hkey, hfresh]
    refine (keeps_declare (safeName name) (description? c.root)
      (keeps_bodyType_settling hdefs hlocal c.bound hlocal)
      ⟨[safeName name], [("#" ++ "", safeName name)], [], [], []⟩ rfl).imp ?_
    rintro _ s ⟨-, hg, d, rfl, hn, hd⟩
    refine ⟨fun e he => ?_, d, hn, hd⟩
    -- the address of the root was added first, and it is settled by now like the others
    obtain he | he := hg.settled e he
    · obtain rfl := List.mem_singleton.1 he
      exact ⟨"", c.root, d, by rw [hn], rfl, hd⟩
    · exact he
  unfold program
  rw [ends_bind]
  refine hroot.imp fun _ s hs => ?_
  split
  · rw [allDefinitions, hd]
    exact hs
  · exact hs

/-- One rule of schemas: what it accepts has the type that the schema has by its form, if what the
parts accept has all types of the parts. -/
theorem inhabits_of_accepts {c : Context} {s : State} {ds : List Declaration}
    (hallow : c.options.allowsAdditional = true) (hsettled : ∀ e ∈ s.refs, s.Settled c e)
    (hds : ∀ d, some d ∈ s.slots → d ∈ ds)
    (honly : ∀ d ∈ ds, ∀ d' ∈ ds, d'.name = d.name → d' = d) {schema v : Json}
    (hv : Schema.Accepts c.root (fun schema v => ∀ t, Made c s schema t → Inhabits ds t v) schema v)
    {t : TypeExpr} (ht : (made c s).OfSchema c schema t) : Inhabits ds t v := by
  have hsound : (made c s).Sound (fun schema v => ∀ t, Made c s schema t → Inhabits ds t v) ds :=
    ⟨fun ht hv => hv _ ht, fun v hv =>
      not_inhabits_never (hv _ (.inline _ (fun _ _ h => h) .never))⟩
  -- a schema has its type from the rule for its form; those for other forms are ruled out
  cases hv with
  | any v hf ho =>
    cases ht with
    | never => exact absurd rfl hf
    | any => exact inhabits_unknown v
    | reference hr =>
      obtain ⟨members, rfl, -⟩ := Json.exists_members_of_text? hr
      exact absurd rfl (ho members)
    | keywords => exact absurd rfl (ho _)
  | @reference members pointer target v hr htarget hv =>
    cases ht with
    | any ho => exact absurd rfl (ho members)
    | reference hr' hl =>
      obtain rfl : "#" ++ pointer = _ :=
        Json.string.inj (Option.some.inj (hr.symm.trans (Json.eq_string hr')))
      obtain ⟨name, rfl, hn⟩ := hl
      obtain ⟨pointer', target', d, he, htarget', hd⟩ := hsettled _ hn
      obtain ⟨hp, rfl⟩ := Prod.mk.inj he
      obtain rfl : pointer = pointer' := by simpa using hp
      obtain rfl := Option.some.inj (htarget.symm.trans htarget')
      exact .named (hds d hd.slot) (honly d (hds d hd.slot))
        (hv d.type (.inline _ (fun _ _ h => h) hd.type))
    | keywords hr' => simp [Json.text?, Json.get?, hr, Json.string?] at hr'
  | keywords hr hk =>
    cases ht with
    | any ho => exact absurd rfl (ho _)
    | reference hr' => exact absurd (Json.eq_string hr') (hr _)
    | keywords _ ht => exact ht.inhabits hsound hk hallow

/-- The valid values of a schema have all types that the schema has where every address is settled
and names are not ambiguous. -/
theorem inhabits_of_valid {c : Context} {s : State} {ds : List Declaration}
    (hallow : c.options.allowsAdditional = true) (hsettled : ∀ e ∈ s.refs, s.Settled c e)
    (hds : ∀ d, some d ∈ s.slots → d ∈ ds)
    (honly : ∀ d ∈ ds, ∀ d' ∈ ds, d'.name = d.name → d' = d) {schema v : Json}
    (hv : Schema.Valid c.root schema v) {t : TypeExpr} (ht : Made c s schema t) :
    Inhabits ds t v := by
  -- validity is the least relation that is closed under the rules of schemas, so it is enough that
  -- having all types of a schema is closed under them
  apply hv (fun schema v => ∀ t, Made c s schema t → Inhabits ds t v) ?_ t ht
  intro schema v hv t ht
  have hlayer : ∀ t, (made c s).OfSchema c schema t → Inhabits ds t v := fun _ ht =>
    inhabits_of_accepts hallow hsettled hds honly hv ht
  have hsub : ∀ R : Json → TypeExpr → Prop, (∀ schema t, R schema t → Made c s schema t) →
      (Typing.mk R s.Leads).Sub (made c s) := fun R hR => ⟨fun h => hR _ _ h, fun h => h⟩
  cases ht with
  | inline R hR ht => exact hlayer t (ht.mono (hsub R hR))
  | declared R hR hd ht =>
    exact .named (hds _ hd) (honly _ (hds _ hd)) (hlayer _ (ht.mono (hsub R hR)))

/-- The values that a document accepts have the type declared for it, whatever the document refers
to in itself. -/
theorem valid_inhabits (workDir : String) (options : Options) (doc : Json) (name : String)
    {ds : List Declaration} (hdefs : doc.get? "definitions" = none) (hlocal : doc.Local)
    (hallow : options.allowsAdditional = true)
    (h : declarations (.of workDir options doc) name = .ok ds) {v : Json}
    (hv : Schema.Valid doc doc v) : Inhabits ds (.named (safeName name)) v := by
  obtain ⟨s, bare, hrun, -, ha⟩ := exists_adds_of_declarations h
  obtain ⟨hsettled, d, hn, hd⟩ := (ends_program_settled hdefs hlocal name).of_run hrun
  have hds : ∀ d, some d ∈ s.slots → d ∈ ds := by
    intro d hd
    simpa [show s.slots = ds.map some from ha.slots] using hd
  have honly : ∀ d ∈ ds, ∀ d' ∈ ds, d'.name = d.name → d' = d := by
    intro d hd d' hd' hname
    exact List.inj_on_of_nodup_map (nodup_of_declarations h) hd' hd hname
  rw [← hn]
  refine .named (hds d hd.slot) (honly d (hds d hd.slot)) ?_
  exact inhabits_of_valid hallow hsettled hds honly hv (.inline _ (fun _ _ h => h) hd.type)

def nested : Json :=
  .object [("items", .object [("$ref", .string "#")])]

theorem local_nested : nested.Local := by
  have hleaf : ∀ k, Json.Part k (.object [("$ref", .string "#")]) → k.Local := by
    rintro k ⟨hk⟩
    obtain ⟨rfl, rfl⟩ := Prod.mk.inj (List.mem_singleton.1 ‹_›)
    exact Json.local_of_parts (by simp) (by rintro _ ⟨⟩)
  refine Json.local_of_parts ?_ ?_
  · rintro _ ref ⟨⟩ hr
    cases hr
  · rintro k ⟨hk⟩
    obtain ⟨rfl, rfl⟩ := Prod.mk.inj (List.mem_singleton.1 ‹_›)
    refine Json.local_of_parts ?_ hleaf
    rintro _ ref ⟨⟩ hr
    cases hr
    exact ⟨"", rfl⟩

theorem valid_nested {xs : List Json} (h : ∀ x ∈ xs, Schema.Valid nested nested x) :
    Schema.Valid nested nested (.array xs) := by
  have htarget : ∀ x ∈ xs, Schema.Valid nested (.object [("$ref", .string "#")]) x := by
    intro x hx
    have hr : Table.get? "$ref" [("$ref", Json.string "#")] = some (.string ("#" ++ "")) := rfl
    exact Schema.valid_of_accepts (.reference hr rfl (h x hx))
  refine Schema.valid_of_accepts (.keywords (by rintro _ ⟨⟩) ?_)
  have hitems : ∀ schema, Table.get? "items" [("items", Json.object [("$ref", .string "#")])] =
      some schema → schema = .object [("$ref", .string "#")] := by
    rintro _ ⟨⟩
    rfl
  constructor
  case items =>
    rintro schema hs - _ ⟨⟩ x hx
    rw [hitems schema hs]
    exact htarget x hx
  case tuple => rintro schemas ⟨⟩
  case object => rintro - (h | h) <;> cases h
  case array => exact fun _ _ _ => ⟨xs, rfl⟩
  all_goals rintro _ ⟨⟩

theorem valid_inhabits_nested :
    nested.get? "definitions" = none ∧ nested.Local ∧ Options.default.allowsAdditional = true ∧
      ∃ ds, declarations (.of "/app" .default nested) "Nested" = .ok ds ∧
        Inhabits ds (.named "Nested") (.array [.array [], .array [.array []]]) := by
  have hok : (declarations (.of "/app" .default nested) "Nested").toOption.isSome = true := by
    decide +kernel
  have hname : safeName "Nested" = "Nested" := by decide
  refine ⟨rfl, local_nested, rfl, ?_⟩
  cases h : declarations (.of "/app" .default nested) "Nested" with
  | error e =>
    rw [h] at hok
    cases hok
  | ok ds =>
    have hv : Schema.Valid nested nested (.array [.array [], .array [.array []]]) := by
      simp [valid_nested]
    rw [← hname]
    exact ⟨ds, rfl, valid_inhabits "/app" .default nested "Nested" rfl local_nested rfl h hv⟩

end ApiTypes.Compile
