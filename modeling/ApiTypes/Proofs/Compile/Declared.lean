import ApiTypes.Proofs.Compile.Closed
import ApiTypes.Proofs.Compile.Record
import ApiTypes.Proofs.Compile.Scope

namespace ApiTypes.Compile

open TypeScript Json

/-- From `w` to `w'` the events `seen` and the declarations `ds` were added: those of the names that
places were opened for, among them the names of targets that are to be declared and `opens`. -/
structure Filled (w w' : Watch) (seen : List Event) (ds : List Declaration) (opens : List String) :
    Prop where
  log : w'.log = w.log ++ seen
  slots : w'.state.slots = w.state.slots ++ ds.map some
  names : ds.map Declaration.name = openings seen
  declared : ∀ n ∈ namings seen, n.declared = true → n.name ∈ openings seen
  opens : opens ⊆ openings seen

/-- Where the action answers, all places that it opened are filled. -/
def Fills {α : Type} (opens : List String) (a : Watched α) : Prop :=
  ∀ w x w', a.run w = (.ok x, w') → ∃ seen ds, Filled w w' seen ds opens

section rules

variable {α β : Type} {w w' w'' : Watch} {opens opens' : List String}

theorem filled_unopened {s : State} {seen : List Event} (hnamings : namings seen = [])
    (hopenings : openings seen = []) (hslots : s.slots = w.state.slots) :
    Filled w ⟨s, w.log ++ seen⟩ seen [] [] where
  log := rfl
  slots := by rw [hslots, List.map_nil, List.append_nil]
  names := hopenings.symm
  declared := by simp [hnamings]
  opens := List.nil_subset _

theorem Filled.trans {seen seen' : List Event} {ds ds' : List Declaration}
    (h : Filled w w' seen ds opens) (h' : Filled w' w'' seen' ds' opens') :
    Filled w w'' (seen ++ seen') (ds ++ ds') (opens ++ opens') where
  log := by rw [h'.log, h.log, List.append_assoc]
  slots := by rw [h'.slots, h.slots, List.map_append, List.append_assoc]
  names := by rw [List.map_append, h.names, h'.names, openings_append]
  declared n hn hdeclared := by
    rw [namings_append] at hn
    rw [openings_append]
    obtain hn | hn := List.mem_append.1 hn
    · exact List.mem_append_left _ (h.declared n hn hdeclared)
    · exact List.mem_append_right _ (h'.declared n hn hdeclared)
  opens := by
    rw [openings_append]
    exact List.append_subset.2 ⟨List.Subset.trans h.opens (List.subset_append_left _ _),
      List.Subset.trans h'.opens (List.subset_append_right _ _)⟩

theorem Fills.forget {a : Watched α} (opens : List String) (h : Fills opens a) : Fills [] a := by
  intro w x w' hrun
  obtain ⟨seen, ds, hfilled⟩ := h w x w' hrun
  exact ⟨seen, ds, { hfilled with opens := List.nil_subset _ }⟩

theorem fills_pure (x : α) : Fills [] (pure x) := by
  intro w y w' hrun
  obtain rfl : w = w' := congrArg Prod.snd hrun
  exact ⟨[], [], (List.append_nil w.log).symm, (List.append_nil w.state.slots).symm, rfl, by
    simp [namings], List.nil_subset _⟩

theorem Fills.bind {a : Watched β} {f : β → Watched α} (h : Fills opens a)
    (hf : ∀ x, Fills opens' (f x)) : Fills (opens ++ opens') (a >>= f) := by
  intro w y w' hrun
  obtain ⟨x, w₁, ha, hx⟩ := Watched.exists_of_run_bind_ok hrun
  obtain ⟨seen, ds, hfilled⟩ := h w x w₁ ha
  obtain ⟨seen', ds', hfilled'⟩ := hf x w₁ y w' hx
  exact ⟨_, _, hfilled.trans hfilled'⟩

/-- A step that opens no place. -/
theorem fills_step {a : Action α} (h : ∀ s, (a.run s).2.slots = s.slots) : Fills [] (.step a) := by
  intro w x w' hrun
  have hstep := Watched.run_step (w := w) (a := a) rfl
  obtain rfl := congrArg Prod.snd (hstep.symm.trans hrun)
  exact ⟨_, _, filled_unopened rfl rfl (h w.state)⟩

theorem fills_modify {f : State → State} {a : Watched α} (h : Fills opens a)
    (hslots : ∀ s, (f s).slots = s.slots) : Fills opens (do Watched.step (modify f); a) := by
  have hstep : Fills [] (Watched.step (modify f)) := fills_step hslots
  exact hstep.bind fun _ => h

/-- A note, also that of a target to be declared, if its place is opened later. -/
theorem Fills.note {e : Event} {a : Watched α} (h : Fills opens a) (hopening : e.opening? = none)
    (hnaming : ∀ n, e.naming? = some n → n.declared = true → n.name ∈ opens) :
    Fills opens (do Watched.note e; a) := by
  intro w x w' hrun
  obtain ⟨seen, ds, hfilled⟩ := h { w with log := w.log ++ [e] } x w' hrun
  have hopenings : openings (e :: seen) = openings seen := List.filterMap_cons_none hopening
  refine ⟨e :: seen, ds, ?_, hfilled.slots, ?_, ?_, ?_⟩
  · rw [hfilled.log, List.append_assoc]
    rfl
  · rw [hopenings]
    exact hfilled.names
  · intro n hn hdeclared
    rw [hopenings]
    -- what has been noted may itself give a name
    cases hname : e.naming? with
    | none =>
      rw [namings, List.filterMap_cons_none hname] at hn
      exact hfilled.declared n hn hdeclared
    | some n' =>
      rw [namings, List.filterMap_cons_some hname] at hn
      obtain rfl | hn := List.mem_cons.1 hn
      · exact hfilled.opens (hnaming n hname hdeclared)
      · exact hfilled.declared n hn hdeclared
  · rw [hopenings]
    exact hfilled.opens

theorem Fills.noting {event : State → Except Error α → State → Event} {a : Watched α}
    (h : Fills opens a) (hnaming : ∀ s r t, (event s r t).naming? = none)
    (hopening : ∀ s r t, (event s r t).opening? = none) : Fills opens (.noting event a) := by
  intro w x w' hrun
  rcases ha : a.run w with ⟨r, w₁⟩
  obtain ⟨rfl, rfl⟩ := Prod.mk.inj ((Watched.run_noting ha).symm.trans hrun)
  obtain ⟨seen, ds, hfilled⟩ := h w x w₁ ha
  have hnoted : Filled w₁ ⟨w₁.state, w₁.log ++ [event w.state (.ok x) w₁.state]⟩
      [event w.state (.ok x) w₁.state] [] [] :=
    filled_unopened (List.filterMap_cons_none (hnaming _ _ _))
      (List.filterMap_cons_none (hopening _ _ _)) rfl
  have hboth := hfilled.trans hnoted
  exact ⟨_, _, { hboth with opens := List.Subset.trans (List.subset_append_left _ _) hboth.opens }⟩

theorem Fills.within {base : String} {a : Watched α} (h : Fills opens a) :
    Fills opens (.within base a) := by
  unfold Watched.within
  split
  · exact h
  · intro w x w' hrun
    rcases ha : a.run ⟨{ w.state with bases := base :: w.state.bases },
      w.log ++ [.entered base]⟩ with ⟨r, w₁⟩
    have hinside : (Watched.inside base a).run w =
        (r, ⟨{ w₁.state with bases := w₁.state.bases.tail }, w₁.log ++ [.left base]⟩) :=
      Watched.run_inside ha
    obtain ⟨rfl, rfl⟩ := Prod.mk.inj (hinside.symm.trans hrun)
    obtain ⟨seen, ds, hfilled⟩ := h _ x w₁ ha
    -- entering and leaving a document opens no place
    have hentered : Filled w ⟨{ w.state with bases := base :: w.state.bases },
        w.log ++ [.entered base]⟩ [.entered base] [] [] := filled_unopened rfl rfl rfl
    have hleft : Filled w₁ ⟨{ w₁.state with bases := w₁.state.bases.tail },
        w₁.log ++ [.left base]⟩ [.left base] [] [] := filled_unopened rfl rfl rfl
    have hall := (hentered.trans hfilled).trans hleft
    exact ⟨_, _, { hall with opens := List.Subset.trans (List.subset_append_left _ _) hall.opens }⟩

/-- The place of a declaration comes before those that its type opens. -/
theorem fills_declare {name : String} {description : Option String} {a : Watched TypeExpr}
    (h : Fills opens a) : Fills (name :: opens) (.declare name description a) := by
  intro w x w' hrun
  obtain ⟨t, w₁, s, s₁, rfl, hs, ha, hs₁, rfl⟩ := Watched.exists_of_run_declare hrun
  obtain ⟨seen, ds, hfilled⟩ := h _ t w₁ ha
  -- the place that was opened first is filled last, and what was declared meanwhile stands behind
  -- it
  have hslots : w₁.state.slots = w.state.slots ++ none :: ds.map some := by
    rw [hfilled.slots, hs, List.append_assoc]
    rfl
  refine ⟨[.opened name, .moment w.state, .moment w.state, .moment w.state, .moment s] ++ seen ++
    [.moment w₁.state, .moment s₁], ⟨name, description, t⟩ :: ds, ?_, ?_, ?_, ?_, ?_⟩
  · show w₁.log ++ _ = _
    rw [hfilled.log]
    simp only [List.append_assoc]
  · show s₁.slots = _
    rw [hs₁]
    show w₁.state.slots.set _ _ = _
    rw [hslots]
    simp
  · rw [openings_append, openings_append, List.map_cons, hfilled.names]
    exact (List.append_nil (name :: openings seen)).symm
  · intro n hn hdeclared
    rw [namings_append, namings_append] at hn
    rw [openings_append, openings_append]
    have hseen : n ∈ namings seen := List.append_nil (namings seen) ▸ hn
    exact List.mem_append_left _ (List.mem_append_right _ (hfilled.declared n hseen hdeclared))
  · rw [openings_append, openings_append]
    exact List.subset_append_of_subset_left _ (List.cons_subset_cons _ hfilled.opens)

end rules

def filling : Simulation Watched Watched where
  Rel a _ := Fills [] a
  rel_pure := fills_pure
  rel_bind h hf := h.bind hf

section layers

variable {c : Context} {inner : Json → Watched TypeExpr}

theorem fills_uniqueName (hint : String) : Fills [] (.step (uniqueName hint)) :=
  fills_step fun _ => rfl

variable (hinner : ∀ schema, Fills [] (inner schema))

include hinner

theorem fills_watchedReference (ref : String) : Fills [] (watchedReference c inner ref) := by
  refine Fills.note ?_ rfl fun n hn => nomatch hn
  refine Fills.noting ?_ (fun _ _ _ => rfl) fun _ _ _ => rfl
  refine Fills.bind (fills_step fun _ => rfl) fun s => ?_
  dsimp only [Context.address]
  generalize c.base s.bases (splitReference ref).1 = base
  generalize (splitReference ref).2 = pointer
  cases s.known? c base pointer with
  | some name => exact fills_pure _
  | none =>
    have hlooked : Fills [] (Watched.noting (fun _ found _ => .lookedUp ref found)
        (.step (target c base pointer))) := by
      refine (fills_step fun s => ?_).noting (fun _ _ _ => rfl) fun _ _ _ => rfl
      obtain ⟨found, documents, hrun⟩ := exists_run_target c base pointer s
      rw [hrun]
    refine hlooked.bind fun schema => (fills_uniqueName _).bind fun name => ?_
    dsimp only
    -- a target that is not declared has a name and no place
    cases base == "" || c.options.declaresExternal with
    | true =>
      refine .forget [name] (Fills.note (fills_modify ?_ fun _ => rfl) rfl ?_)
      · exact (fills_declare (hinner schema)).within
      · rintro _ ⟨⟩ -
        exact List.mem_singleton_self name
    | false =>
      refine Fills.note (fills_modify (fills_pure _) fun _ => rfl) rfl ?_
      rintro _ ⟨⟩ ⟨⟩

theorem simulates_filling :
    Simulates filling (fun _ => True) (.watched c inner) (.watched c inner) where
  inherited _ _ _ _ := trivial
  reference _ ref _ _ := fills_watchedReference hinner ref
  titled title schema _ :=
    (fills_uniqueName title).bind fun name => (fills_declare (hinner schema)).forget [name]
  inner schema _ := hinner schema

end layers

theorem fills_watchedType (c : Context) (bound : Nat) (schema : Json) :
    Fills [] (watchedType c bound schema) := by
  -- on the bound, because what a schema leads to is compiled with one less
  induction bound generalizing schema with
  | zero =>
    intro w x w' hrun
    cases congrArg Prod.fst hrun
  | succ bound ih =>
    exact Fills.note ((simulates_filling ih).schemaType trivial) rfl fun n hn => nomatch hn

section program

variable (c : Context)

theorem fills_watchedRoot (name : String) : Fills [] (watchedRoot c name) := by
  refine (fills_uniqueName name).bind fun name => ?_
  refine .forget [name] (Fills.note (fills_modify ?_ fun _ => rfl) rfl ?_)
  · exact fills_declare (fills_watchedType c c.bound c.root)
  · rintro _ ⟨⟩ -
    exact List.mem_singleton_self name

theorem fills_watchedProgram (name : String) : Fills [] (watchedProgram c name) := by
  unfold watchedProgram
  refine (fills_watchedRoot c name).bind fun _ => ?_
  split
  · have hall : filling.Rel (watchedDefinitions c) (watchedDefinitions c) := by
      refine filling.rel_forM fun id _ => ?_
      exact (fills_watchedReference (fills_watchedType c c.bound) _).bind fun _ => fills_pure _
    exact hall
  · exact fills_pure _

variable {c} {name : String} {ds : List Declaration}

/-- A compilation with declarations ends without an error, and its declarations are those of the
names that places were opened for. -/
theorem watch_of_declarations (h : declarations c name = .ok ds) :
    (c.watch name).1 = .ok () ∧ ds.map Declaration.name = openings (c.watch name).2.log ∧
      ∀ n ∈ namings (c.watch name).2.log, n.declared = true →
        n.name ∈ openings (c.watch name).2.log := by
  obtain ⟨s, bare, hrun, -, hadds⟩ := exists_adds_of_declarations h
  have hwatch := (watch_eq c name).trans hrun
  obtain ⟨hok, hstate⟩ := Prod.mk.inj hwatch
  obtain ⟨seen, ds', hfilled⟩ :=
    fills_watchedProgram c name ⟨.empty, []⟩ () (c.watch name).2 (Prod.ext hok rfl)
  have hseen : (c.watch name).2.log = seen := hfilled.log
  -- all places are filled in the end, by the declarations of the output
  have hslots : ds'.map some = ds.map some :=
    hfilled.slots.symm.trans ((congrArg State.slots hstate).trans hadds.slots)
  obtain rfl : ds' = ds := (List.map_inj_right fun _ _ => Option.some.inj).1 hslots
  refine ⟨hok, ?_, ?_⟩
  · rw [hseen]
    exact hfilled.names
  · rw [hseen]
    exact hfilled.declared

/-- The target of a name has a declaration if and only if it was met first as a part of the root, or
the targets in other documents are declared, too. -/
theorem mem_declarations_iff (h : declarations c name = .ok ds) {n : Naming}
    (hn : n ∈ namings (c.watch name).2.log) :
    n.name ∈ ds.map Declaration.name ↔
      n.address.1 = "" ∨ c.options.declaresExternal = true := by
  obtain ⟨-, hnames, hdeclared⟩ := watch_of_declarations h
  have horderly := orderly_watch c name
  have hflag : n.declared = (n.address.1 == "" || c.options.declaresExternal) :=
    (horderly.backed _ (mem_namings.1 hn)).1
  have hiff : n.declared = true ↔ n.address.1 = "" ∨ c.options.declaresExternal = true := by
    rw [hflag]
    simp
  rw [← hiff, hnames]
  constructor
  · intro hmem
    by_contra hfalse
    exact horderly.undeclared n hn (by simpa using hfalse) hmem
  · exact hdeclared n hn

/-- Following a reference leaves a trace of its answer. -/
theorem exists_followed {inner : Json → Watched TypeExpr} {ref : String} {w w' : Watch}
    {t : TypeExpr} (h : (watchedReference c inner ref).run w = (.ok t, w')) :
    ∃ after, .followed ref w.state (.ok t) after ∈ w'.log := by
  have hnoted : ∀ {a : Watched TypeExpr} {w₁ : Watch},
      (Watched.noting (.followed ref) a).run w₁ = (.ok t, w') →
        ∃ after, .followed ref w₁.state (.ok t) after ∈ w'.log := by
    intro a w₁ hrun
    rcases ha : a.run w₁ with ⟨r, w₂⟩
    obtain ⟨rfl, rfl⟩ := Prod.mk.inj ((Watched.run_noting ha).symm.trans hrun)
    exact ⟨w₂.state, by simp⟩
  obtain ⟨_, w₁, hmet, h⟩ := Watched.exists_of_run_bind_ok h
  obtain rfl := congrArg Prod.snd hmet
  have hfollowed := hnoted h
  exact hfollowed

/-- If definitions are to be declared, each of them is followed as a part of the root. -/
theorem exists_followed_of_forM {ids : List String}
    (hids : ∀ id ∈ ids, id ∈ Table.keys (c.definitions?.getD [])) {w w' : Watch}
    (hw : w.state.Inside c []) (hrun : (ids.forM fun id => do
      let _ ← watchedReference c (watchedType c c.bound) ("#" ++ definitionPointer id)).run w =
        (.ok (), w')) :
    w.log ⊆ w'.log ∧ ∀ id ∈ ids, ∃ before t after, before.bases = [] ∧
      .followed ("#" ++ definitionPointer id) before (.ok t) after ∈ w'.log := by
  -- what is seen only grows, so a reference that was followed for one definition is still there
  -- when the others are done
  induction ids generalizing w with
  | nil =>
    obtain rfl : w = w' := congrArg Prod.snd hrun
    exact ⟨List.Subset.refl _, by simp⟩
  | cons id ids ih =>
    obtain ⟨_, w₁, hfirst, hrest⟩ := Watched.exists_of_run_bind_ok hrun
    obtain ⟨t, w₂, hreference, hpure⟩ := Watched.exists_of_run_bind_ok hfirst
    obtain rfl : w₂ = w₁ := congrArg Prod.snd hpure
    have hstands : c.StandsIn [] ("#" ++ definitionPointer id) :=
      .inr ⟨rfl, id, hids id List.mem_cons_self, rfl⟩
    obtain ⟨-, hinside, seen, hseen, -⟩ :=
      mirrors_watchedReference (mirrors_watchedType c c.bound) hstands w hw
    rw [hreference] at hinside hseen
    obtain ⟨hsub, hall⟩ := ih (fun i hi => hids i (List.mem_cons_of_mem id hi)) hinside hrest
    obtain ⟨after, hafter⟩ := exists_followed hreference
    constructor
    · exact fun e he => hsub (hseen ▸ List.mem_append_left seen he)
    · intro i hi
      obtain rfl | hi := List.mem_cons.1 hi
      · exact ⟨w.state, t, after, hw.bases, hsub hafter⟩
      · exact hall i hi

/-- With all definitions to be declared, there is a reference to each of them. -/
theorem exists_followed_definition (h : declarations c name = .ok ds)
    (hall : c.options.unreachableDefinitions = true) {id : String}
    (hid : id ∈ Table.keys (c.definitions?.getD [])) :
    ∃ before t after,
      .followed ("#" ++ definitionPointer id) before (.ok t) after ∈ (c.watch name).2.log ∧
        c.address before.bases ("#" ++ definitionPointer id) = ("", definitionPointer id) := by
  obtain ⟨hok, -⟩ := watch_of_declarations h
  have hrun : (watchedProgram c name).run ⟨.empty, []⟩ = (.ok (), (c.watch name).2) :=
    Prod.ext hok rfl
  unfold watchedProgram at hrun
  rw [if_pos hall] at hrun
  obtain ⟨t, w, hroot, hdefinitions⟩ := Watched.exists_of_run_bind_ok hrun
  obtain ⟨-, hinside, -⟩ := mirrors_watchedRoot c name ⟨.empty, []⟩ ⟨rfl, reads_empty c⟩
  rw [hroot] at hinside
  obtain ⟨-, hfollowed⟩ := exists_followed_of_forM (fun _ hid => hid) hinside hdefinitions
  obtain ⟨before, t, after, hbases, hmem⟩ := hfollowed id hid
  refine ⟨before, t, after, hmem, ?_⟩
  rw [hbases, address_local]
  rfl

/-- A definition that is referred to as a part of the root has a declaration if and only if the
targets in other documents are declared or it was met in the root first; and if all definitions are
to be declared, there is such a reference to each of them. -/
theorem declared_iff_met_in_root (c : Context) (name : String) {ds : List Declaration}
    (h : declarations c name = .ok ds) :
    (∀ id ∈ Table.keys (c.definitions?.getD []), ∀ ref before t after,
      .followed ref before (.ok t) after ∈ (c.watch name).2.log →
      c.address before.bases ref = ("", definitionPointer id) →
        ∃ n ∈ namings (c.watch name).2.log, c.Meets n.address ("", definitionPointer id) ∧
          t = .named n.name ∧ ((∃ d ∈ ds, t = .named d.name) ↔
            c.options.declaresExternal = true ∨ n.address.1 = "")) ∧
    (c.options.unreachableDefinitions = true → ∀ id ∈ Table.keys (c.definitions?.getD []),
      ∃ before t after,
        .followed ("#" ++ definitionPointer id) before (.ok t) after ∈ (c.watch name).2.log ∧
          c.address before.bases ("#" ++ definitionPointer id) = ("", definitionPointer id)) := by
  refine ⟨fun id _ ref before t after hfollowed haddress => ?_,
    fun hall id hid => exists_followed_definition h hall hid⟩
  obtain ⟨-, -, n, hn, rfl, hmeets⟩ := (orderly_watch c name).backed _ hfollowed
  rw [haddress] at hmeets
  refine ⟨n, hn, hmeets, rfl, ?_⟩
  rw [or_comm, ← mem_declarations_iff h hn, List.mem_map]
  constructor
  · rintro ⟨d, hd, hname⟩
    exact ⟨d, hd, (TypeExpr.named.inj hname).symm⟩
  · rintro ⟨d, hd, hname⟩
    exact ⟨d, hd, congrArg TypeExpr.named hname.symm⟩

end program

def modes : List (String × Json) :=
  [("mode", .object [("type", .string "string")]), ("size", .object [("type", .string "number")])]

/-- Targets in other documents are not declared, but all definitions are to be. -/
def sparingOptions : Options :=
  Options.forDefinitions { Options.default with
    unreachableDefinitions := true, declareExternallyReferenced := some false } "/app" modes

/-- A reference to one definition as to a document and to the other as to a part of the root. -/
def sparingRoot : Json :=
  .object [("properties", .object [("a", .object [("$ref", .string "mode#")]),
    ("b", .object [("$ref", .string "#/definitions/size")])]), ("definitions", .object modes)]

def sparing : Context :=
  .of "/app" sparingOptions sparingRoot

def answers (log : List Event) : List (String × String) :=
  log.filterMap fun
    | .followed ref before (.ok (.named name)) _ =>
      if before.bases = [] then some (ref, name) else none
    | _ => none

theorem exists_of_mem_answers {c : Context} {name ref answer : String}
    (h : (ref, answer) ∈ answers (c.watch name).2.log) :
    ∃ before after, before.bases = [] ∧
      .followed ref before (.ok (.named answer)) after ∈ (c.watch name).2.log := by
  obtain ⟨e, he, hanswer⟩ := List.mem_filterMap.1 h
  split at hanswer
  · next ref' before name' after =>
    split at hanswer
    · next hbases =>
      obtain ⟨rfl, rfl⟩ := Prod.mk.inj (Option.some.inj hanswer)
      exact ⟨before, after, hbases, he⟩
    · cases hanswer
  · cases hanswer

theorem answers_sparing : answers (sparing.watch "Root").2.log =
    [("mode#", "Mode"), ("#/definitions/size", "Size"), ("#/definitions/mode", "Mode"),
      ("#/definitions/size", "Size")] := by
  decide +kernel

theorem exists_declarations_sparing : ∃ ds, declarations sparing "Root" = .ok ds ∧
    ds.map Declaration.name = ["Root", "Size"] := by
  have hnames : ((declarations sparing "Root").map (List.map Declaration.name)).toOption =
      some ["Root", "Size"] := by
    decide +kernel
  cases h : declarations sparing "Root" with
  | error e =>
    rw [h] at hnames
    cases hnames
  | ok ds =>
    rw [h] at hnames
    exact ⟨ds, rfl, Option.some.inj hnames⟩

theorem declared_iff_met_in_root_sparing :
    ∃ ds, declarations sparing "Root" = .ok ds ∧ ∃ before after,
      .followed "#/definitions/size" before (.ok (.named "Size")) after ∈
        (sparing.watch "Root").2.log ∧
      ∃ n ∈ namings (sparing.watch "Root").2.log, TypeExpr.named "Size" = .named n.name ∧
        ((∃ d ∈ ds, TypeExpr.named "Size" = .named d.name) ↔ n.address.1 = "") := by
  obtain ⟨ds, hds, -⟩ := exists_declarations_sparing
  have hanswer : ("#/definitions/size", "Size") ∈ answers (sparing.watch "Root").2.log := by
    rw [answers_sparing]
    decide
  obtain ⟨before, after, hbases, hfollowed⟩ := exists_of_mem_answers hanswer
  have haddress : sparing.address before.bases "#/definitions/size" =
      ("", definitionPointer "size") := by
    rw [hbases]
    decide +kernel
  obtain ⟨n, hn, -, hname, hiff⟩ := (declared_iff_met_in_root sparing "Root" hds).1 "size"
    (by decide +kernel) _ _ _ _ hfollowed haddress
  have hexternal : sparing.options.declaresExternal = false := rfl
  exact ⟨ds, hds, before, after, hfollowed, n, hn, hname, hiff.trans (by simp [hexternal])⟩

/-- A definition that is met as a document first is not declared, though all definitions are to
be. -/
theorem not_definitions_declared : ¬ ∀ (workDir name : String) (o : Options) (root : Json)
    (ds : List Declaration), declarations (.of workDir o root) name = .ok ds →
      o.unreachableDefinitions = true →
      ∀ id ∈ Table.keys ((Context.of workDir o root).definitions?.getD []),
      ∀ ref before t after,
        .followed ref before (.ok t) after ∈ ((Context.of workDir o root).watch name).2.log →
        (Context.of workDir o root).address before.bases ref = ("", definitionPointer id) →
          ∃ d ∈ ds, t = .named d.name := by
  intro hall
  obtain ⟨ds, hds, hnames⟩ := exists_declarations_sparing
  have hanswer : ("#/definitions/mode", "Mode") ∈ answers (sparing.watch "Root").2.log := by
    rw [answers_sparing]
    decide
  -- the name was given to the target as a document, under the other of its keys
  obtain ⟨before, after, hbases, hfollowed⟩ := exists_of_mem_answers hanswer
  have haddress : sparing.address before.bases "#/definitions/mode" =
      ("", definitionPointer "mode") := by
    rw [hbases]
    decide +kernel
  have hid : "mode" ∈ Table.keys (sparing.definitions?.getD []) := by decide +kernel
  unfold sparing at hfollowed haddress
  obtain ⟨d, hd, hname⟩ := hall "/app" "Root" sparingOptions sparingRoot ds hds rfl "mode" hid
    "#/definitions/mode" before _ after hfollowed haddress
  have hmem : d.name ∈ ds.map Declaration.name := List.mem_map_of_mem hd
  rw [hnames, ← TypeExpr.named.inj hname] at hmem
  exact absurd hmem (by decide)

end ApiTypes.Compile
