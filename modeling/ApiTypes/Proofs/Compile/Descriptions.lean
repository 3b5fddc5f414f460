import ApiTypes.Proofs.Compile.Ledger
import ApiTypes.Proofs.Compile.Scope

namespace ApiTypes.Compile

open TypeScript Json

/-- From `w` to `w'` events and declarations were added that come to `l`. -/
structure Watch.Gains (c : Context) (w w' : Watch) (l : Ledger) : Prop where
  reads : w'.state.Reads c
  added : ∃ seen ds, w'.log = w.log ++ seen ∧ w'.state.slots = w.state.slots ++ ds.map some ∧
    l = .given ds + .taken c seen

/-- An action that answers gains a ledger, which `Q` relates to its answer. -/
def Yields {α : Type} (c : Context) (a : Watched α) (Q : α → Ledger → Prop) : Prop :=
  ∀ w x w', w.state.Reads c → a.run w = (.ok x, w') → ∃ l, w.Gains c w' l ∧ Q x l

def Idle {α : Type} (c : Context) (a : Watched α) (P : α → Prop) : Prop :=
  Yields c a fun x l => l = 0 ∧ P x

section rules

variable {α β : Type} {c : Context} {w w' w'' : Watch} {l l' : Ledger}
variable {Q : α → Ledger → Prop} {R : β → Ledger → Prop}

theorem gains_quiet {s : State} {seen : List Event} (hreads : s.Reads c)
    (hslots : s.slots = w.state.slots) : w.Gains c ⟨s, w.log ++ seen⟩ (.taken c seen) where
  reads := hreads
  added := ⟨seen, [], rfl, by rw [hslots, List.map_nil, List.append_nil], by simp⟩

theorem Watch.Gains.trans (h : w.Gains c w' l) (h' : w'.Gains c w'' l') :
    w.Gains c w'' (l + l') := by
  obtain ⟨seen, ds, hlog, hslots, rfl⟩ := h.added
  obtain ⟨seen', ds', hlog', hslots', rfl⟩ := h'.added
  refine ⟨h'.reads, seen ++ seen', ds ++ ds', ?_, ?_, ?_⟩
  · rw [hlog', hlog, List.append_assoc]
  · rw [hslots', hslots, List.map_append, List.append_assoc]
  · rw [Ledger.given_append, Ledger.taken_append]
    abel

theorem yields_pure {x : α} (h : Q x 0) : Yields c (pure x) Q := by
  intro w y w' hreads hrun
  obtain ⟨hx, rfl⟩ := Prod.mk.inj hrun
  obtain rfl := Except.ok.inj hx
  exact ⟨0, ⟨hreads, [], [], by simp, by simp, by simp⟩, h⟩

theorem Yields.bind {a : Watched α} {f : α → Watched β} (h : Yields c a Q)
    (hf : ∀ x l, Q x l → Yields c (f x) fun y l' => R y (l + l')) : Yields c (a >>= f) R := by
  intro w y w' hreads hrun
  obtain ⟨x, w₁, ha, hx⟩ := Watched.exists_of_run_bind_ok hrun
  obtain ⟨l, hgains, hQ⟩ := h w x w₁ hreads ha
  obtain ⟨l', hgains', hR⟩ := hf x l hQ w₁ y w' hgains.reads hx
  exact ⟨l + l', hgains.trans hgains', hR⟩

theorem Yields.imp {a : Watched α} {Q' : α → Ledger → Prop} (h : Yields c a Q)
    (hQ : ∀ x l, Q x l → Q' x l) : Yields c a Q' := by
  intro w x w' hreads hrun
  obtain ⟨l, hgains, hx⟩ := h w x w' hreads hrun
  exact ⟨l, hgains, hQ x l hx⟩

theorem Idle.andThen {a : Watched α} {f : α → Watched β} {P : α → Prop} (h : Idle c a P)
    (hf : ∀ x, P x → Yields c (f x) R) : Yields c (a >>= f) R := by
  refine Yields.bind h fun x l => ?_
  rintro ⟨rfl, hx⟩
  exact (hf x hx).imp fun y l' hy => by rwa [zero_add]

theorem idle_step {a : Action α} {P : α → Prop} (h : ∀ s, s.Reads c → ∀ x s',
      a.run s = (.ok x, s') → s'.Reads c ∧ s'.slots = s.slots ∧ P x) : Idle c (.step a) P := by
  intro w x w' hreads hrun
  rcases ha : a.run w.state with ⟨r, s⟩
  obtain ⟨rfl, rfl⟩ := Prod.mk.inj ((Watched.run_step ha).symm.trans hrun)
  obtain ⟨hs, hslots, hx⟩ := h w.state hreads x s ha
  exact ⟨0, gains_quiet hs hslots, rfl, hx⟩

theorem yields_note (e : Event) : Yields c (Watched.note e) fun _ l => l = .taken c [e] := by
  intro w x w' hreads hrun
  obtain rfl := congrArg Prod.snd hrun
  exact ⟨_, gains_quiet hreads rfl, rfl⟩

theorem idle_note {e : Event} (h : Ledger.taken c [e] = 0) :
    Idle c (Watched.note e) fun _ => True :=
  (yields_note e).imp fun _ _ hl => ⟨hl.trans h, trivial⟩

theorem Yields.noting {event : State → Except Error α → State → Event} {a : Watched α}
    (h : Yields c a Q) (hquiet : ∀ s r t, Ledger.taken c [event s r t] = 0) :
    Yields c (.noting event a) Q := by
  intro w x w' hreads hrun
  rcases ha : a.run w with ⟨r, w₁⟩
  obtain ⟨rfl, rfl⟩ := Prod.mk.inj ((Watched.run_noting ha).symm.trans hrun)
  obtain ⟨l, hgains, hx⟩ := h w x w₁ hreads ha
  have hevent : w₁.Gains c ⟨w₁.state, w₁.log ++ [event w.state (.ok x) w₁.state]⟩
      (.taken c [event w.state (.ok x) w₁.state]) := gains_quiet hgains.reads rfl
  have hnoted := hgains.trans hevent
  rw [hquiet, add_zero] at hnoted
  exact ⟨l, hnoted, hx⟩

theorem Yields.within {base : String} {a : Watched α} (h : Yields c a Q) :
    Yields c (.within base a) Q := by
  unfold Watched.within
  split
  · exact h
  · intro w x w' hreads hrun
    let inner : Watch := ⟨{ w.state with bases := base :: w.state.bases }, w.log ++ [.entered base]⟩
    rcases ha : a.run inner with ⟨r, w₁⟩
    obtain ⟨rfl, rfl⟩ := Prod.mk.inj ((Watched.run_inside ha).symm.trans hrun)
    have hentered : w.Gains c inner 0 := gains_quiet hreads rfl
    obtain ⟨l, hgains, hx⟩ := h inner x w₁ hentered.reads ha
    have hleft : w₁.Gains c ⟨{ w₁.state with bases := w₁.state.bases.tail },
        w₁.log ++ [.left base]⟩ 0 := gains_quiet hgains.reads rfl
    have hall := (hentered.trans hgains).trans hleft
    rw [zero_add, add_zero] at hall
    exact ⟨l, hall, hx⟩

/-- A declaration is given out with those that its type needs. -/
theorem yields_declare {name : String} {description : Option String} {a : Watched TypeExpr}
    {Q R : TypeExpr → Ledger → Prop} (h : Yields c a Q)
    (hR : ∀ t l, Q t l → R (.named name) (.given [⟨name, description, t⟩] + l)) :
    Yields c (.declare name description a) R := by
  intro w x w' hreads hrun
  obtain ⟨t, w₁, s, s₁, rfl, hs, ha, hs₁, rfl⟩ := Watched.exists_of_run_declare hrun
  have hreads' : s.Reads c := by
    rw [hs]
    exact hreads
  obtain ⟨l, hgains, hQ⟩ := h ⟨s, _⟩ t w₁ hreads' ha
  obtain ⟨seen, ds, hlog, hslots, rfl⟩ := hgains.added
  -- nothing is visited on opening the place and on filling it, so the ledger inside gains one
  -- declaration
  let before : List Event :=
    [.opened name, .moment w.state, .moment w.state, .moment w.state, .moment s]
  let after : List Event := [.moment w₁.state, .moment s₁]
  have hreads₁ : s₁.Reads c := by
    rw [hs₁]
    exact hgains.reads
  refine ⟨_, ⟨hreads₁, before ++ seen ++ after, ⟨name, description, t⟩ :: ds, ?_, ?_, ?_⟩,
    hR t _ hQ⟩
  · show w₁.log ++ after = _
    rw [hlog]
    simp only [before, List.append_assoc]
  · show s₁.slots = _
    rw [hs₁]
    show w₁.state.slots.set _ _ = _
    rw [hslots, hs]
    simp
  · have hbefore : Ledger.taken c before = 0 := rfl
    have hafter : Ledger.taken c after = 0 := rfl
    have hgiven : Ledger.given (⟨name, description, t⟩ :: ds) =
        .given [⟨name, description, t⟩] + .given ds := Ledger.given_append [_] ds
    rw [hgiven, Ledger.taken_append, Ledger.taken_append, hbefore, hafter, zero_add, add_zero,
      add_assoc]

end rules

/-- What an action gives out, its answer with the members `held` in it included, is what it takes
in, the schemas `ps` inside the current one included. -/
def Balances {α : Type} (c : Context) (a : Watched α) (held : α → List (Member TypeExpr))
    (ps : List Part) : Prop :=
  Yields c a fun x l => (.members (held x) + l + .ofParts ps : Ledger).Settled

section balances

variable {α β γ : Type} {c : Context} {held : α → List (Member TypeExpr)}
variable {held' : β → List (Member TypeExpr)} {ps ps' : List Part}

theorem balances_pure {x : α} (h : held x = []) : Balances c (pure x) held [] :=
  yields_pure (by simp [h, Ledger.settled_zero])

theorem Balances.map {a : Watched α} (h : Balances c a held ps) {f : α → β}
    (hf : ∀ x, held' (f x) = held x) : Balances c (do return f (← a)) held' ps := by
  refine Yields.bind h fun x l hx => yields_pure ?_
  rwa [hf, add_zero]

theorem Balances.map₂ {a : Watched α} {b : Watched β} (h : Balances c a held ps)
    (h' : Balances c b held' ps') {held'' : γ → List (Member TypeExpr)} {f : α → β → γ}
    (hf : ∀ x y, held'' (f x y) = held x ++ held' y) :
    Balances c (do let x ← a; let y ← b; return f x y) held'' (ps ++ ps') := by
  refine Yields.bind h fun x l hx => ?_
  refine Yields.bind h' fun y l' hy => yields_pure ?_
  have hboth := hx.add hy
  have heq : Ledger.members (held'' (f x y)) + (l + (l' + 0)) + .ofParts (ps ++ ps') =
      .members (held x) + l + .ofParts ps + (.members (held' y) + l' + .ofParts ps') := by
    rw [hf, Ledger.members_append, Ledger.ofParts_append]
    abel
  rwa [heq]

theorem Balances.mapM {xs : List α} {f : α → Watched β} {part : α → List Part}
    (h : ∀ x ∈ xs, Balances c (f x) held' (part x)) :
    Balances c (xs.mapM f) (fun ys => ys.flatMap held') (xs.flatMap part) := by
  induction xs with
  | nil =>
    rw [List.mapM_nil]
    exact balances_pure rfl
  | cons x xs ih =>
    rw [List.mapM_cons]
    exact (h x List.mem_cons_self).map₂ (ih fun z hz => h z (List.mem_cons_of_mem x hz))
      fun y ys => List.flatMap_cons

end balances

theorem allMembers_literalType (value : Json) : (literalType value).allMembers = [] := by
  unfold literalType
  split
  case h_3 => split <;> rfl
  all_goals rfl

/-- The type of a schema inside another one comes with the declaration of the schema if it has one
of its own; without it everything is settled. -/
def YieldsType (c : Context) (schema : Json) (a : Watched TypeExpr) : Prop :=
  Yields c a fun t l => ∃ (own : Option Declaration) (rest : Ledger),
    own.isSome = (ownTitle? schema).isSome ∧
    (∀ d, own = some d → t = .named d.name ∧ d.description = description? schema) ∧
    rest.Settled ∧ .members t.allMembers + l = .declarations own.toList + rest

section layer

variable {c : Context} {w : Walk Watched} {o : Options} {members : List (String × Json)}

theorem YieldsType.bare {schema : Json} {a : Watched TypeExpr} (h : YieldsType c schema a) :
    Balances c a TypeExpr.allMembers [.bare schema] := by
  refine Yields.imp h fun t l => ?_
  rintro ⟨own, rest, hown, hd, hrest, heq⟩
  rw [heq, Ledger.ofParts_bare]
  -- a schema that is no property is settled by its own declaration, or needs none
  cases htitle : ownTitle? schema with
  | none =>
    rw [htitle] at hown
    obtain rfl : own = none := by simpa using hown
    simpa using hrest
  | some title =>
    rw [htitle] at hown
    obtain ⟨d, rfl⟩ := Option.isSome_iff_exists.1 hown
    have hsum : Ledger.declarations (some d).toList + rest +
        .schemas ((some title).map fun _ => schema).toList =
          .schemas [schema] + .declarations [d] + rest := by
      rw [Option.toList_some, Option.map_some, Option.toList_some]
      abel
    rw [hsum]
    exact (Ledger.settled_declared (hd d rfl).2).add hrest

theorem YieldsType.property {key : String} {schema : Json} {a : Watched TypeExpr}
    (h : YieldsType c schema a) (optional : Bool) :
    Balances c (do
      let type ← a
      return (⟨key, type, optional, propertyDescription? schema⟩ : Member TypeExpr))
      (fun m => m :: m.type.allMembers) [.property key schema] := by
  refine Yields.bind h fun t l => ?_
  rintro ⟨own, rest, hown, hd, hrest, heq⟩
  refine yields_pure ?_
  let p : Placed := ⟨key, schema, ⟨key, t, optional, propertyDescription? schema⟩, own⟩
  have hfits : p.Fits := ⟨rfl, hown, fun d h => (hd d h).1⟩
  have hcarries : p.Carries := ⟨rfl, fun d h => (hd d h).2⟩
  -- the property with its member and declaration is one entry; `rest` is settled already
  have hsum : Ledger.members (p.member :: t.allMembers) + (l + 0) +
      .ofParts [.property key schema] = p.ledger + rest := by
    calc
      _ = .members [p.member] + .properties [(key, schema)] + (.members t.allMembers + l) := by
        rw [← List.singleton_append, Ledger.members_append, Ledger.ofParts_property]
        abel
      _ = _ := by
        rw [heq, Placed.ledger]
        abel
  rw [hsum]
  exact (Ledger.settled_placed hfits hcarries).add hrest

variable (htype : ∀ schema, YieldsType c schema (w.typeOf schema))

include htype

theorem balances_types (schemas : List Json) :
    Balances c (schemas.mapM w.typeOf) (fun ts => ts.flatMap TypeExpr.allMembers)
      (schemas.map .bare) := by
  rw [List.map_eq_flatMap]
  exact Balances.mapM fun schema _ => (htype schema).bare

theorem balances_arrayType :
    Balances c (w.arrayType members) TypeExpr.allMembers (arrayParts members) := by
  unfold Walk.arrayType arrayParts
  cases Table.get? "items" members with
  | none => exact balances_pure (TypeExpr.allMembers_array _)
  | some schema =>
    cases schema with
    | array items => exact (balances_types htype items).map TypeExpr.allMembers_tuple
    | _ => exact (htype _).bare.map TypeExpr.allMembers_array

theorem balances_additionalType :
    Balances c (w.additionalType o members) (fun t => t.toList.flatMap TypeExpr.allMembers)
      (additionalParts members) := by
  unfold Walk.additionalType additionalParts
  have hany : ∀ allowed : Bool, ((if allowed then some (.keyword .unknown) else none :
      Option TypeExpr).toList.flatMap TypeExpr.allMembers) = [] := by
    intro allowed
    cases allowed <;> simp
  cases Table.get? "additionalProperties" members with
  | none => exact balances_pure (hany _)
  | some schema =>
    cases schema with
    | bool allowed => exact balances_pure (hany allowed)
    | _ => exact (htype _).bare.map fun t => List.flatMap_singleton ..

theorem balances_objectType :
    Balances c (w.objectType o members) TypeExpr.allMembers (objectParts members) := by
  -- `undefined` beside the type of an index has no members
  have hindex : ∀ t : TypeExpr, (if o.strictIndexSignatures then
      TypeExpr.unionOf [t, .keyword .undefined] else t).allMembers = t.allMembers := by
    intro t
    split
    · simp [TypeExpr.allMembers_unionOf]
    · rfl
  unfold Walk.objectType objectParts
  rw [List.map_eq_flatMap]
  refine Balances.map₂ (Balances.mapM fun p _ => (htype p.2).property _)
    (balances_additionalType htype) fun ms index => ?_
  rw [TypeExpr.allMembers_object]
  cases index with
  | none => rfl
  | some t => simp [hindex]

theorem balances_namedType (name : String) :
    Balances c (w.namedType o members name) TypeExpr.allMembers (namedParts members name) := by
  unfold Walk.namedType
  split
  case h_6 => exact balances_arrayType htype
  case h_7 => exact balances_objectType htype
  case h_8 =>
    have hparts : namedParts members name = [] := by
      unfold namedParts
      split <;> first | rfl | contradiction
    rw [hparts]
    exact balances_pure (TypeExpr.allMembers_keyword _)
  all_goals exact balances_pure (TypeExpr.allMembers_keyword _)

theorem balances_structuralType :
    Balances c (w.structuralType o members) TypeExpr.allMembers (structuralParts members) := by
  -- a `type` that is neither a name nor a list of names counts as none
  have huntyped : Balances c
      (if Table.contains "properties" members ∨ Table.contains "additionalProperties" members then
        w.objectType o members
      else if Table.contains "items" members then w.arrayType members
      else return .keyword .unknown) TypeExpr.allMembers
      (if Table.contains "properties" members ∨ Table.contains "additionalProperties" members then
        objectParts members
      else if Table.contains "items" members then arrayParts members
      else []) := by
    split
    · exact balances_objectType htype
    · split
      · exact balances_arrayType htype
      · exact balances_pure (TypeExpr.allMembers_keyword _)
  unfold Walk.structuralType structuralParts
  cases Table.get? "type" members with
  | none => exact huntyped
  | some type =>
    cases type with
    | string name => exact balances_namedType htype name
    | array names =>
      exact (Balances.mapM fun name _ => balances_namedType htype name).map
        TypeExpr.allMembers_unionOf
    | _ => exact huntyped

theorem balances_memberType
    (hreference : ∀ ref, Balances c (w.reference ref) TypeExpr.allMembers []) :
    Balances c (w.memberType o members) TypeExpr.allMembers (memberParts members) := by
  unfold Walk.memberType memberParts
  cases (Table.get? "$ref" members).bind Json.string? with
  | some ref => exact hreference ref
  | none =>
  cases Table.get? "const" members with
  | some value => exact balances_pure (allMembers_literalType value)
  | none =>
  cases (Table.get? "enum" members).bind Json.array? with
  | some values =>
    refine balances_pure ?_
    rw [TypeExpr.allMembers_unionOf, List.flatMap_map]
    exact List.flatMap_eq_nil_iff.2 fun value _ => allMembers_literalType value
  | none =>
  cases ((Table.get? "oneOf" members).or (Table.get? "anyOf" members)).bind Json.array? with
  | some schemas => exact (balances_types htype schemas).map TypeExpr.allMembers_unionOf
  | none =>
  cases (Table.get? "allOf" members).bind Json.array? with
  | some schemas => exact (balances_types htype schemas).map TypeExpr.allMembers_intersectionOf
  | none => exact balances_structuralType htype

theorem balances_schemaType
    (hreference : ∀ ref, Balances c (w.reference ref) TypeExpr.allMembers []) (schema : Json) :
    Balances c (w.schemaType o schema) TypeExpr.allMembers (parts schema) := by
  unfold Walk.schemaType parts
  cases schema with
  | object members => exact balances_memberType htype hreference
  | bool b => cases b <;> exact balances_pure (TypeExpr.allMembers_keyword _)
  | _ => exact balances_pure (TypeExpr.allMembers_keyword _)

end layer

section steps

variable {c : Context} {inner : Json → Watched TypeExpr}

theorem idle_uniqueName (hint : String) : Idle c (.step (uniqueName hint)) fun _ => True := by
  refine idle_step fun s hs name s' hrun => ?_
  obtain rfl := congrArg Prod.snd hrun
  exact ⟨hs, rfl, trivial⟩

theorem idle_refs (refs : State → List (String × String)) :
    Idle c (.step (modify fun s => { s with refs := refs s })) fun _ => True := by
  refine idle_step fun s hs _ s' hrun => ?_
  obtain rfl := congrArg Prod.snd hrun
  exact ⟨hs, rfl, trivial⟩

theorem idle_target (ref base pointer : String) :
    Idle c (.noting (fun _ found _ => .lookedUp ref found) (.step (target c base pointer)))
      fun schema => c.part base pointer = .ok schema := by
  refine Yields.noting (idle_step fun s hs schema s' hrun => ?_) fun _ _ _ => rfl
  obtain ⟨documents, hreads, htarget⟩ := run_target hs base pointer
  obtain ⟨hpart, rfl⟩ := Prod.mk.inj (htarget.symm.trans hrun)
  exact ⟨hreads, rfl, hpart⟩

def YieldsDeclaration (c : Context) (schema : Json) (a : Watched TypeExpr) : Prop :=
  Yields c a fun t l => ∃ (d : Declaration) (rest : Ledger), t = .named d.name ∧
    d.description = description? schema ∧ rest.Settled ∧ l = .declarations [d] + rest

def YieldsName (c : Context) (a : Watched TypeExpr) : Prop :=
  Yields c a fun t l => (∃ n, t = .named n) ∧ l.Settled

theorem YieldsName.balances {a : Watched TypeExpr} (h : YieldsName c a) :
    Balances c a TypeExpr.allMembers [] := by
  refine Yields.imp h fun t l => ?_
  rintro ⟨⟨n, rfl⟩, hsettled⟩
  simpa using hsettled

variable (hinner : ∀ schema, Balances c (inner schema) TypeExpr.allMembers [])

include hinner

theorem yieldsDeclaration_declare (name : String) (schema : Json) :
    YieldsDeclaration c schema (.declare name (description? schema) (inner schema)) := by
  refine yields_declare (hinner schema) fun t l hsettled => ?_
  refine ⟨⟨name, description? schema, t⟩, .members t.allMembers + l, rfl, rfl, ?_, ?_⟩
  · simpa using hsettled
  · rw [Ledger.given, List.flatMap_singleton]
    abel

theorem yieldsType_titled {title : String} {schema : Json} (h : ownTitle? schema = some title) :
    YieldsType c schema ((Walk.watched c inner).titled title schema) := by
  refine (idle_uniqueName title).andThen fun name _ => ?_
  refine Yields.imp (yieldsDeclaration_declare hinner name schema) fun t l => ?_
  rintro ⟨d, rest, rfl, hdescription, hsettled, rfl⟩
  refine ⟨some d, rest, by rw [h]; rfl, ?_, hsettled, ?_⟩
  · rintro _ ⟨⟩
    exact ⟨rfl, hdescription⟩
  · rw [TypeExpr.allMembers_named, Ledger.members_nil, zero_add, Option.toList_some]

omit hinner in
/-- A target that is to be declared is taken in when it gets its name. -/
theorem yieldsName_named {base pointer name : String} {schema : Json} {a : Watched TypeExpr}
    (hpart : c.part base pointer = .ok schema) (h : YieldsDeclaration c schema a)
    (refs : State → List (String × String)) :
    YieldsName c (do
      Watched.note (.named base pointer name true)
      Watched.step (modify fun s => { s with refs := refs s })
      a) := by
  refine (yields_note _).bind ?_
  rintro _ _ rfl
  refine (idle_refs refs).andThen fun _ _ => ?_
  refine Yields.imp h fun t l => ?_
  rintro ⟨d, rest, rfl, hdescription, hsettled, rfl⟩
  have htaken : Ledger.taken c [.named base pointer name true] = .schemas [schema] := by
    simp [Ledger.taken, Event.properties, Event.declares, hpart, Except.toOption]
  refine ⟨⟨d.name, rfl⟩, ?_⟩
  rw [htaken, ← add_assoc]
  exact (Ledger.settled_declared hdescription).add hsettled

theorem yieldsName_watchedTarget (ref base pointer : String) :
    YieldsName c (watchedTarget c inner ref base pointer) := by
  refine (idle_target ref base pointer).andThen fun schema hpart => ?_
  refine (idle_uniqueName _).andThen fun name _ => ?_
  dsimp only
  cases base == "" || c.options.declaresExternal with
  | true => exact yieldsName_named hpart (yieldsDeclaration_declare hinner name schema).within _
  | false =>
    refine (idle_note rfl).andThen fun _ _ => (idle_refs _).andThen fun _ _ => ?_
    exact yields_pure ⟨⟨name, rfl⟩, Ledger.settled_zero⟩

theorem yieldsName_watchedReference (ref : String) :
    YieldsName c (watchedReference c inner ref) := by
  refine (idle_note rfl).andThen fun _ _ => Yields.noting ?_ fun _ _ _ => rfl
  have hget : Idle c (.step get) fun _ => True := by
    refine idle_step fun s hs _ s' hrun => ?_
    obtain rfl : s = s' := congrArg Prod.snd hrun
    exact ⟨hs, rfl, trivial⟩
  refine hget.andThen fun s _ => ?_
  dsimp only
  cases s.known? c (c.address s.bases ref).1 (c.address s.bases ref).2 with
  | some name => exact yields_pure ⟨⟨name, rfl⟩, Ledger.settled_zero⟩
  | none => exact yieldsName_watchedTarget hinner ref _ _

theorem yieldsType_typeOf (schema : Json) :
    YieldsType c schema ((Walk.watched c inner).typeOf schema) := by
  have hplain : ∀ {a : Watched TypeExpr}, Balances c a TypeExpr.allMembers [] →
      ownTitle? schema = none → YieldsType c schema a := by
    intro a ha hnone
    refine Yields.imp ha fun t l hsettled => ⟨none, .members t.allMembers + l, ?_, ?_, ?_, ?_⟩
    · rw [hnone]
      rfl
    · rintro _ ⟨⟩
    · simpa using hsettled
    · simp
  unfold Walk.typeOf
  split
  · next ref href =>
    exact hplain (yieldsName_watchedReference hinner ref).balances (by simp [ownTitle?, href])
  · next title href htitle =>
    exact yieldsType_titled hinner (by simp [ownTitle?, href, htitle])
  · next href htitle => exact hplain (hinner schema) (by simp [ownTitle?, href, htitle])

end steps

theorem balances_watchedType (c : Context) (bound : Nat) (schema : Json) :
    Balances c (watchedType c bound schema) TypeExpr.allMembers [] := by
  -- on the bound, because what a schema leads to is compiled with one less
  induction bound generalizing schema with
  | zero =>
    intro w x w' _ hrun
    cases congrArg Prod.fst hrun
  | succ bound ih =>
    refine (yields_note _).bind ?_
    rintro _ _ rfl
    refine Yields.imp (balances_schemaType (yieldsType_typeOf ih)
      (fun ref => (yieldsName_watchedReference ih ref).balances) schema) fun t l hsettled => ?_
    have hsum : Ledger.members t.allMembers + (.taken c [.visited schema] + l) + .ofParts [] =
        .members t.allMembers + l + .ofParts (parts schema) := by
      rw [Ledger.taken_visited, Ledger.ofParts_nil]
      abel
    rwa [hsum]

section program

variable (c : Context) (name : String)

theorem yieldsName_watchedRoot : YieldsName c (watchedRoot c name) := by
  refine (idle_uniqueName name).andThen fun name _ => ?_
  have hpart : c.part "" "" = .ok c.root := rfl
  exact yieldsName_named hpart
    (yieldsDeclaration_declare (balances_watchedType c c.bound) name c.root) _

theorem yields_watchedDefinitions : Yields c (watchedDefinitions c) fun _ l => l.Settled := by
  unfold watchedDefinitions
  induction Table.keys (c.definitions?.getD []) with
  | nil => exact yields_pure Ledger.settled_zero
  | cons id ids ih =>
    have hfirst : Yields c (do
        let _ ← watchedReference c (watchedType c c.bound) ("#" ++ definitionPointer id))
        fun _ l => l.Settled := by
      refine Yields.bind (yieldsName_watchedReference (balances_watchedType c c.bound) _)
        fun _ l h => yields_pure ?_
      rw [add_zero]
      exact h.2
    exact hfirst.bind fun _ l h => ih.imp fun _ l' h' => h.add h'

theorem yields_watchedProgram : Yields c (watchedProgram c name) fun _ l => l.Settled := by
  unfold watchedProgram
  refine Yields.bind (yieldsName_watchedRoot c name) fun _ l h => ?_
  split
  · exact (yields_watchedDefinitions c).imp fun _ l' h' => h.2.add h'
  · refine yields_pure ?_
    rw [add_zero]
    exact h.2

end program

/-- The properties that were compiled are the members of the object types in the declarations, one
for one; the declarations are those of properties, and of the targets and the other schemas that
were declared. -/
structure Context.Places (c : Context) (log : List Event) (ds : List Declaration)
    (placed : List Placed) (others : List (Json × Declaration)) : Prop where
  fits : ∀ p ∈ placed, p.Fits
  properties : (placed.map fun p => (p.key, p.schema)).Perm (log.flatMap Event.properties)
  members : (placed.map Placed.member).Perm (ds.flatMap fun d => d.type.allMembers)
  declarations : (placed.filterMap Placed.own ++ others.map Prod.snd).Perm ds
  schemas : (others.map Prod.fst).Perm (log.flatMap (Event.declares c))

/-- The description stands at the declaration of the property if there is one, and otherwise at the
member that the property becomes. -/
def Placed.DescribedOnce (p : Placed) (text : String) : Prop :=
  match p.own with
  | some d => d.description = some text ∧ p.member.description = none
  | none => p.member.description = some text

/-- A schema that is neither titled nor a reference, but has a title or a reference that is no
text. -/
def Misread (schema : Json) : Prop :=
  ownTitle? schema = none ∧ schema.text? "$ref" = none ∧
    ((schema.get? "$ref").isSome ∨ (schema.get? "title").isSome)

/-- Each property with a description that is no reference has it at its place. -/
def Context.DescribesOnce (c : Context) (log : List Event) (ds : List Declaration) : Prop :=
  ∃ placed others, c.Places log ds placed others ∧
    ∀ p ∈ placed, ∀ text, description? p.schema = some text → p.schema.text? "$ref" = none →
      p.DescribedOnce text

section placed

variable {p : Placed} {text : String}

theorem propertyDescription?_of_isSome {schema : Json}
    (h : (schema.get? "$ref").isSome ∨ (schema.get? "title").isSome) :
    propertyDescription? schema = none :=
  if_pos h

theorem propertyDescription?_eq_some_iff {schema : Json} :
    propertyDescription? schema = some text ↔
      (schema.get? "$ref" = none ∧ schema.get? "title" = none) ∧
        description? schema = some text := by
  unfold propertyDescription?
  cases schema.get? "$ref" with
  | some _ => simp
  | none => cases schema.get? "title" <;> simp

theorem isSome_of_ownTitle? {schema : Json} (h : (ownTitle? schema).isSome) :
    (schema.get? "title").isSome := by
  obtain ⟨title, htitle⟩ := Option.isSome_iff_exists.1 h
  unfold ownTitle? at htitle
  split at htitle
  · cases htitle
  · obtain ⟨value, hvalue, -⟩ := Option.bind_eq_some_iff.1 htitle
    rw [hvalue]
    rfl

theorem describedOnce_iff (hfits : p.Fits) (hcarries : p.Carries)
    (hreference : p.schema.text? "$ref" = none) (htext : description? p.schema = some text) :
    p.DescribedOnce text ↔ ¬ Misread p.schema := by
  unfold Placed.DescribedOnce
  have hsome := hfits.own
  -- a declaration of its own carries the description, and then the member has none
  cases hown : p.own with
  | some d =>
    rw [hown] at hsome
    have htitled : (ownTitle? p.schema).isSome := hsome.symm
    have hmember : p.member.description = none := by
      rw [hcarries.member, propertyDescription?_of_isSome (.inr (isSome_of_ownTitle? htitled))]
    have hread : ¬ Misread p.schema := by
      rintro ⟨hnone, -⟩
      rw [hnone] at htitled
      cases htitled
    simp [hcarries.own d hown, htext, hmember, hread]
  | none =>
    rw [hown] at hsome
    have hnone : ownTitle? p.schema = none := by simpa using hsome.symm
    rw [hcarries.member, propertyDescription?]
    simp [Misread, hnone, hreference, htext]

theorem lost_of_misread (hfits : p.Fits) (hcarries : p.Carries) (h : Misread p.schema) :
    p.own = none ∧ p.member.description = none := by
  obtain ⟨hnone, -, hsome⟩ := h
  have hown := hfits.own
  rw [hnone] at hown
  exact ⟨by simpa using hown, by rw [hcarries.member, propertyDescription?_of_isSome hsome]⟩

end placed

section placement

variable {c : Context} {name : String} {ds : List Declaration}

theorem exists_places_of_settled {log : List Event}
    (h : (Ledger.given ds + .taken c log).Settled) :
    ∃ placed others, c.Places log ds placed others ∧ (∀ p ∈ placed, p.Carries) ∧
      ∀ o ∈ others, o.2.description = description? o.1 := by
  obtain ⟨placed, others, hplaced, hothers, heq⟩ := h
  rw [Placed.sum_ledger] at heq
  simp only [Ledger.given, Ledger.taken, Ledger.members, Ledger.declarations, Ledger.properties,
    Ledger.schemas, Prod.mk_add_mk, add_zero, zero_add, Prod.mk.injEq, Multiset.coe_add,
    Multiset.coe_eq_coe] at heq
  obtain ⟨hmembers, hdeclarations, hproperties, hschemas⟩ := heq
  exact ⟨placed, others, ⟨fun p hp => (hplaced p hp).1, hproperties.symm, hmembers.symm,
    hdeclarations.symm, hschemas.symm⟩, fun p hp => (hplaced p hp).2, hothers⟩

theorem exists_places (h : declarations c name = .ok ds) :
    ∃ placed others, c.Places (c.watch name).2.log ds placed others ∧ (∀ p ∈ placed, p.Carries) ∧
      ∀ o ∈ others, o.2.description = description? o.1 := by
  have hrun : ∃ s, (program c name).run State.empty = (.ok (), s) ∧ ds = s.slots.filterMap id := by
    unfold declarations at h
    split at h
    · next s hs =>
      exact ⟨s, hs, (Except.ok.inj h).symm⟩
    · cases h
  obtain ⟨s, hs, rfl⟩ := hrun
  obtain ⟨hok, hstate⟩ := Prod.mk.inj ((watch_eq c name).trans hs)
  obtain ⟨l, hgains, hsettled⟩ := yields_watchedProgram c name ⟨.empty, []⟩ () (c.watch name).2
    (reads_empty c) (Prod.ext hok rfl)
  obtain ⟨seen, ds, hlog, hslots, rfl⟩ := hgains.added
  have hds : s.slots.filterMap id = ds := by
    rw [← hstate, hslots]
    simp [State.empty]
  have hseen : (c.watch name).2.log = seen := hlog
  rw [hds, hseen]
  exact exists_places_of_settled hsettled

/-- If every description stands at its place, no property that is compiled is misread: there would
be more members with its description than there are. -/
theorem not_misread_of_describesOnce {log : List Event} {placed : List Placed}
    {others : List (Json × Declaration)} (h : c.Places log ds placed others)
    (hcarries : ∀ p ∈ placed, p.Carries) (honce : c.DescribesOnce log ds) {q : String × Json}
    (hq : q ∈ log.flatMap Event.properties) {text : String}
    (htext : description? q.2 = some text) : ¬ Misread q.2 := by
  intro hmisread
  obtain ⟨placed', others', h', honce⟩ := honce
  -- the same properties and members in another pairing: as many members carry the text as
  -- properties have it to give
  have hcount : (placed'.countP fun p => propertyDescription? p.schema = some text) =
      placed'.countP fun p => p.member.description = some text := by
    have hproperties := (h'.properties.trans h.properties.symm).countP_eq fun q =>
      propertyDescription? q.2 = some text
    have hmembers := (h'.members.trans h.members.symm).countP_eq fun m => m.description = some text
    rw [List.countP_map, List.countP_map] at hproperties hmembers
    refine hproperties.trans (Eq.trans ?_ hmembers.symm)
    refine List.countP_congr fun p hp => ?_
    dsimp only [Function.comp]
    rw [(hcarries p hp).member]
  have hmember : ∀ p ∈ placed', (ownTitle? p.schema).isSome = false →
      description? p.schema = some text → p.schema.text? "$ref" = none →
        p.member.description = some text := by
    intro p hp htitle htext hreference
    have hp' := honce p hp text htext hreference
    rw [← (h'.fits p hp).own, Option.isSome_eq_false_iff, Option.isNone_iff_eq_none] at htitle
    rwa [Placed.DescribedOnce, htitle] at hp'
  obtain ⟨p, hp, hpq⟩ := List.mem_map.1 (h'.properties.mem_iff.2 hq)
  have hschema : p.schema = q.2 := congrArg Prod.snd hpq
  rw [← hschema] at hmisread htext
  obtain ⟨hnone, hreference, hsome⟩ := hmisread
  -- but every property that gives the text has it at its member, and the misread one has it there
  -- as well
  refine absurd hcount (List.countP_lt_countP (fun p' hp' hcarried => ?_) hp ?_ ?_).ne
  · obtain ⟨⟨href, htitle⟩, htext'⟩ :=
      propertyDescription?_eq_some_iff.1 (of_decide_eq_true hcarried)
    have huntitled : (ownTitle? p'.schema).isSome = false :=
      Bool.eq_false_iff.2 fun htitled => by simpa [htitle] using isSome_of_ownTitle? htitled
    exact decide_eq_true (hmember p' hp' huntitled htext' (by rw [Json.text?, href]; rfl))
  · rw [propertyDescription?_of_isSome hsome]
    rfl
  · exact decide_eq_true (hmember p hp (by rw [hnone]; rfl) htext hreference)

/-- Each property that is compiled has its place in the declarations.  Its description stands there
once, at its own declaration or at its member, if and only if its title and its reference are texts
where it has them; otherwise the description is lost.  So every description stands at its place if
and only if no property with a description is misread. -/
theorem properties_described_once_iff (c : Context) (name : String) {ds : List Declaration}
    (h : declarations c name = .ok ds) :
    (∃ placed others, c.Places (c.watch name).2.log ds placed others ∧
      (∀ o ∈ others, o.2.description = description? o.1) ∧
      ∀ p ∈ placed, ∀ text, description? p.schema = some text → p.schema.text? "$ref" = none →
        (p.DescribedOnce text ↔ ¬ Misread p.schema) ∧
        (Misread p.schema → p.own = none ∧ p.member.description = none)) ∧
    (c.DescribesOnce (c.watch name).2.log ds ↔
      ∀ q ∈ (c.watch name).2.log.flatMap Event.properties, ∀ text,
        description? q.2 = some text → ¬ Misread q.2) := by
  obtain ⟨placed, others, hplaces, hcarries, hothers⟩ := exists_places h
  refine ⟨⟨placed, others, hplaces, hothers, fun p hp text htext hreference => ⟨?_, ?_⟩⟩, ?_, ?_⟩
  · exact describedOnce_iff (hplaces.fits p hp) (hcarries p hp) hreference htext
  · exact lost_of_misread (hplaces.fits p hp) (hcarries p hp)
  · intro honce q hq text htext
    exact not_misread_of_describesOnce hplaces hcarries honce hq htext
  · intro hread
    refine ⟨placed, others, hplaces, fun p hp text htext hreference => ?_⟩
    refine (describedOnce_iff (hplaces.fits p hp) (hcarries p hp) hreference htext).2 ?_
    exact hread (p.key, p.schema) (hplaces.properties.mem_iff.1 (List.mem_map_of_mem hp)) text htext

end placement

def titledProperty : Json :=
  .object [("title", .string "Size"), ("type", .string "number"), ("description", .string "Own")]

def plainProperty : Json :=
  .object [("type", .string "string"), ("description", .string "Kept")]

def misreadProperty : Json :=
  .object [("title", .number (.integer 1)), ("type", .string "string"),
    ("description", .string "Kept")]

def describing (properties : List (String × Json)) : Context :=
  .of "/app" .default (.object [("type", .string "object"), ("properties", .object properties)])

theorem Context.Places.exists_of_property {c : Context} {log : List Event}
    {ds : List Declaration} {placed : List Placed} {others : List (Json × Declaration)}
    (h : c.Places log ds placed others) (key : String) (schema : Json)
    (hmem : (key, schema) ∈ log.flatMap Event.properties) : ∃ p ∈ placed, p.schema = schema := by
  obtain ⟨p, hp, heq⟩ := List.mem_map.1 (h.properties.mem_iff.2 hmem)
  exact ⟨p, hp, congrArg Prod.snd heq⟩

theorem properties_described_once_iff_titled :
    ∃ ds placed others,
      declarations (describing [("a", titledProperty), ("b", plainProperty)]) "Root" = .ok ds ∧
      (describing [("a", titledProperty), ("b", plainProperty)]).Places
        ((describing [("a", titledProperty), ("b", plainProperty)]).watch "Root").2.log ds placed
        others ∧
      (∃ p ∈ placed, p.schema = titledProperty ∧ p.DescribedOnce "Own") ∧
      ∃ p ∈ placed, p.schema = plainProperty ∧ p.DescribedOnce "Kept" := by
  have hok : (declarations (describing [("a", titledProperty), ("b", plainProperty)])
      "Root").isOk = true := by
    decide +kernel
  cases h : declarations (describing [("a", titledProperty), ("b", plainProperty)]) "Root" with
  | error e =>
    rw [h] at hok
    cases hok
  | ok ds =>
    have hlog : ((describing [("a", titledProperty), ("b", plainProperty)]).watch
        "Root").2.log.flatMap Event.properties =
          [("a", titledProperty), ("b", plainProperty)] := rfl
    obtain ⟨⟨placed, others, hplaces, -, hiff⟩, -⟩ := properties_described_once_iff _ "Root" h
    refine ⟨ds, placed, others, rfl, hplaces, ?_, ?_⟩
    · obtain ⟨p, hp, hschema⟩ := hplaces.exists_of_property "a" titledProperty (by simp [hlog])
      refine ⟨p, hp, hschema, (hiff p hp "Own" (by rw [hschema]; decide)
        (by rw [hschema]; decide)).1.2 ?_⟩
      rw [hschema]
      rintro ⟨hnone, -⟩
      cases hnone
    · obtain ⟨p, hp, hschema⟩ := hplaces.exists_of_property "b" plainProperty (by simp [hlog])
      refine ⟨p, hp, hschema, (hiff p hp "Kept" (by rw [hschema]; decide)
        (by rw [hschema]; decide)).1.2 ?_⟩
      rw [hschema]
      rintro ⟨-, -, hsome⟩
      revert hsome
      decide

/-- A property whose title is a number keeps its description nowhere. -/
theorem not_properties_described_once : ¬ ∀ (c : Context) (name : String) (ds : List Declaration),
    declarations c name = .ok ds → c.DescribesOnce (c.watch name).2.log ds := by
  intro hall
  have hdescriptions : ((declarations (describing [("a", misreadProperty)]) "Root").map fun ds =>
      (ds.flatMap fun d => d.type.allMembers).map Member.description).toOption = some [none] := by
    decide +kernel
  have hlog : ((describing [("a", misreadProperty)]).watch "Root").2.log.flatMap
      Event.properties = [("a", misreadProperty)] := rfl
  cases h : declarations (describing [("a", misreadProperty)]) "Root" with
  | error e =>
    rw [h] at hdescriptions
    cases hdescriptions
  | ok ds =>
    rw [h] at hdescriptions
    obtain ⟨placed, others, hplaces, honce⟩ := hall _ _ ds h
    obtain ⟨p, hp, hschema⟩ := hplaces.exists_of_property "a" misreadProperty (by simp [hlog])
    -- the only member there is has no description, and there is no declaration besides
    have hlost := honce p hp "Kept" (by rw [hschema]; decide) (by rw [hschema]; decide)
    have hown : p.own = none := by
      have htitle : ownTitle? misreadProperty = none := by decide
      have hsome := (hplaces.fits p hp).own
      rw [hschema, htitle] at hsome
      simpa using hsome
    have hmember : p.member ∈ ds.flatMap fun d => d.type.allMembers :=
      hplaces.members.mem_iff.1 (List.mem_map_of_mem hp)
    have hnone : p.member.description = none := by
      have hmem : p.member.description ∈ [none] := by
        rw [← Option.some.inj hdescriptions]
        exact List.mem_map_of_mem hmember
      exact List.mem_singleton.1 hmem
    unfold Placed.DescribedOnce at hlost
    rw [hown, hnone] at hlost
    cases hlost

end ApiTypes.Compile
