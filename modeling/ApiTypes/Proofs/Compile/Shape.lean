import ApiTypes.Proofs.Compile.Beginning
import ApiTypes.Proofs.Document.Faithful

namespace ApiTypes

open TypeScript Route

/-- An object type without other members that requires all of its members. -/
def TypeScript.TypeExpr.closed (entries : List (String × TypeExpr)) : TypeExpr :=
  .object (entries.map fun e => ⟨e.1, e.2, false, none⟩) none

/-- An object type that requires the named members, described or not, and has no others. -/
def TypeScript.TypeExpr.Requires (names : List String) (t : TypeExpr) : Prop :=
  ∃ ms, t = .object ms none ∧ ms.map Member.name = names ∧ ∀ m ∈ ms, m.optional = false

theorem TypeScript.TypeExpr.requires_of_forall₂ {ps : List (String × Json)}
    {ms : List (Member TypeExpr)}
    (h : List.Forall₂ (fun p m => m.name = p.1 ∧ m.optional = false) ps ms) :
    (TypeExpr.object ms none).Requires (Table.keys ps) := by
  refine ⟨ms, rfl, ?_, fun m hm => ?_⟩
  · induction h with
    | nil => rfl
    | cons hm _ ih => exact congrArg₂ List.cons hm.1 ih
  · obtain ⟨p, -, hp⟩ := h.exists_left hm
    exact hp.2

def Route.DeclaredLast (route : List Record) (m : Method) (r : Record) : Prop :=
  ∃ before after, route = before ++ r :: after ∧ r.Declares m ∧ ∀ r' ∈ after, ¬ r'.Declares m

/-- The type of an application whose methods have the names given to them by their paths. -/
def Route.apiType (ignoreHead : Bool) (rs : Routes) (name : String → String → String) : TypeExpr :=
  .closed (rs.map fun e =>
    (e.1, .closed ((declaredMethods ignoreHead e.2).map fun m => (m, .named (name e.1 m)))))

namespace Compile

/-- The keywords that come before `type` where the type of an object schema is decided. -/
def earlierKeywords : List String :=
  ["$ref", "const", "enum", "oneOf", "anyOf", "allOf"]

def keywords : List String :=
  earlierKeywords ++ ["type", "properties", "required", "additionalProperties"]

/-- The members of a schema for objects with exactly these properties. -/
structure Exact (ps members : List (String × Json)) : Prop where
  earlier : ∀ key ∈ earlierKeywords, Table.get? key members = none
  type : Table.get? "type" members = some (.string "object")
  properties : properties members = ps
  required : requiredNames members = Table.keys ps
  additional : Table.get? "additionalProperties" members = some (.bool false)

theorem exact_objectNode (title : Option String) (ps : Option (List (String × Json))) :
    Exact (ps.getD []) (Document.objectNode title ps) := by
  have hnames : ∀ names : List String, (names.map Json.string).filterMap Json.string? = names := by
    intro names
    rw [List.filterMap_map]
    exact List.filterMap_some
  obtain ⟨hproperties, hrequired⟩ := Document.get?_objectNode title ps
  constructor
  · intro key hkey
    have hne : key ∉ ["title", "type", "required", "properties", "additionalProperties"] := by
      revert key
      decide
    cases title <;> cases ps <;> simp_all [Document.objectNode, Table.get?_cons]
  · cases title <;> cases ps <;> rfl
  · rw [Compile.properties, hproperties]
    cases ps <;> rfl
  · rw [requiredNames, hrequired]
    cases ps with
    | none => rfl
    | some ps => exact hnames _
  · cases title <;> cases ps <;> rfl

theorem Exact.insert {ps members : List (String × Json)} {key : String} (h : Exact ps members)
    (hkey : key ∉ keywords) (j : Json) : Exact ps (Table.insert key j members) := by
  have hget : ∀ k ∈ keywords, Table.get? k (Table.insert key j members) = Table.get? k members := by
    intro k hk
    have hne : k ≠ key := fun he => hkey (he ▸ hk)
    rw [Table.get?_insert, if_neg hne]
  have hproperties := hget "properties" (by decide)
  have hrequired := hget "required" (by decide)
  exact
    { earlier := fun k hk => (hget k (List.mem_append_left _ hk)).trans (h.earlier k hk)
      type := (hget _ (by decide)).trans h.type
      properties := by rw [Compile.properties, hproperties]; exact h.properties
      required := by rw [requiredNames, hrequired]; exact h.required
      additional := (hget _ (by decide)).trans h.additional }

/-- The node of a method has exactly the slots in use, and its description says nothing of its
type. -/
theorem exists_exact_methodMembers (title : String) (s : Schema) (m : Method) :
    ∃ slots, Table.keys slots = (s.present m).map Slot.title ∧
      Exact slots (Document.methodMembers title s m) := by
  have hkeys : Table.keys ((Document.slots? (title ++ m.title) s m.slots).getD []) =
      (s.present m).map Slot.title := by
    rw [Document.slots?_eq]
    split
    · next hnone =>
      rw [hnone]
      rfl
    · exact Document.keys_slotEntries _ s m
  have hnode := exact_objectNode (some (title ++ m.title))
    (Document.slots? (title ++ m.title) s m.slots)
  refine ⟨_, hkeys, ?_⟩
  unfold Document.methodMembers
  cases s.description with
  | none => exact hnode
  | some d => exact hnode.insert (by decide) d

section steps

variable {c : Context} {inner : Json → Action TypeExpr} {ps members : List (String × Json)}

def requiredMember (c : Context) (inner : Json → Action TypeExpr) (p : String × Json) :
    Action (Member TypeExpr) := do
  return ⟨p.1, ← typeOf c inner p.2, false, propertyDescription? p.2⟩

theorem schemaType_of_exact (h : Exact ps members) :
    schemaType c inner (.object members) = do
      return .object (← ps.mapM (requiredMember c inner)) none := by
  have hearlier : Table.get? "$ref" members = none ∧ Table.get? "const" members = none ∧
      Table.get? "enum" members = none ∧ Table.get? "oneOf" members = none ∧
      Table.get? "anyOf" members = none ∧ Table.get? "allOf" members = none := by
    simpa [earlierKeywords] using h.earlier
  obtain ⟨href, hconst, henum, honeOf, hanyOf, hallOf⟩ := hearlier
  have hobject : schemaType c inner (.object members) = objectType c inner members := by
    simp only [schemaType, memberType, structuralType, namedType, href, hconst, henum, honeOf,
      hanyOf, hallOf, h.type, Option.bind_none, Option.or_none]
  -- every property is required, so no member is optional
  have hmember : ∀ p ∈ ps, (do
      return ⟨p.1, ← typeOf c inner p.2, !(Table.keys ps).contains p.1, propertyDescription? p.2⟩) =
        requiredMember c inner p := by
    intro p hp
    have hkey : (Table.keys ps).contains p.1 = true :=
      List.contains_iff_mem.2 (List.mem_map_of_mem hp)
    rw [hkey]
    rfl
  rw [hobject, objectType, additionalType, h.additional, h.properties, h.required,
    List.mapM_congr_of_forall hmember]
  rfl

/-- From `s` to `s'` these different names were given out, among others. -/
structure Context.Gives (c : Context) (s s' : State) (names : List String) : Prop where
  named : s'.Named
  grows : (closing c).grows s s'
  nodup : names.Nodup
  fresh : ∀ n ∈ names, n ∉ s.names ∧ n ∈ s'.names

theorem names_subset_of_grows {s s' : State} (h : (closing c).grows s s') : s.names ⊆ s'.names := by
  obtain ⟨ds, bare, ha⟩ := h
  exact ha.names_subset

theorem Context.Gives.refl {s : State} (hs : s.Named) : c.Gives s s [] :=
  ⟨hs, (closing c).refl s, List.nodup_nil, by simp⟩

theorem Context.Gives.trans {s s₁ s₂ : State} {names names' : List String}
    (h : c.Gives s s₁ names) (h' : c.Gives s₁ s₂ names') : c.Gives s s₂ (names ++ names') where
  named := h'.named
  grows := (closing c).trans h.grows h'.grows
  nodup := by
    refine List.nodup_append.2 ⟨h.nodup, h'.nodup, fun n hn n' hn' he => ?_⟩
    exact (h'.fresh n' hn').1 (he ▸ (h.fresh n hn).2)
  fresh n hn := by
    obtain hn | hn := List.mem_append.1 hn
    · exact ⟨(h.fresh n hn).1, names_subset_of_grows h'.grows (h.fresh n hn).2⟩
    · exact ⟨fun hs => (h'.fresh n hn).1 (names_subset_of_grows h.grows hs), (h'.fresh n hn).2⟩

/-- What one action for each item gives out is different from what the others give out. -/
theorem ends_mapM_gives {α β γ : Type} {xs : List α} {zs : List γ} {P : α → γ → Prop}
    {f : γ → Action β} {names : β → List String} {R : α → β → State → Prop}
    (hR : ∀ x, Lasting (R x)) (hxs : List.Forall₂ P xs zs)
    (hf : ∀ x z, P x z → ∀ s, s.Named →
      Ends (f z) s (fun y s' => c.Gives s s' (names y) ∧ R x y s') fun _ => True) :
    ∀ s, s.Named → Ends (zs.mapM f) s (fun ys s' =>
      c.Gives s s' (ys.flatMap names) ∧ List.Forall₂ (fun x y => R x y s') xs ys)
      fun _ => True := by
  induction hxs with
  | nil => exact fun s hs => ⟨.refl hs, .nil⟩
  | @cons x z xs zs hx _ ih =>
    intro s hs
    rw [List.mapM_cons, ends_bind]
    refine (hf x z hx s hs).imp ?_
    rintro y s₁ ⟨hg₁, hy⟩
    rw [ends_bind]
    refine (ih s₁ hg₁.named).imp ?_
    rintro ys s₂ ⟨hg₂, hys⟩
    exact ⟨hg₁.trans hg₂, .cons ((hR x).stable y s₁ s₂ hg₂.grows hy) hys⟩

def State.Holds (s : State) (name : String) (Q : TypeExpr → Prop) : Prop :=
  ∃ d, some d ∈ s.slots ∧ d.name = name ∧ Q d.type

theorem State.Holds.mono {s s' : State} {name : String} {Q : TypeExpr → Prop}
    (h : s.Holds name Q) (hs : ∀ d, some d ∈ s.slots → some d ∈ s'.slots) :
    s'.Holds name Q := by
  obtain ⟨d, hd, h⟩ := h
  exact ⟨d, hs d hd, h⟩

/-- A schema with a title and without a reference is declared under a new name. -/
theorem ends_typeOf_titled {schema : Json} {title : String} {Q : TypeExpr → Prop}
    (href : schema.text? "$ref" = none) (htitle : schema.text? "title" = some title)
    (hinner : (closing c).Keeps (inner schema) fun t s => t.MentionsOnly s.names ∧ Q t)
    {s : State} (hs : s.Named) :
    Ends (typeOf c inner schema) s
      (fun t s' => ∃ n, t = .named n ∧ c.Gives s s' [n] ∧ s'.Holds n Q) fun _ => True := by
  have hfresh := freshName_not_mem s.names (safeName title)
  have hid := isIdentifier_freshName s.names (isIdentifier_safeName title)
  simp only [typeOf, href, htitle, ends_bind, ends_uniqueName]
  generalize freshName s.names (safeName title) = n at hfresh hid ⊢
  have hrefs : ∀ e ∈ ([] : List (String × String)), e.2 = n := by simp
  -- the discipline says what is added behind the place, the rule for declarations what is in it
  have hgrows : Ends (declare n (description? schema) (inner schema))
      { s with names := n :: s.names } _ _ :=
    ends_declare_named (c := c) _ hs hfresh hid hrefs (hinner.mono fun _ _ _ h => h.1)
  have hslot : Ends (declare n (description? schema) (inner schema))
      { s with names := n :: s.names }
      (fun t s' => t = .named n ∧ n ∈ s'.names ∧ s'.Holds n Q) fun _ => True := by
    rw [ends_declare]
    refine (hinner _ (hs.give hfresh hid hrefs s.documents _ s.bases)).imp ?_
    rintro t s' ⟨-, ⟨ds, bare, ha⟩, -, ht⟩
    exact ⟨rfl, ha.names_subset List.mem_cons_self, ⟨n, description? schema, t⟩,
      by simp [ha.slots], rfl, ht⟩
  refine (hgrows.and hslot).imp ?_
  rintro t s' ⟨⟨hs', hg, -⟩, rfl, hn, hd⟩
  exact ⟨n, rfl, ⟨hs', hg, List.nodup_singleton n, by simp [hfresh, hn]⟩, hd⟩

/-- Whatever the schemas of its properties are, an object schema requires all of them. -/
theorem keeps_bodyType_exact (h : Exact ps members) (bound : Nat) :
    (closing c).Keeps (bodyType c bound (.object members)) fun t s =>
      t.MentionsOnly s.names ∧ t.Requires (Table.keys ps) := by
  have hmember : ∀ (inner : Json → Action TypeExpr) (p : String × Json),
      (closing c).Keeps (typeOf c inner p.2) (fun _ _ => True) →
      (closing c).Keeps (requiredMember c inner p) fun m _ =>
        m.name = p.1 ∧ m.optional = false := by
    intro inner p hp
    refine (Discipline.keeps_map hp).mono ?_
    rintro _ s - ⟨t, -, rfl⟩
    exact ⟨rfl, rfl⟩
  have hrequires : (closing c).Keeps (bodyType c bound (.object members)) fun t _ =>
      t.Requires (Table.keys ps) := by
    cases bound with
    | zero => exact fun _ _ => trivial
    | succ bound =>
      -- no member is optional, because each key is among the required ones
      rw [bodyType, schemaType_of_exact h]
      refine (Discipline.keeps_map (Discipline.keeps_mapM (fun _ _ _ _ _ hm => hm) fun p _ =>
        hmember _ p ((keeps_typeOf_closing (keeps_bodyType_closing bound) p.2).mono
          fun _ _ _ _ => trivial))).mono ?_
      rintro _ s - ⟨ms, hms, rfl⟩
      exact TypeExpr.requires_of_forall₂ hms
  intro s hs
  refine ((keeps_bodyType_closing bound _ s hs).and (hrequires s hs)).imp ?_
  rintro t s' ⟨⟨hs', hg, ht⟩, -, -, hr⟩
  exact ⟨hs', hg, ht, hr⟩

/-- An object schema is compiled by compiling its properties in turn. -/
theorem ends_bodyType_exact {s : State} {Q : TypeExpr → State → Prop} (h : Exact ps members)
    (hps : ∀ bound, Ends (ps.mapM (requiredMember c (bodyType c bound))) s
      (fun ms s' => Q (.object ms none) s') fun _ => True) (bound : Nat) :
    Ends (bodyType c bound (.object members)) s Q fun _ => True := by
  cases bound with
  | zero => trivial
  | succ bound =>
    rw [bodyType, schemaType_of_exact h, ends_bind]
    exact (hps bound).imp fun _ _ hms => hms

def declaredName : TypeExpr → List String
  | .named n => [n]
  | _ => []

def declaredNames : TypeExpr → List String
  | .object ms _ => ms.flatMap fun m => declaredName m.type
  | _ => []

end steps

section nodes

variable {c : Context} {ignoreHead : Bool} {title : String} {route : List Record}

def HasSlots (route : List Record) (m : Method) (t : TypeExpr) : Prop :=
  ∃ r, DeclaredLast route m r ∧
    t.Requires (((r.schema.getD .empty).present m).map Slot.title)

def MethodEntry (title : String) (route : List Record) (name : String) (p : String × Json) : Prop :=
  ∃ m r, name = m.upper ∧ DeclaredLast route m r ∧
    p = (m.upper, Document.methodNode title (r.schema.getD .empty) m)

theorem forall₂_methods (title : String) (route : List Record) (ignoreHead : Bool) :
    List.Forall₂ (MethodEntry title route) (declaredMethods ignoreHead route)
      (Document.methods title route ignoreHead) := by
  have hkeys := Document.keys_methods title route ignoreHead
  have hnodup : (Table.keys (Document.methods title route ignoreHead)).Nodup :=
    Table.nodup_keys_ofList _
  rw [← hkeys, Table.keys, List.forall₂_map_left_iff, List.forall₂_same]
  intro p hp
  have hdeclared : p.1 ∈ declaredMethods ignoreHead route := hkeys ▸ List.mem_map_of_mem hp
  obtain ⟨m, hm⟩ := Document.exists_upper_of_mem hdeclared
  obtain ⟨hwanted, hroute⟩ := Document.exists_declares (hm ▸ hdeclared)
  obtain ⟨before, r, after, hsplit, hr, hafter, hget⟩ :=
    Document.get?_methods title hwanted hroute
  -- a name stands once among the methods, so its node is the one that looking it up gives
  have hp' : some p.2 = some (Document.methodNode title (r.schema.getD .empty) m) := by
    rw [← hget, ← hm]
    exact (Table.get?_of_mem hnodup hp).symm
  exact ⟨m, r, hm, ⟨before, after, hsplit, hr, hafter⟩, Prod.ext hm (Option.some.inj hp')⟩

/-- The member of a path for a method: a name, and a declaration for it with the slots. -/
def IsMethod (route : List Record) (name : String) (m : Member TypeExpr) (s : State) : Prop :=
  ∃ n, m = ⟨name, .named n, false, none⟩ ∧
    s.Holds n fun t => ∀ m : Method, m.upper = name → HasSlots route m t

def IsPath (ignoreHead : Bool) (e : String × List Record) (m : Member TypeExpr) (s : State) :
    Prop :=
  ∃ name : String → String,
    m = ⟨e.1, .closed ((declaredMethods ignoreHead e.2).map fun m => (m, .named (name m))),
      false, none⟩ ∧
    ∀ m : Method, m.upper ∈ declaredMethods ignoreHead e.2 →
      s.Holds (name m.upper) (HasSlots e.2 m)

theorem lasting_isMethod (route : List Record) (name : String) : Lasting (IsMethod route name) := by
  rintro m s s' hs ⟨n, hm, h⟩
  exact ⟨n, hm, h.mono hs⟩

theorem lasting_isPath (e : String × List Record) : Lasting (IsPath ignoreHead e) := by
  rintro m s s' hs ⟨name, hm, h⟩
  exact ⟨name, hm, fun m hmem => (h m hmem).mono hs⟩

/-- The methods of a path are different, so a function tells their names. -/
theorem isPath_of_forall₂ {path : String} {ms : List (Member TypeExpr)} {s : State}
    (h : List.Forall₂ (fun name m => IsMethod route name m s)
      (declaredMethods ignoreHead route) ms) :
    IsPath ignoreHead (path, route) ⟨path, .object ms none, false, none⟩ s := by
  have hnodup : ((declaredMethods ignoreHead route).map id).Nodup := by
    rw [List.map_id, ← Document.keys_methods "" route ignoreHead]
    exact Table.nodup_keys_ofList _
  obtain ⟨name, rfl, hname⟩ := List.exists_eq_map_of_forall₂ hnodup h
  refine ⟨name, by simp [TypeExpr.closed, Function.comp_def], fun m hm => ?_⟩
  obtain ⟨d, hd, hn, hslots⟩ := hname _ hm
  exact ⟨d, hd, hn, hslots m rfl⟩

theorem text?_methodMembers (title : String) (s : Schema) (m : Method) :
    (Document.methodNode title s m).text? "$ref" = none ∧
      (Document.methodNode title s m).text? "title" = some (title ++ m.title) := by
  rw [Document.methodNode_eq]
  simp only [Json.text?, Json.get?, Document.methodMembers]
  cases s.description <;> cases Document.slots? (title ++ m.title) s m.slots <;>
    simp [Document.objectNode, Table.get?_cons, Table.get?_insert, Json.string?]

/-- The node of a method is declared under a new name. -/
theorem ends_method {name : String} {p : String × Json} (hp : MethodEntry title route name p)
    (bound : Nat) {s : State} (hs : s.Named) :
    Ends (requiredMember c (bodyType c bound) p) s
      (fun m s' => c.Gives s s' (declaredName m.type) ∧ IsMethod route name m s')
      fun _ => True := by
  obtain ⟨m, r, rfl, hr, rfl⟩ := hp
  obtain ⟨href, htitle⟩ := text?_methodMembers title (r.schema.getD .empty) m
  have hdescription :
      propertyDescription? (Document.methodNode title (r.schema.getD .empty) m) = none := by
    obtain ⟨j, hj, -⟩ := Option.bind_eq_some_iff.1 htitle
    exact if_pos (.inr (by rw [hj]; rfl))
  obtain ⟨slots, hkeys, hnode⟩ := exists_exact_methodMembers title (r.schema.getD .empty) m
  unfold requiredMember
  rw [ends_bind]
  refine (ends_typeOf_titled href htitle (keeps_bodyType_exact hnode bound) hs).imp ?_
  rintro t s' ⟨n, rfl, hg, d, hd, hn, ht⟩
  rw [hdescription]
  refine ⟨hg, n, rfl, d, hd, hn, fun m' hm' => ?_⟩
  obtain rfl := Document.upper_injective hm'
  exact ⟨r, hr, hkeys ▸ ht⟩

/-- Without a title and a description nothing is declared or described. -/
theorem requiredMember_objectNode (inner : Json → Action TypeExpr) (path : String)
    (ps : List (String × Json)) :
    requiredMember c inner (path, .object (Document.objectNode none (some ps))) = do
      return ⟨path, ← inner (.object (Document.objectNode none (some ps))), false, none⟩ := rfl

/-- The node of a path stays in place. -/
theorem ends_path {e : String × List Record} {p : String × Json}
    (hp : Document.PathNode ignoreHead e p) (bound : Nat) {s : State} (hs : s.Named) :
    Ends (requiredMember c (bodyType c bound) p) s
      (fun m s' => c.Gives s s' (declaredNames m.type) ∧ IsPath ignoreHead e m s')
      fun _ => True := by
  obtain ⟨path, route⟩ := e
  obtain ⟨path', j⟩ := p
  obtain ⟨hpath, title, hj⟩ := hp
  obtain rfl : path' = path := hpath
  obtain rfl : j = .object
      (Document.objectNode none (some (Document.methods title route ignoreHead))) := hj
  have hnode := exact_objectNode none (some (Document.methods title route ignoreHead))
  rw [requiredMember_objectNode, ends_bind]
  refine ends_bodyType_exact hnode (fun bound => ?_) bound
  refine (ends_mapM_gives (lasting_isMethod route) (forall₂_methods title route ignoreHead)
    (fun _ _ hp _ hs => ends_method hp bound hs) s hs).imp ?_
  rintro ms s' ⟨hg, hms⟩
  exact ⟨hg, isPath_of_forall₂ hms⟩

def IsApplication (ignoreHead : Bool) (rs : Routes) (t : TypeExpr) (s : State) : Prop :=
  ∃ name : String → String → String, t = apiType ignoreHead rs name ∧
    (rs.flatMap fun e => (declaredMethods ignoreHead e.2).map (name e.1)).Nodup ∧
    ∀ e ∈ rs, ∀ m : Method, m.upper ∈ declaredMethods ignoreHead e.2 →
      s.Holds (name e.1 m.upper) (HasSlots e.2 m)

theorem lasting_isApplication (rs : Routes) : Lasting (IsApplication ignoreHead rs) := by
  rintro t s s' hs ⟨name, ht, hnodup, h⟩
  exact ⟨name, ht, hnodup, fun e he m hm => (h e he m hm).mono hs⟩

theorem declaredNames_closed (names : List String) (f : String → String) :
    declaredNames (.closed (names.map fun n => (n, .named (f n)))) = names.map f := by
  simp only [TypeExpr.closed, declaredNames, List.flatMap_map]
  exact List.map_eq_flatMap.symm

/-- The document is compiled to the type of the application. -/
theorem ends_build {rs : Routes} (hrs : (rs.map Prod.fst).Nodup) (defs : List (String × Json))
    (registry : Naming.Registry) (bound : Nat) {s : State} (hs : s.Named) :
    Ends (bodyType c bound (Document.build rs defs ignoreHead registry).1) s
      (IsApplication ignoreHead rs) fun _ => True := by
  have hnode := (exact_objectNode (some Document.rootName)
    (some (Document.paths ignoreHead registry rs).1)).insert
      (by decide : "definitions" ∉ keywords) (.object defs)
  refine ends_bodyType_exact hnode (fun bound => ?_) bound
  refine (ends_mapM_gives lasting_isPath (Document.forall₂_paths hrs)
    (fun _ _ hp _ hs => ends_path hp bound hs) s hs).imp ?_
  rintro ms s' ⟨hg, hms⟩
  -- one function for all paths takes the place of one for each
  obtain ⟨name, rfl, hname⟩ := List.exists_eq_map_of_forall₂ hrs hms
  refine ⟨name, by simp [apiType, TypeExpr.closed, Function.comp_def], ?_, hname⟩
  have hnodup := hg.nodup
  simpa only [List.flatMap_map, declaredNames_closed] using hnodup

end nodes

section routes

variable {workDir : String} {rs : Routes} {defs : List (String × Json)} {ignoreHead : Bool}
variable {options : Options} {registry : Naming.Registry} {compiled : Compiled}

/-- The declaration of an application is an interface with its paths, in which each method refers to
an interface of its own with the slots in use. -/
theorem routes_shape (hrs : rs.Pairwise fun a b => a.1 < b.1)
    (h : (routes workDir rs defs ignoreHead options registry).1 = .ok compiled) :
    ∃ ds name,
      declarations (.of workDir (options.forDefinitions workDir defs) compiled.schema)
        Document.rootName = .ok ds ∧
      compiled.text = String.ofList (separate (declarationsText ds)) ∧
      (ds.map Declaration.name).Nodup ∧
      ds.head? = some ⟨"API", none, apiType ignoreHead rs name⟩ ∧
      (rs.flatMap fun e => (declaredMethods ignoreHead e.2).map (name e.1)).Nodup ∧
      ∀ e ∈ rs, ∀ m : Method, m.upper ∈ declaredMethods ignoreHead e.2 →
        ∃ d ∈ ds, d.name = name e.1 m.upper ∧
          ∃ r, DeclaredLast e.2 m r ∧
            d.type.Requires (((r.schema.getD .empty).present m).map Slot.title) := by
  obtain ⟨ds, hds, rfl⟩ := compiled_of_routes h
  obtain ⟨t, ds', s, hfirst, hslots, name, rfl, hnodup, hmethods⟩ :=
    exists_root_of_declarations (lasting_isApplication rs) (fun s hs =>
      ends_build (Document.nodup_of_sorted hrs) defs registry _ hs) hds
  refine ⟨ds, name, hds, rfl, nodup_of_declarations hds, ?_, hnodup, fun e he m hm => ?_⟩
  · rw [hfirst]
    rfl
  · obtain ⟨d, hd, hn, hslotted⟩ := hmethods e he m hm
    rw [hslots] at hd
    obtain ⟨d', hd', hsome⟩ := List.mem_map.1 hd
    obtain rfl := Option.some.inj hsome
    exact ⟨d', hd', hn, hslotted⟩

/-- The schema of a body has the title that is made for a method of a later path. -/
def titledRoutes : Routes :=
  Route.group [
    ⟨"/", .one "post", some { Schema.empty with
      body := some (.object [("title", .string "ItemsGet")]) }⟩,
    ⟨"/items", .many ["get", "HEAD", "TRACE"], some { Schema.empty with
      params := some (.bool true) }⟩,
    ⟨"/items", .one "GET", some { Schema.empty with body := some .null, response := some [] }⟩]

theorem routes_shape_titledRoutes : ∃ compiled,
    (routes "/app" titledRoutes [] false .default .empty).1 = .ok compiled ∧
      ∃ (ds : List Declaration) (name : String → String → String),
        ds.map Declaration.name =
          ["API", "RootPost", "ItemsGet", "ItemsGet1", "ItemsGetReply", "ItemsHead"] ∧
        ds.head? = some ⟨"API", none, .closed [
          ("/", .closed [("POST", .named (name "/" "POST"))]),
          ("/items", .closed [("GET", .named (name "/items" "GET")),
            ("HEAD", .named (name "/items" "HEAD"))])]⟩ ∧
        [name "/" "POST", name "/items" "GET", name "/items" "HEAD"].Nodup := by
  have hnames : ((declarations (.of "/app" (Options.default.forDefinitions "/app" [])
      (Document.build titledRoutes [] false .empty).1) Document.rootName).map
      (List.map Declaration.name)).toOption =
        some ["API", "RootPost", "ItemsGet", "ItemsGet1", "ItemsGetReply", "ItemsHead"] := by
    decide +kernel
  have hok : (routes "/app" titledRoutes [] false .default .empty).1.toOption.isSome := by
    decide +kernel
  have hsorted : titledRoutes.Pairwise fun a b => a.1 < b.1 := Document.sorted_group _
  have hmethods : titledRoutes.map (fun e => (e.1, declaredMethods false e.2)) =
      [("/", ["POST"]), ("/items", ["GET", "HEAD"])] := by
    decide +kernel
  cases h : (routes "/app" titledRoutes [] false .default .empty).1 with
  | error e =>
    rw [h] at hok
    cases hok
  | ok compiled =>
    obtain ⟨ds, name, hds, -, -, hfirst, hnodup, -⟩ := routes_shape hsorted h
    obtain ⟨ds', -, hcompiled⟩ := compiled_of_routes h
    rw [hcompiled] at hds
    rw [hds] at hnames
    refine ⟨compiled, rfl, ds, name, Option.some.inj hnames, ?_, ?_⟩
    · have htype : apiType false titledRoutes name = .closed
          ((titledRoutes.map fun e => (e.1, declaredMethods false e.2)).map fun e =>
            (e.1, .closed (e.2.map fun m => (m, .named (name e.1 m))))) := by
        rw [List.map_map]
        rfl
      rw [hfirst, htype, hmethods]
      rfl
    · have hflat : titledRoutes.flatMap
          (fun e => (declaredMethods false e.2).map (name e.1)) =
          (titledRoutes.map fun e => (e.1, declaredMethods false e.2)).flatMap fun e =>
            e.2.map (name e.1) := by
        rw [List.flatMap_map]
      rw [hflat, hmethods] at hnodup
      exact hnodup

end routes

end Compile

end ApiTypes
