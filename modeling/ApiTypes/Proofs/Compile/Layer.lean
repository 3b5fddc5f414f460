import ApiTypes.Compile.Schema
import ApiTypes.Proofs.Compile.Run
import ApiTypes.Proofs.Json.Within
import ApiTypes.Proofs.Lists
import ApiTypes.Proofs.Schema.Valid
import ApiTypes.Proofs.TypeScript.Occurs

namespace ApiTypes.Compile

open TypeScript

/-- The types of the schemas inside a schema, and the types that references lead to. -/
structure Typing where
  inner : Json → TypeExpr → Prop
  led : String → TypeExpr → Prop

def Context.indexType (c : Context) (t : TypeExpr) : TypeExpr :=
  if c.options.strictIndexSignatures then .unionOf [t, .keyword .undefined] else t

namespace Typing

variable (c : Context) (T : Typing) (members : List (String × Json))

inductive OfArray : TypeExpr → Prop
  | tuple {items : List Json} {ts : List TypeExpr}
      (h : Table.get? "items" members = some (.array items))
      (hts : List.Forall₂ T.inner items ts) : OfArray (.tuple ts)
  | array {schema : Json} {e : TypeExpr} (h : Table.get? "items" members = some schema)
      (hn : ∀ items, schema ≠ .array items) (he : T.inner schema e) : OfArray (.array e)
  | any (h : Table.get? "items" members = none) : OfArray (.array (.keyword .unknown))

def OfProperty (p : String × Json) (m : Member TypeExpr) : Prop :=
  ∃ t, T.inner p.2 t ∧
    m = ⟨p.1, t, !(requiredNames members).contains p.1, propertyDescription? p.2⟩

inductive OfAdditional : Option TypeExpr → Prop
  | absent (h : Table.get? "additionalProperties" members = none) :
      OfAdditional (if c.options.allowsAdditional then some (.keyword .unknown) else none)
  | bool {allowed : Bool} (h : Table.get? "additionalProperties" members = some (.bool allowed)) :
      OfAdditional (if allowed then some (.keyword .unknown) else none)
  | schema {schema : Json} {t : TypeExpr}
      (h : Table.get? "additionalProperties" members = some schema)
      (hn : ∀ b, schema ≠ .bool b) (ht : T.inner schema t) : OfAdditional (some t)

inductive OfObject : TypeExpr → Prop
  | intro {ms : List (Member TypeExpr)} {index : Option TypeExpr}
      (hms : List.Forall₂ (T.OfProperty members) (properties members) ms)
      (hi : T.OfAdditional c members index) : OfObject (.object ms (index.map c.indexType))

inductive OfName : String → TypeExpr → Prop
  | string : OfName "string" (.keyword .string)
  | number : OfName "number" (.keyword .number)
  | integer : OfName "integer" (.keyword .number)
  | boolean : OfName "boolean" (.keyword .boolean)
  | null : OfName "null" (.keyword .null)
  | array {t : TypeExpr} (h : T.OfArray members t) : OfName "array" t
  | object {t : TypeExpr} (h : T.OfObject c members t) : OfName "object" t
  | other {name : String}
      (h : name ∉ ["string", "number", "integer", "boolean", "null", "array", "object"]) :
      OfName name (.keyword .unknown)

inductive OfStructure : TypeExpr → Prop
  | name {name : String} {t : TypeExpr} (h : Table.get? "type" members = some (.string name))
      (ht : T.OfName c members name t) : OfStructure t
  | names {names : List Json} {ts : List TypeExpr}
      (h : Table.get? "type" members = some (.array names))
      (hts : List.Forall₂ (T.OfName c members) (names.filterMap Json.string?) ts) :
      OfStructure (.unionOf ts)
  | object {t : TypeExpr} (h : Schema.Untyped members)
      (hk : Schema.HasObjectKey members)
      (ht : T.OfObject c members t) : OfStructure t
  | array {t : TypeExpr} (h : Schema.Untyped members)
      (hk : ¬ Schema.HasObjectKey members)
      (hi : Table.contains "items" members) (ht : T.OfArray members t) : OfStructure t
  | any (h : Schema.Untyped members)
      (hk : ¬ Schema.HasObjectKey members)
      (hi : ¬ Table.contains "items" members) : OfStructure (.keyword .unknown)

/-- The type of a schema without a reference. -/
inductive OfKeywords : TypeExpr → Prop
  | const {value : Json} (h : Table.get? "const" members = some value) :
      OfKeywords (literalType value)
  | enum {values : List Json} (h : Table.get? "enum" members = some (.array values)) :
      OfKeywords (.unionOf (values.map literalType))
  | union {schemas : List Json} {ts : List TypeExpr}
      (h : Table.get? "oneOf" members = some (.array schemas) ∨
        Table.get? "anyOf" members = some (.array schemas))
      (hts : List.Forall₂ T.inner schemas ts) : OfKeywords (.unionOf ts)
  | intersection {schemas : List Json} {ts : List TypeExpr}
      (h : Table.get? "allOf" members = some (.array schemas))
      (hts : List.Forall₂ T.inner schemas ts) : OfKeywords (.intersectionOf ts)
  | structural {t : TypeExpr} (h : T.OfStructure c members t) : OfKeywords t

inductive OfSchema : Json → TypeExpr → Prop
  | never : OfSchema (.bool false) (.keyword .never)
  | any {schema : Json} (h : ∀ members, schema ≠ .object members) :
      OfSchema schema (.keyword .unknown)
  | reference {schema : Json} {ref : String} {t : TypeExpr} (h : schema.text? "$ref" = some ref)
      (ht : T.led ref t) : OfSchema schema t
  | keywords {members : List (String × Json)} {t : TypeExpr}
      (h : (Json.object members).text? "$ref" = none) (ht : T.OfKeywords c members t) :
      OfSchema (.object members) t

structure Sub (T T' : Typing) : Prop where
  inner : ∀ {schema t}, T.inner schema t → T'.inner schema t
  led : ∀ {ref t}, T.led ref t → T'.led ref t

section sub

variable {c} {T} {members} {T' : Typing} (h : T.Sub T') {t : TypeExpr}

include h

theorem Sub.forall₂ {schemas : List Json} {ts : List TypeExpr}
    (hts : List.Forall₂ T.inner schemas ts) : List.Forall₂ T'.inner schemas ts :=
  hts.imp fun _ _ => h.inner

theorem OfArray.mono (ht : T.OfArray members t) : T'.OfArray members t := by
  cases ht with
  | tuple hi hts => exact .tuple hi (h.forall₂ hts)
  | array hi hn he => exact .array hi hn (h.inner he)
  | any hi => exact .any hi

theorem OfProperty.mono {p : String × Json} {m : Member TypeExpr}
    (hm : T.OfProperty members p m) : T'.OfProperty members p m := by
  obtain ⟨u, hu, rfl⟩ := hm
  exact ⟨u, h.inner hu, rfl⟩

theorem OfAdditional.mono {index : Option TypeExpr} (hi : T.OfAdditional c members index) :
    T'.OfAdditional c members index := by
  cases hi with
  | absent ha => exact .absent ha
  | bool ha => exact .bool ha
  | schema ha hn hu => exact .schema ha hn (h.inner hu)

theorem OfObject.mono (ht : T.OfObject c members t) : T'.OfObject c members t := by
  obtain ⟨hms, hi⟩ := ht
  exact .intro (hms.imp fun _ _ hm => hm.mono h) (hi.mono h)

theorem OfName.mono {name : String} (ht : T.OfName c members name t) :
    T'.OfName c members name t := by
  cases ht with
  | string => exact .string
  | number => exact .number
  | integer => exact .integer
  | boolean => exact .boolean
  | null => exact .null
  | array ha => exact .array (ha.mono h)
  | object ho => exact .object (ho.mono h)
  | other hn => exact .other hn

theorem OfStructure.mono (ht : T.OfStructure c members t) : T'.OfStructure c members t := by
  cases ht with
  | name hn hu => exact .name hn (hu.mono h)
  | names hn hts => exact .names hn (hts.imp fun _ _ hu => hu.mono h)
  | object hu hk ho => exact .object hu hk (ho.mono h)
  | array hu hk hi ha => exact .array hu hk hi (ha.mono h)
  | any hu hk hi => exact .any hu hk hi

theorem OfKeywords.mono (ht : T.OfKeywords c members t) : T'.OfKeywords c members t := by
  cases ht with
  | const hv => exact .const hv
  | enum hv => exact .enum hv
  | union hs hts => exact .union hs (h.forall₂ hts)
  | intersection hs hts => exact .intersection hs (h.forall₂ hts)
  | structural hu => exact .structural (hu.mono h)

theorem OfSchema.mono {schema : Json} (ht : T.OfSchema c schema t) : T'.OfSchema c schema t := by
  cases ht with
  | never => exact .never
  | any hs => exact .any hs
  | reference hr hl => exact .reference hr (h.led hl)
  | keywords hr hk => exact .keywords hr (hk.mono h)

end sub

section compositional

variable {c} {T} {members} {Q : TypeExpr → Prop} (hQ : TypeExpr.Compositional Q)
  (hinner : ∀ {schema t}, T.inner schema t → Q t) {t : TypeExpr}

include hQ hinner

omit hQ in
theorem forall_of_forall₂ {schemas : List Json} {ts : List TypeExpr}
    (hts : List.Forall₂ T.inner schemas ts) : ∀ t ∈ ts, Q t := by
  intro t ht
  obtain ⟨schema, -, h⟩ := hts.exists_left ht
  exact hinner h

theorem OfArray.compositional (ht : T.OfArray members t) : Q t := by
  cases ht with
  | tuple _ hts => exact hQ.tuple (forall_of_forall₂ hinner hts)
  | array _ _ he => exact hQ.array (hinner he)
  | any => exact hQ.array (hQ.keyword _)

theorem OfAdditional.compositional {index : Option TypeExpr}
    (hi : T.OfAdditional c members index) : ∀ u, index = some u → Q u := by
  cases hi with
  | absent => split <;> simp [hQ.keyword]
  | bool => split <;> simp [hQ.keyword]
  | schema _ _ hu =>
    rintro _ ⟨⟩
    exact hinner hu

omit hinner in
theorem compositional_indexType (ht : Q t) : Q (c.indexType t) := by
  unfold Context.indexType
  split
  · exact hQ.unionOf (by simp [ht, hQ.keyword])
  · exact ht

theorem OfObject.compositional (ht : T.OfObject c members t) : Q t := by
  obtain ⟨hms, hi⟩ := ht
  refine hQ.object ?_ ?_
  · intro m hm
    obtain ⟨p, -, u, hu, rfl⟩ := hms.exists_left hm
    exact hinner hu
  · intro u hu
    obtain ⟨v, hv, rfl⟩ := Option.map_eq_some_iff.1 hu
    exact compositional_indexType hQ (hi.compositional hQ hinner v hv)

theorem OfName.compositional {name : String} (ht : T.OfName c members name t) : Q t := by
  cases ht with
  | array ha => exact ha.compositional hQ hinner
  | object ho => exact ho.compositional hQ hinner
  | _ => exact hQ.keyword _

theorem OfStructure.compositional (ht : T.OfStructure c members t) : Q t := by
  cases ht with
  | name _ hu => exact hu.compositional hQ hinner
  | names _ hts =>
    refine hQ.unionOf fun u hu => ?_
    obtain ⟨name, -, hname⟩ := hts.exists_left hu
    exact hname.compositional hQ hinner
  | object _ _ ho => exact ho.compositional hQ hinner
  | array _ _ _ ha => exact ha.compositional hQ hinner
  | any => exact hQ.keyword _

omit hinner in
theorem compositional_literalType (value : Json) : Q (literalType value) := by
  unfold literalType
  split
  case h_3 => split <;> exact hQ.literal _
  case h_6 | h_7 => exact hQ.keyword _
  all_goals exact hQ.literal _

theorem OfKeywords.compositional (ht : T.OfKeywords c members t) : Q t := by
  cases ht with
  | const => exact compositional_literalType hQ _
  | enum =>
    refine hQ.unionOf fun u hu => ?_
    obtain ⟨v, -, rfl⟩ := List.mem_map.1 hu
    exact compositional_literalType hQ v
  | union _ hts => exact hQ.unionOf (forall_of_forall₂ hinner hts)
  | intersection _ hts => exact hQ.intersectionOf (forall_of_forall₂ hinner hts)
  | structural hu => exact hu.compositional hQ hinner

theorem OfSchema.compositional (hled : ∀ {ref t}, T.led ref t → Q t) {schema : Json}
    (ht : T.OfSchema c schema t) : Q t := by
  cases ht with
  | never => exact hQ.keyword _
  | any => exact hQ.keyword _
  | reference _ hl => exact hled hl
  | keywords _ hk => exact hk.compositional hQ hinner

end compositional

end Typing

section reference

variable {c : Context} {inner : Json → Action TypeExpr} {s : State}

/-- A name of the table of references, found under the first or the second key. -/
theorem exists_ref_of_found {refs : List (String × String)} {key name : String}
    {second : Option String}
    (h : (Table.get? key refs).or (second.bind fun k => Table.get? k refs) = some name) :
    ∃ k, (k = key ∨ second = some k) ∧ (k, name) ∈ refs := by
  obtain h | ⟨-, h⟩ := Option.or_eq_some_iff.1 h
  · exact ⟨key, .inl rfl, Table.mem_of_get? h⟩
  · obtain ⟨k, hk, h⟩ := Option.bind_eq_some_iff.1 h
    exact ⟨k, .inr hk, Table.mem_of_get? h⟩

/-- A reference is answered with a name that it was given before; or its target is declared under a
new name, unless targets in other documents are not declared. -/
theorem ends_reference {Q : TypeExpr → State → Prop} {E : Error → Prop} (ref : String)
    (hbases : ∀ t s' bases, Q t s' → Q t { s' with bases })
    (hknown : ∀ e ∈ s.refs, Q (.named e.2) s)
    (hfirst : ∀ base pointer, Ends (target c base pointer) s (fun schema s₁ => ∀ name refs bases,
      name = freshName s₁.names (safeName (nameHint schema base pointer)) →
      (∀ e ∈ refs, e.2 = name) →
        Ends (declare name (description? schema) (inner schema))
          ⟨name :: s₁.names, refs ++ s₁.refs, s₁.documents, s₁.slots, bases⟩ Q E ∧
        (¬ c.options.declaresExternal → Q (.named name)
          ⟨name :: s₁.names, refs ++ s₁.refs, s₁.documents, s₁.slots, bases⟩)) E) :
    Ends (reference c inner ref) s Q E := by
  unfold reference
  simp only [ends_bind, ends_get]
  generalize c.base s.bases (splitReference ref).1 = base
  generalize (splitReference ref).2 = pointer
  split
  · next name hfound =>
    obtain ⟨k, -, hk⟩ := exists_ref_of_found hfound
    exact hknown _ hk
  rw [ends_bind]
  refine (hfirst base pointer).imp fun schema s₁ h => ?_
  simp only [ends_bind, ends_uniqueName, ends_modify]
  generalize hname : freshName s₁.names (safeName (nameHint schema base pointer)) = name
  -- both keys of the target lead to its new name
  have hrefs : ∀ e ∈ (targetKey base pointer, name) ::
      ((c.aliasKey? base pointer).map (·, name)).toList, e.2 = name := by
    intro e he
    obtain rfl | he := List.mem_cons.1 he
    · rfl
    · obtain ⟨k, -, rfl⟩ := Option.map_eq_some_iff.1 (Option.mem_toList.1 he)
      rfl
  have hname := fun bases => h name _ bases hname.symm hrefs
  split
  · exact (hname s₁.bases).1
  split
  · rw [ends_inside]
    exact (hname (base :: s₁.bases)).1.imp fun t s' ht => hbases t s' _ ht
  · next hexternal => exact (hname s₁.bases).2 hexternal

end reference

abbrev TypingAt := State → Typing

section keeps

variable {c : Context} {inner : Json → Action TypeExpr} {members : List (String × Json)}
variable {D : Discipline} {T : TypingAt} {P : Json → Prop}

/-- The compilation of schemas with `P` and of references keeps a discipline and gives the types of
a typing that stays true. -/
structure Discipline.Types (D : Discipline) (T : TypingAt) (P : Json → Prop) (c : Context)
    (inner : Json → Action TypeExpr) : Prop where
  inherited : Json.Inherited P
  sub : ∀ s s', D.grows s s' → (T s).Sub (T s')
  typeOf : ∀ schema, P schema → D.Keeps (typeOf c inner schema) fun t s => (T s).inner schema t
  reference : ∀ members ref, P (.object members) →
    (Table.get? "$ref" members).bind Json.string? = some ref →
    D.Keeps (reference c inner ref) fun t s => (T s).led ref t

namespace Discipline.Types

variable (h : D.Types T P c inner)

include h

theorem keeps_typeOf_list {schemas : List Json} (hP : ∀ schema ∈ schemas, P schema) :
    D.Keeps (schemas.mapM (Compile.typeOf c inner))
      fun ts s => List.Forall₂ (T s).inner schemas ts :=
  keeps_mapM (fun _ _ s s' hg ht => (h.sub s s' hg).inner ht)
    fun schema hs => h.typeOf schema (hP schema hs)

theorem keeps_arrayType (hP : P (.object members)) :
    D.Keeps (arrayType c inner members) fun t s => (T s).OfArray members t := by
  unfold arrayType
  split
  · next items hi =>
    refine (keeps_map (h.keeps_typeOf_list (h.inherited.of_item hP hi))).mono ?_
    rintro _ s - ⟨ts, hts, rfl⟩
    exact .tuple hi hts
  · next schema hn hi =>
    refine (keeps_map (h.typeOf schema (h.inherited.of_get? hP hi))).mono ?_
    rintro _ s - ⟨e, he, rfl⟩
    exact .array hi (fun items hs => hn items hs) he
  · next hi => exact keeps_pure fun _ _ => .any hi

theorem keeps_additionalType (hP : P (.object members)) :
    D.Keeps (additionalType c inner members) fun index s => (T s).OfAdditional c members index := by
  unfold additionalType
  split
  · next ha => exact keeps_pure fun _ _ => .absent ha
  · next allowed ha => exact keeps_pure fun _ _ => .bool ha
  · next schema hn ha =>
    refine (keeps_map (h.typeOf schema (h.inherited.of_get? hP ha))).mono ?_
    rintro _ s - ⟨t, ht, rfl⟩
    exact .schema ha (fun b hs => hn b hs) ht

theorem property_inherits (hP : P (.object members)) : ∀ p ∈ properties members, P p.2 :=
  h.inherited.of_members fun _ => h.inherited.of_get? hP

theorem keeps_objectType (hP : P (.object members)) :
    D.Keeps (objectType c inner members) fun t s => (T s).OfObject c members t := by
  have hstable : D.Stable fun ms s =>
      List.Forall₂ ((T s).OfProperty members) (properties members) ms := by
    intro ms s s' hg hms
    exact hms.imp fun _ _ hm => hm.mono (h.sub s s' hg)
  refine (keeps_bind hstable (keeps_mapM ?_ ?_) fun ms =>
    keeps_map (h.keeps_additionalType hP)).mono ?_
  · exact fun _ _ s s' hg hm => Typing.OfProperty.mono (h.sub s s' hg) hm
  · rintro ⟨name, schema⟩ hp
    exact keeps_map (h.typeOf schema (h.property_inherits hP _ hp))
  · rintro _ s - ⟨ms, hms, index, hi, rfl⟩
    exact .intro hms hi

theorem keeps_namedType (hP : P (.object members)) (name : String) :
    D.Keeps (namedType c inner members name) fun t s => (T s).OfName c members name t := by
  unfold namedType
  split
  · exact keeps_pure fun _ _ => .string
  · exact keeps_pure fun _ _ => .number
  · exact keeps_pure fun _ _ => .integer
  · exact keeps_pure fun _ _ => .boolean
  · exact keeps_pure fun _ _ => .null
  · exact (h.keeps_arrayType hP).mono fun _ _ _ ht => .array ht
  · exact (h.keeps_objectType hP).mono fun _ _ _ ht => .object ht
  · exact keeps_pure fun _ _ => .other (by simp_all)

theorem keeps_structuralType (hP : P (.object members)) :
    D.Keeps (structuralType c inner members) fun t s => (T s).OfStructure c members t := by
  unfold structuralType
  split
  · next name hn => exact (h.keeps_namedType hP name).mono fun _ _ _ ht => .name hn ht
  · next names hn =>
    refine (keeps_map (keeps_mapM (fun _ _ s s' hg ht => ht.mono (h.sub s s' hg))
      fun name _ => h.keeps_namedType hP name)).mono ?_
    rintro _ s - ⟨ts, hts, rfl⟩
    exact .names hn hts
  · next hs ha =>
    -- without a `type` the other keywords tell what the schema is about
    have hu : Schema.Untyped members := ⟨hs, ha⟩
    split
    · next hk => exact (h.keeps_objectType hP).mono fun _ _ _ ht => .object hu hk ht
    · next hk =>
      split
      · next hi => exact (h.keeps_arrayType hP).mono fun _ _ _ ht => .array hu hk hi ht
      · next hi => exact keeps_pure fun _ _ => .any hu hk hi

theorem keeps_memberType (hP : P (.object members)) :
    D.Keeps (memberType c inner members) fun t s => (T s).OfSchema c (.object members) t := by
  unfold memberType
  split
  · next ref hr => exact (h.reference members ref hP hr).mono fun _ _ _ ht => .reference hr ht
  · next value hr hv => exact keeps_pure fun _ _ => .keywords hr (.const hv)
  · next values hr _ hv => exact keeps_pure fun _ _ => .keywords hr (.enum (Json.eq_array hv))
  · next schemas hr _ _ hs =>
    -- `anyOf` is read only where there is no `oneOf`
    have hs := Json.eq_array hs
    refine (keeps_map (h.keeps_typeOf_list ?_)).mono ?_
    · obtain ho | ⟨-, ha⟩ := Option.or_eq_some_iff.1 hs
      · exact h.inherited.of_item hP ho
      · exact h.inherited.of_item hP ha
    · rintro _ s - ⟨ts, hts, rfl⟩
      exact .keywords hr (.union ((Option.or_eq_some_iff.1 hs).imp id And.right) hts)
  · next schemas hr _ _ _ hs =>
    have hs := Json.eq_array hs
    refine (keeps_map (h.keeps_typeOf_list (h.inherited.of_item hP hs))).mono ?_
    rintro _ s - ⟨ts, hts, rfl⟩
    exact .keywords hr (.intersection hs hts)
  · next hr _ _ _ _ =>
    exact (h.keeps_structuralType hP).mono fun _ _ _ ht => .keywords hr (.structural ht)

theorem keeps_schemaType {schema : Json} (hP : P schema) :
    D.Keeps (schemaType c inner schema) fun t s => (T s).OfSchema c schema t := by
  unfold schemaType
  split
  · exact h.keeps_memberType hP
  · exact keeps_pure fun _ _ => .never
  · next ho _ => exact keeps_pure fun _ _ => .any fun members hm => ho members hm

end Discipline.Types

/-- Compiling a schema keeps a discipline if its references and the schemas inside it do. -/
theorem Discipline.keeps_bodyType (hnesting : D.error .nesting)
    (hstep : ∀ inner, (∀ schema, P schema →
      D.Keeps (inner schema) fun t s => (T s).OfSchema c schema t) → D.Types T P c inner)
    (bound : Nat) (schema : Json) (hP : P schema) :
    D.Keeps (bodyType c bound schema) fun t s => (T s).OfSchema c schema t := by
  -- the bound is what the compilation recurs on; one that is used up is an error
  induction bound generalizing schema with
  | zero =>
    intro s _
    exact hnesting
  | succ bound ih => exact (hstep (bodyType c bound) ih).keeps_schemaType hP

end keeps

end ApiTypes.Compile
