import ApiTypes.Compile.Schema
import ApiTypes.Proofs.Json.Within

namespace ApiTypes.Compile

open TypeScript Json

/-- What a layer does at a reference, at a schema with a title, and at one that stands in place. -/
structure Walk (m : Type → Type) where
  reference : String → m TypeExpr
  titled : String → Json → m TypeExpr
  inner : Json → m TypeExpr

namespace Walk

section layer

variable {m : Type → Type} [Monad m] (w : Walk m) (o : Options) (members : List (String × Json))

def typeOf (schema : Json) : m TypeExpr :=
  match schema.text? "$ref", schema.text? "title" with
  | some ref, _ => w.reference ref
  | none, some title => w.titled title schema
  | none, none => w.inner schema

def arrayType : m TypeExpr :=
  match Table.get? "items" members with
  | some (.array items) => do return .tuple (← items.mapM w.typeOf)
  | some schema => do return .array (← w.typeOf schema)
  | none => return .array (.keyword .unknown)

def additionalType : m (Option TypeExpr) :=
  match Table.get? "additionalProperties" members with
  | none => return if o.allowsAdditional then some (.keyword .unknown) else none
  | some (.bool allowed) => return if allowed then some (.keyword .unknown) else none
  | some schema => do return some (← w.typeOf schema)

def objectType : m TypeExpr := do
  let required := requiredNames members
  let props ← (properties members).mapM fun (name, schema) => do
    let type ← w.typeOf schema
    return (⟨name, type, !required.contains name, propertyDescription? schema⟩ : Member TypeExpr)
  let index ← w.additionalType o members
  return .object props (index.map fun t =>
    if o.strictIndexSignatures then .unionOf [t, .keyword .undefined] else t)

def namedType (name : String) : m TypeExpr :=
  match name with
  | "string" => return .keyword .string
  | "number" | "integer" => return .keyword .number
  | "boolean" => return .keyword .boolean
  | "null" => return .keyword .null
  | "array" => w.arrayType members
  | "object" => w.objectType o members
  | _ => return .keyword .unknown

def structuralType : m TypeExpr :=
  match Table.get? "type" members with
  | some (.string name) => w.namedType o members name
  | some (.array names) => do
    return .unionOf (← (names.filterMap Json.string?).mapM (w.namedType o members))
  | _ =>
    if Table.contains "properties" members ∨ Table.contains "additionalProperties" members then
      w.objectType o members
    else if Table.contains "items" members then w.arrayType members
    else return .keyword .unknown

def memberType : m TypeExpr :=
  match (Table.get? "$ref" members).bind Json.string?, Table.get? "const" members,
    (Table.get? "enum" members).bind Json.array?,
    ((Table.get? "oneOf" members).or (Table.get? "anyOf" members)).bind Json.array?,
    (Table.get? "allOf" members).bind Json.array? with
  | some ref, _, _, _, _ => w.reference ref
  | none, some value, _, _, _ => return literalType value
  | none, none, some values, _, _ => return .unionOf (values.map literalType)
  | none, none, none, some schemas, _ => do return .unionOf (← schemas.mapM w.typeOf)
  | none, none, none, none, some schemas => do return .intersectionOf (← schemas.mapM w.typeOf)
  | none, none, none, none, none => w.structuralType o members

def schemaType (schema : Json) : m TypeExpr :=
  match schema with
  | .object members => w.memberType o members
  | .bool false => return .keyword .never
  | _ => return .keyword .unknown

end layer

def of (c : Context) (inner : Json → Action TypeExpr) : Walk Action where
  reference := Compile.reference c inner
  titled title schema := do
    let name ← uniqueName title
    declare name (description? schema) (inner schema)
  inner := inner

theorem schemaType_of (c : Context) (inner : Json → Action TypeExpr) :
    (of c inner).schemaType c.options = Compile.schemaType c inner := by
  rfl

end Walk

structure Simulation (m n : Type → Type) [Monad m] [Monad n] where
  Rel : {α : Type} → m α → n α → Prop
  rel_pure : ∀ {α : Type} (x : α), Rel (pure x) (pure x)
  rel_bind : ∀ {α β : Type} {a : m α} {a' : n α} {f : α → m β} {f' : α → n β},
    Rel a a' → (∀ x, Rel (f x) (f' x)) → Rel (a >>= f) (a' >>= f')

section simulation

variable {m n : Type → Type} [Monad m] [Monad n]

namespace Simulation

variable (S : Simulation m n)

theorem rel_map {α β : Type} {a : m α} {a' : n α} (h : S.Rel a a') (f : α → β) :
    S.Rel (do return f (← a)) (do return f (← a')) :=
  S.rel_bind h fun x => S.rel_pure (f x)

theorem rel_mapM [LawfulMonad m] [LawfulMonad n] {α β : Type} {xs : List α} {f : α → m β}
    {f' : α → n β} (h : ∀ x ∈ xs, S.Rel (f x) (f' x)) : S.Rel (xs.mapM f) (xs.mapM f') := by
  induction xs with
  | nil =>
    rw [List.mapM_nil, List.mapM_nil]
    exact S.rel_pure []
  | cons x xs ih =>
    rw [List.mapM_cons, List.mapM_cons]
    refine S.rel_bind (h x List.mem_cons_self) fun y => ?_
    exact S.rel_map (ih fun z hz => h z (List.mem_cons_of_mem x hz)) fun ys => y :: ys

theorem rel_forM {α : Type} {xs : List α} {f : α → m PUnit} {f' : α → n PUnit}
    (h : ∀ x ∈ xs, S.Rel (f x) (f' x)) : S.Rel (xs.forM f) (xs.forM f') := by
  induction xs with
  | nil => exact S.rel_pure _
  | cons x xs ih =>
    refine S.rel_bind (h x List.mem_cons_self) fun _ => ?_
    exact ih fun z hz => h z (List.mem_cons_of_mem x hz)

end Simulation

/-- Two layers are related where they leave schemas with `P`. -/
structure Simulates (S : Simulation m n) (P : Json → Prop) (w : Walk m) (w' : Walk n) :
    Prop where
  inherited : Inherited P
  reference : ∀ j ref, P j → j.text? "$ref" = some ref → S.Rel (w.reference ref) (w'.reference ref)
  titled : ∀ title j, P j → S.Rel (w.titled title j) (w'.titled title j)
  inner : ∀ j, P j → S.Rel (w.inner j) (w'.inner j)

namespace Simulates

variable [LawfulMonad m] [LawfulMonad n] {S : Simulation m n} {P : Json → Prop}
variable {w : Walk m} {w' : Walk n} (h : Simulates S P w w') {o : Options}
variable {members : List (String × Json)}

include h

omit [LawfulMonad m] [LawfulMonad n] in
theorem typeOf {j : Json} (hj : P j) : S.Rel (w.typeOf j) (w'.typeOf j) := by
  unfold Walk.typeOf
  split
  · next ref href => exact h.reference j ref hj href
  · next title _ _ => exact h.titled title j hj
  · exact h.inner j hj

theorem types {items : List Json} (hP : ∀ j ∈ items, P j) :
    S.Rel (items.mapM w.typeOf) (items.mapM w'.typeOf) :=
  S.rel_mapM fun j hj => h.typeOf (hP j hj)

theorem arrayType (hP : P (.object members)) :
    S.Rel (w.arrayType members) (w'.arrayType members) := by
  unfold Walk.arrayType
  split
  · next items hi => exact S.rel_map (h.types (h.inherited.of_item hP hi)) _
  · next schema _ hi => exact S.rel_map (h.typeOf (h.inherited.of_get? hP hi)) _
  · exact S.rel_pure _

omit [LawfulMonad m] [LawfulMonad n] in
theorem additionalType (hP : P (.object members)) :
    S.Rel (w.additionalType o members) (w'.additionalType o members) := by
  unfold Walk.additionalType
  split
  · exact S.rel_pure _
  · exact S.rel_pure _
  · next schema _ ha => exact S.rel_map (h.typeOf (h.inherited.of_get? hP ha)) _

omit [LawfulMonad m] [LawfulMonad n] in
theorem property (hP : P (.object members)) : ∀ p ∈ properties members, P p.2 :=
  h.inherited.of_members fun _ => h.inherited.of_get? hP

theorem objectType (hP : P (.object members)) :
    S.Rel (w.objectType o members) (w'.objectType o members) := by
  unfold Walk.objectType
  refine S.rel_bind (S.rel_mapM fun p hp => ?_) fun ms => ?_
  · exact S.rel_map (h.typeOf (h.property hP p hp)) _
  · exact S.rel_map (h.additionalType hP) _

theorem namedType (hP : P (.object members)) (name : String) :
    S.Rel (w.namedType o members name) (w'.namedType o members name) := by
  unfold Walk.namedType
  split
  · exact S.rel_pure _
  · exact S.rel_pure _
  · exact S.rel_pure _
  · exact S.rel_pure _
  · exact S.rel_pure _
  · exact h.arrayType hP
  · exact h.objectType hP
  · exact S.rel_pure _

theorem structuralType (hP : P (.object members)) :
    S.Rel (w.structuralType o members) (w'.structuralType o members) := by
  unfold Walk.structuralType
  split
  · exact h.namedType hP _
  · exact S.rel_map (S.rel_mapM fun name _ => h.namedType hP name) _
  · split
    · exact h.objectType hP
    · split
      · exact h.arrayType hP
      · exact S.rel_pure _

theorem memberType (hP : P (.object members)) :
    S.Rel (w.memberType o members) (w'.memberType o members) := by
  unfold Walk.memberType
  split
  · next ref href => exact h.reference _ ref hP href
  · exact S.rel_pure _
  · exact S.rel_pure _
  · next schemas _ _ _ hs =>
    -- `anyOf` is read only where there is no `oneOf`
    refine S.rel_map (h.types ?_) _
    obtain ho | ⟨-, ha⟩ := Option.or_eq_some_iff.1 (Json.eq_array hs)
    · exact h.inherited.of_item hP ho
    · exact h.inherited.of_item hP ha
  · next schemas _ _ _ _ hs =>
    exact S.rel_map (h.types (h.inherited.of_item hP (Json.eq_array hs))) _
  · exact h.structuralType hP

theorem schemaType {j : Json} (hj : P j) : S.Rel (w.schemaType o j) (w'.schemaType o j) := by
  unfold Walk.schemaType
  split
  · exact h.memberType hj
  · exact S.rel_pure _
  · exact S.rel_pure _

end Simulates

end simulation

end ApiTypes.Compile
