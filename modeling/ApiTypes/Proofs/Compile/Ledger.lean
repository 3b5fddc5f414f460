import ApiTypes.Proofs.Compile.Documents
import ApiTypes.Proofs.Compile.Watched
import Mathlib.Algebra.BigOperators.Group.List.Basic
import Mathlib.Algebra.Group.Prod
import Mathlib.Algebra.Order.Group.Multiset
import Mathlib.Tactic.Abel

/-!
What a compilation takes in and what it gives out.  It takes in the schemas that it compiles inside
others and the targets that it declares, and gives out the members of object types and the
declarations.  A ledger counts both.  It is settled if it is made up of properties, each with the
member and the declaration that it becomes, and of other schemas with their declarations.
-/

namespace ApiTypes

open TypeScript

namespace TypeScript.TypeExpr

mutual

/-- The members of the object types in a type, at any depth. -/
def allMembers : TypeExpr → List (Member TypeExpr)
  | .keyword _ | .literal _ | .named _ => []
  | .array element => element.allMembers
  | .tuple types | .union types | .intersection types => listMembers types
  | .object members index => nestedMembers members ++ indexMembers index

def listMembers : List TypeExpr → List (Member TypeExpr)
  | [] => []
  | t :: types => t.allMembers ++ listMembers types

def nestedMembers : List (Member TypeExpr) → List (Member TypeExpr)
  | [] => []
  | ⟨name, type, optional, description⟩ :: members =>
    ⟨name, type, optional, description⟩ :: (type.allMembers ++ nestedMembers members)

def indexMembers : Option TypeExpr → List (Member TypeExpr)
  | none => []
  | some type => type.allMembers

end

@[simp] theorem allMembers_keyword (k : Keyword) : (keyword k).allMembers = [] := rfl

@[simp] theorem allMembers_literal (l : Literal) : (literal l).allMembers = [] := rfl

@[simp] theorem allMembers_named (n : String) : (named n).allMembers = [] := rfl

theorem listMembers_eq (types : List TypeExpr) :
    listMembers types = types.flatMap allMembers := by
  induction types with
  | nil => rfl
  | cons t types ih =>
    rw [List.flatMap_cons, ← ih]
    rfl

theorem nestedMembers_eq (members : List (Member TypeExpr)) :
    nestedMembers members = members.flatMap fun m => m :: m.type.allMembers := by
  induction members with
  | nil => rfl
  | cons m members ih =>
    rw [List.flatMap_cons, ← ih]
    rfl

theorem indexMembers_eq (index : Option TypeExpr) :
    indexMembers index = index.toList.flatMap allMembers := by
  cases index with
  | none => rfl
  | some t =>
    rw [Option.toList_some, List.flatMap_singleton]
    rfl

theorem allMembers_array (t : TypeExpr) : (array t).allMembers = t.allMembers := rfl

theorem allMembers_tuple (types : List TypeExpr) :
    (tuple types).allMembers = types.flatMap allMembers :=
  listMembers_eq types

theorem allMembers_union (types : List TypeExpr) :
    (union types).allMembers = types.flatMap allMembers :=
  listMembers_eq types

theorem allMembers_intersection (types : List TypeExpr) :
    (intersection types).allMembers = types.flatMap allMembers :=
  listMembers_eq types

theorem allMembers_object (members : List (Member TypeExpr)) (index : Option TypeExpr) :
    (object members index).allMembers =
      (members.flatMap fun m => m :: m.type.allMembers) ++ index.toList.flatMap allMembers := by
  rw [← nestedMembers_eq, ← indexMembers_eq]
  rfl

theorem flatMap_alternatives (t : TypeExpr) : t.alternatives.flatMap allMembers = t.allMembers := by
  cases t with
  | union types => exact (allMembers_union types).symm
  | _ => exact List.flatMap_singleton ..

/-- The members in a union are those in the types it is made from. -/
theorem allMembers_unionOf (types : List TypeExpr) :
    (unionOf types).allMembers = types.flatMap allMembers := by
  have hall : (types.flatMap alternatives).flatMap allMembers = types.flatMap allMembers := by
    simp only [List.flatMap_assoc, flatMap_alternatives]
  rw [← hall, unionOf]
  cases types.flatMap alternatives with
  | nil => rfl
  | cons t rest =>
    cases rest with
    | nil => rw [List.flatMap_singleton]
    | cons u rest => exact allMembers_union (t :: u :: rest)

theorem allMembers_intersectionOf (types : List TypeExpr) :
    (intersectionOf types).allMembers = types.flatMap allMembers := by
  unfold intersectionOf
  split
  · rfl
  · rw [List.flatMap_singleton]
  · exact allMembers_intersection _

end TypeScript.TypeExpr

namespace Compile

def ownTitle? (schema : Json) : Option String :=
  match schema.text? "$ref" with
  | some _ => none
  | none => schema.text? "title"

/-- A schema that is compiled inside another one: a property, by its key, or one without a key. -/
inductive Part where
  | property (key : String) (schema : Json)
  | bare (schema : Json)

namespace Part

def property? : Part → Option (String × Json)
  | property key schema => some (key, schema)
  | bare _ => none

def titled? : Part → Option Json
  | property _ _ => none
  | bare schema => (ownTitle? schema).map fun _ => schema

end Part

section parts

variable (members : List (String × Json))

def arrayParts : List Part :=
  match Table.get? "items" members with
  | some (.array items) => items.map .bare
  | some schema => [.bare schema]
  | none => []

def additionalParts : List Part :=
  match Table.get? "additionalProperties" members with
  | none | some (.bool _) => []
  | some schema => [.bare schema]

def objectParts : List Part :=
  (properties members).map (fun p => .property p.1 p.2) ++ additionalParts members

def namedParts (name : String) : List Part :=
  match name with
  | "array" => arrayParts members
  | "object" => objectParts members
  | _ => []

def structuralParts : List Part :=
  match Table.get? "type" members with
  | some (.string name) => namedParts members name
  | some (.array names) => (names.filterMap Json.string?).flatMap (namedParts members)
  | _ =>
    if Table.contains "properties" members ∨ Table.contains "additionalProperties" members then
      objectParts members
    else if Table.contains "items" members then arrayParts members
    else []

def memberParts : List Part :=
  match (Table.get? "$ref" members).bind Json.string?, Table.get? "const" members,
    (Table.get? "enum" members).bind Json.array?,
    ((Table.get? "oneOf" members).or (Table.get? "anyOf" members)).bind Json.array?,
    (Table.get? "allOf" members).bind Json.array? with
  | some _, _, _, _, _ | none, some _, _, _, _ | none, none, some _, _, _ => []
  | none, none, none, some schemas, _ | none, none, none, none, some schemas => schemas.map .bare
  | none, none, none, none, none => structuralParts members

end parts

/-- The schemas that are compiled inside a schema, in order.  A schema with a list of types is
compiled for each of them. -/
def parts : Json → List Part
  | .object members => memberParts members
  | _ => []

def Event.properties : Event → List (String × Json)
  | .visited schema => (parts schema).filterMap Part.property?
  | _ => []

def Event.declares (c : Context) : Event → List Json
  | .visited schema => (parts schema).filterMap Part.titled?
  | .named base pointer _ true => (c.part base pointer).toOption.toList
  | _ => []

/-- Members and declarations that were given out, and properties and other declared schemas that
were taken in. -/
abbrev Ledger :=
  Multiset (Member TypeExpr) × Multiset Declaration × Multiset (String × Json) × Multiset Json

namespace Ledger

def members (ms : List (Member TypeExpr)) : Ledger := (↑ms, 0, 0, 0)

def declarations (ds : List Declaration) : Ledger := (0, ↑ds, 0, 0)

def properties (ps : List (String × Json)) : Ledger := (0, 0, ↑ps, 0)

def schemas (js : List Json) : Ledger := (0, 0, 0, ↑js)

@[simp] theorem members_nil : members [] = 0 := rfl

@[simp] theorem declarations_nil : declarations [] = 0 := rfl

@[simp] theorem properties_nil : properties [] = 0 := rfl

@[simp] theorem schemas_nil : schemas [] = 0 := rfl

@[simp] theorem members_append (ms ms' : List (Member TypeExpr)) :
    members (ms ++ ms') = members ms + members ms' := by
  simp [members]

@[simp] theorem declarations_append (ds ds' : List Declaration) :
    declarations (ds ++ ds') = declarations ds + declarations ds' := by
  simp [declarations]

@[simp] theorem properties_append (ps ps' : List (String × Json)) :
    properties (ps ++ ps') = properties ps + properties ps' := by
  simp [properties]

@[simp] theorem schemas_append (js js' : List Json) :
    schemas (js ++ js') = schemas js + schemas js' := by
  simp [schemas]

def given (ds : List Declaration) : Ledger :=
  members (ds.flatMap fun d => d.type.allMembers) + declarations ds

def taken (c : Context) (log : List Event) : Ledger :=
  properties (log.flatMap Event.properties) + schemas (log.flatMap (Event.declares c))

def ofParts (ps : List Part) : Ledger :=
  properties (ps.filterMap Part.property?) + schemas (ps.filterMap Part.titled?)

@[simp] theorem given_nil : given [] = 0 := rfl

@[simp] theorem taken_nil (c : Context) : taken c [] = 0 := rfl

@[simp] theorem ofParts_nil : ofParts [] = 0 := rfl

@[simp] theorem given_append (ds ds' : List Declaration) :
    given (ds ++ ds') = given ds + given ds' := by
  simp only [given, List.flatMap_append, members_append, declarations_append]
  abel

@[simp] theorem taken_append (c : Context) (log log' : List Event) :
    taken c (log ++ log') = taken c log + taken c log' := by
  simp only [taken, List.flatMap_append, properties_append, schemas_append]
  abel

@[simp] theorem ofParts_append (ps ps' : List Part) :
    ofParts (ps ++ ps') = ofParts ps + ofParts ps' := by
  simp only [ofParts, List.filterMap_append, properties_append, schemas_append]
  abel

theorem ofParts_property (key : String) (schema : Json) :
    ofParts [.property key schema] = properties [(key, schema)] := by
  simp [ofParts, Part.property?, Part.titled?, List.filterMap_cons]

theorem ofParts_bare (schema : Json) :
    ofParts [.bare schema] = schemas ((ownTitle? schema).map fun _ => schema).toList := by
  cases h : ownTitle? schema with
  | none => simp [ofParts, Part.property?, Part.titled?, List.filterMap_cons, h]
  | some title => simp [ofParts, Part.property?, Part.titled?, List.filterMap_cons, h]

theorem taken_visited (c : Context) (schema : Json) :
    taken c [.visited schema] = ofParts (parts schema) := by
  simp [taken, ofParts, Event.properties, Event.declares]

end Ledger

/-- A property with the member that it becomes, and with the declaration of its own type if there is
one. -/
structure Placed where
  key : String
  schema : Json
  member : Member TypeExpr
  own : Option Declaration

namespace Placed

variable (p : Placed)

/-- A property is declared by itself if it has a title and is no reference. -/
structure Fits : Prop where
  name : p.member.name = p.key
  own : p.own.isSome = (ownTitle? p.schema).isSome
  type : ∀ d, p.own = some d → p.member.type = .named d.name

structure Carries : Prop where
  member : p.member.description = propertyDescription? p.schema
  own : ∀ d, p.own = some d → d.description = description? p.schema

def ledger : Ledger :=
  .members [p.member] + .declarations p.own.toList + .properties [(p.key, p.schema)]

theorem sum_ledger (placed : List Placed) :
    (placed.map ledger).sum = .members (placed.map member) + .declarations (placed.filterMap own) +
      .properties (placed.map fun p => (p.key, p.schema)) := by
  induction placed with
  | nil => rfl
  | cons p placed ih =>
    have hown : Ledger.declarations ((p :: placed).filterMap own) =
        .declarations p.own.toList + .declarations (placed.filterMap own) := by
      cases h : p.own with
      | none =>
        rw [List.filterMap_cons_none h, Option.toList_none, Ledger.declarations_nil, zero_add]
      | some d =>
        rw [List.filterMap_cons_some h, Option.toList_some]
        exact Ledger.declarations_append [d] _
    have hmember : Ledger.members ((p :: placed).map member) =
        .members [p.member] + .members (placed.map member) := Ledger.members_append [p.member] _
    have hproperty : Ledger.properties ((p :: placed).map fun p => (p.key, p.schema)) =
        .properties [(p.key, p.schema)] + .properties (placed.map fun p => (p.key, p.schema)) :=
      Ledger.properties_append [(p.key, p.schema)] _
    rw [List.map_cons, List.sum_cons, ih, hown, hmember, hproperty, ledger]
    abel

end Placed

/-- What was given out is what was taken in: properties as members, and schemas as declarations with
their descriptions. -/
def Ledger.Settled (l : Ledger) : Prop :=
  ∃ (placed : List Placed) (others : List (Json × Declaration)),
    (∀ p ∈ placed, p.Fits ∧ p.Carries) ∧ (∀ o ∈ others, o.2.description = description? o.1) ∧
      l = (placed.map Placed.ledger).sum +
        (.schemas (others.map Prod.fst) + .declarations (others.map Prod.snd))

namespace Ledger

variable {l l' : Ledger}

theorem settled_zero : Settled 0 :=
  ⟨[], [], by simp, by simp, rfl⟩

theorem Settled.add (h : l.Settled) (h' : l'.Settled) : (l + l').Settled := by
  obtain ⟨placed, others, hplaced, hothers, rfl⟩ := h
  obtain ⟨placed', others', hplaced', hothers', rfl⟩ := h'
  refine ⟨placed ++ placed', others ++ others', ?_, ?_, ?_⟩
  · intro p hp
    exact (List.mem_append.1 hp).elim (hplaced p) (hplaced' p)
  · intro o ho
    exact (List.mem_append.1 ho).elim (hothers o) (hothers' o)
  · simp only [List.map_append, List.sum_append, schemas_append, declarations_append]
    abel

theorem settled_placed {p : Placed} (hfits : p.Fits) (hcarries : p.Carries) :
    p.ledger.Settled :=
  ⟨[p], [], by simp [hfits, hcarries], by simp, by simp⟩

theorem settled_declared {d : Declaration} {schema : Json}
    (h : d.description = description? schema) : (schemas [schema] + declarations [d]).Settled :=
  ⟨[], [(schema, d)], by simp, by simp [h], by simp⟩

end Ledger

end Compile

end ApiTypes
