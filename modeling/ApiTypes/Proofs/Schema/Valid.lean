import ApiTypes.Json.Pointer
import Mathlib.Data.List.Forall2
import Mathlib.Data.List.Perm.Basic

/-!
Valid values.  A schema asks of a value what each of its keywords asks; a schema with a reference
asks what the target of the reference asks, and nothing else.  Schemas can refer to themselves, so
validity is the least relation that is closed under these rules.
-/

namespace ApiTypes

/-- The number as JavaScript reads it. -/
def Json.Number.toFloat : Json.Number → Float
  | .integer n => .ofInt n
  | .real x => x

/-- Numbers of the same double precision value; both zeros have one value. -/
def Json.Number.Same (a b : Json.Number) : Prop :=
  a.toFloat = b.toFloat ∨ a.toFloat == b.toFloat

/-- Equal values.  The order of the members of an object has no meaning. -/
inductive Json.Same : Json → Json → Prop
  | null : Same .null .null
  | bool (b : Bool) : Same (.bool b) (.bool b)
  | number {a b : Json.Number} (h : a.Same b) : Same (.number a) (.number b)
  | string (s : String) : Same (.string s) (.string s)
  | array {xs ys : List Json} (h : List.Forall₂ Same xs ys) : Same (.array xs) (.array ys)
  | object {xs ys zs : List (String × Json)} (hp : xs.Perm ys) (hk : Table.keys ys = Table.keys zs)
      (h : List.Forall₂ Same (ys.map Prod.snd) (zs.map Prod.snd)) : Same (.object xs) (.object zs)

namespace Schema

def IsWhole : Json.Number → Prop
  | .integer _ => True
  | .real x => x.floor == x

/-- The values of a named type.  A name that is not known asks nothing. -/
def HasType (name : String) (v : Json) : Prop :=
  match name with
  | "null" => v = .null
  | "boolean" => ∃ b, v = .bool b
  | "integer" => ∃ n, IsWhole n ∧ v = .number n
  | "number" => ∃ n, v = .number n
  | "string" => ∃ s, v = .string s
  | "array" => ∃ xs, v = .array xs
  | "object" => ∃ vs, v = .object vs
  | _ => True

/-- A `type` that says nothing, because it is neither a name nor a list. -/
def Untyped (members : List (String × Json)) : Prop :=
  (∀ name, Table.get? "type" members ≠ some (.string name)) ∧
    ∀ names, Table.get? "type" members ≠ some (.array names)

def HasObjectKey (members : List (String × Json)) : Prop :=
  Table.contains "properties" members ∨ Table.contains "additionalProperties" members

/-- What the keywords of a schema ask of a value, if `valid` says what schemas ask. -/
structure Keywords (valid : Json → Json → Prop) (members : List (String × Json)) (v : Json) :
    Prop where
  const : ∀ value, Table.get? "const" members = some value → value.Same v
  enum : ∀ values, Table.get? "enum" members = some (.array values) → ∃ value ∈ values, value.Same v
  oneOf : ∀ schemas, Table.get? "oneOf" members = some (.array schemas) →
    ∃ schema ∈ schemas, valid schema v
  anyOf : ∀ schemas, Table.get? "anyOf" members = some (.array schemas) →
    ∃ schema ∈ schemas, valid schema v
  allOf : ∀ schemas, Table.get? "allOf" members = some (.array schemas) →
    ∀ schema ∈ schemas, valid schema v
  type : ∀ name, Table.get? "type" members = some (.string name) → HasType name v
  types : ∀ names, Table.get? "type" members = some (.array names) →
    ∃ name, .string name ∈ names ∧ HasType name v
  properties : ∀ ps, Table.get? "properties" members = some (.object ps) → ∀ vs, v = .object vs →
    ∀ key schema x, (key, schema) ∈ ps → (key, x) ∈ vs → valid schema x
  required : ∀ names, Table.get? "required" members = some (.array names) → ∀ vs, v = .object vs →
    ∀ name, .string name ∈ names → name ∈ Table.keys vs
  /-- Asked of the members that `properties` does not name. -/
  additional : ∀ schema, Table.get? "additionalProperties" members = some schema →
    ∀ vs, v = .object vs → ∀ key x, (key, x) ∈ vs →
    (∀ ps, Table.get? "properties" members = some (.object ps) → key ∉ Table.keys ps) →
    valid schema x
  items : ∀ schema, Table.get? "items" members = some schema → (∀ items, schema ≠ .array items) →
    ∀ xs, v = .array xs → ∀ x ∈ xs, valid schema x
  /-- A list of schemas asks for exactly as many items. -/
  tuple : ∀ schemas, Table.get? "items" members = some (.array schemas) → ∀ xs, v = .array xs →
    List.Forall₂ valid schemas xs
  object : Untyped members → HasObjectKey members → ∃ vs, v = .object vs
  array : Untyped members → ¬ HasObjectKey members → Table.contains "items" members →
    ∃ xs, v = .array xs

inductive Accepts (doc : Json) (valid : Json → Json → Prop) : Json → Json → Prop
  | any {schema : Json} (v : Json) (hf : schema ≠ .bool false)
      (ho : ∀ members, schema ≠ .object members) : Accepts doc valid schema v
  | reference {members : List (String × Json)} {pointer : String} {target v : Json}
      (h : Table.get? "$ref" members = some (.string ("#" ++ pointer)))
      (ht : Json.Pointer.resolve? pointer doc = some target) (hv : valid target v) :
      Accepts doc valid (.object members) v
  | keywords {members : List (String × Json)} {v : Json}
      (h : ∀ ref, Table.get? "$ref" members ≠ some (.string ref)) (hk : Keywords valid members v) :
      Accepts doc valid (.object members) v

/-- Every relation that is closed under the rules holds of the schema and the value. -/
def Valid (doc schema v : Json) : Prop :=
  ∀ R : Json → Json → Prop, (∀ schema v, Accepts doc R schema v → R schema v) → R schema v

section mono

variable {valid valid' : Json → Json → Prop} (hsub : ∀ schema v, valid schema v → valid' schema v)

include hsub

theorem Keywords.mono {members : List (String × Json)} {v : Json} (h : Keywords valid members v) :
    Keywords valid' members v where
  const := h.const
  enum := h.enum
  -- `valid` stands only in positive places
  oneOf schemas hs := by
    obtain ⟨schema, hm, hv⟩ := h.oneOf schemas hs
    exact ⟨schema, hm, hsub schema v hv⟩
  anyOf schemas hs := by
    obtain ⟨schema, hm, hv⟩ := h.anyOf schemas hs
    exact ⟨schema, hm, hsub schema v hv⟩
  allOf schemas hs schema hm := hsub schema v (h.allOf schemas hs schema hm)
  type := h.type
  types := h.types
  properties ps hps vs hvs key schema x hs hx :=
    hsub schema x (h.properties ps hps vs hvs key schema x hs hx)
  required := h.required
  additional schema hs vs hvs key x hx hkey :=
    hsub schema x (h.additional schema hs vs hvs key x hx hkey)
  items schema hs hn xs hxs x hx := hsub schema x (h.items schema hs hn xs hxs x hx)
  tuple schemas hs xs hxs := (h.tuple schemas hs xs hxs).imp hsub
  object := h.object
  array := h.array

theorem Accepts.mono {doc schema v : Json} (h : Accepts doc valid schema v) :
    Accepts doc valid' schema v := by
  cases h with
  | any v hf ho => exact .any v hf ho
  | reference hr ht hv => exact .reference hr ht (hsub _ _ hv)
  | keywords hr hk => exact .keywords hr (hk.mono hsub)

end mono

/-- Validity is itself closed under the rules. -/
theorem valid_of_accepts {doc schema v : Json} (h : Accepts doc (Valid doc) schema v) :
    Valid doc schema v := by
  intro R hR
  apply hR
  apply h.mono
  intro schema v hv
  exact hv R hR

end Schema

end ApiTypes
