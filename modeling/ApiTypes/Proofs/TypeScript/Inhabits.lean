import ApiTypes.Proofs.Schema.Valid
import ApiTypes.TypeScript.Basic

namespace ApiTypes.TypeScript

def Literal.value : Literal → Json
  | .string s => .string s
  | .real x => .number (.real x)
  | .integer n => .number (.integer n)
  | .bool b => .bool b
  | .null => .null

inductive Keyword.Holds : Keyword → Json → Prop
  | string (s : String) : Holds .string (.string s)
  | number (n : Json.Number) : Holds .number (.number n)
  | boolean (b : Bool) : Holds .boolean (.bool b)
  | null : Holds .null .null
  | unknown (v : Json) : Holds .unknown v

inductive Inhabits (ds : List Declaration) : TypeExpr → Json → Prop
  | keyword {k : Keyword} {v : Json} (h : k.Holds v) : Inhabits ds (.keyword k) v
  | literal {l : Literal} {v : Json} (h : l.value.Same v) : Inhabits ds (.literal l) v
  | array {e : TypeExpr} {xs : List Json} (h : ∀ x ∈ xs, Inhabits ds e x) :
      Inhabits ds (.array e) (.array xs)
  | tuple {ts : List TypeExpr} {xs : List Json} (h : List.Forall₂ (Inhabits ds) ts xs) :
      Inhabits ds (.tuple ts) (.array xs)
  | union {t : TypeExpr} {ts : List TypeExpr} {v : Json} (ht : t ∈ ts) (h : Inhabits ds t v) :
      Inhabits ds (.union ts) v
  | intersection {ts : List TypeExpr} {v : Json} (h : ∀ t ∈ ts, Inhabits ds t v) :
      Inhabits ds (.intersection ts) v
  | object {ms : List (Member TypeExpr)} {index : Option TypeExpr} {vs : List (String × Json)}
      (hrequired : ∀ m ∈ ms, m.optional = false → m.name ∈ Table.keys vs)
      (hmembers : ∀ m ∈ ms, ∀ x, (m.name, x) ∈ vs → Inhabits ds m.type x)
      (hclosed : index = none → ∀ key ∈ Table.keys vs, key ∈ ms.map Member.name)
      (hindex : ∀ t, index = some t → ∀ key x, (key, x) ∈ vs → key ∉ ms.map Member.name →
        Inhabits ds t x) : Inhabits ds (.object ms index) (.object vs)
  | named {d : Declaration} {v : Json} (hd : d ∈ ds) (honly : ∀ d' ∈ ds, d'.name = d.name → d' = d)
      (h : Inhabits ds d.type v) : Inhabits ds (.named d.name) v

variable {ds : List Declaration} {t : TypeExpr} {ts : List TypeExpr} {v : Json}

theorem not_inhabits_never : ¬ Inhabits ds (.keyword .never) v := by
  rintro ⟨⟨⟩⟩

theorem inhabits_unknown (v : Json) : Inhabits ds (.keyword .unknown) v :=
  .keyword (.unknown v)

theorem Inhabits.exists_alternative (h : Inhabits ds t v) :
    ∃ u ∈ t.alternatives, Inhabits ds u v := by
  unfold TypeExpr.alternatives
  split
  · cases h with
    | union hu h => exact ⟨_, hu, h⟩
  · exact ⟨t, List.mem_singleton_self t, h⟩

/-- Taking over the members of unions leaves no value out. -/
theorem inhabits_unionOf (ht : t ∈ ts) (h : Inhabits ds t v) : Inhabits ds (.unionOf ts) v := by
  obtain ⟨u, hu, hv⟩ := h.exists_alternative
  have hmem : u ∈ ts.flatMap TypeExpr.alternatives := List.mem_flatMap.2 ⟨t, ht, hu⟩
  unfold TypeExpr.unionOf
  split
  · next hnil => simp [hnil] at hmem
  · next w hw =>
    rw [hw] at hmem
    obtain rfl := List.mem_singleton.1 hmem
    exact hv
  · exact .union hmem hv

theorem inhabits_intersectionOf (h : ∀ t ∈ ts, Inhabits ds t v) :
    Inhabits ds (.intersectionOf ts) v := by
  unfold TypeExpr.intersectionOf
  split
  · exact inhabits_unknown v
  · next t => exact h t (List.mem_singleton_self t)
  · exact .intersection h

end ApiTypes.TypeScript
