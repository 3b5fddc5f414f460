import ApiTypes.Proofs.Compile.Layer
import ApiTypes.Proofs.TypeScript.Inhabits

namespace ApiTypes.Compile.Typing

open TypeScript

variable {c : Context} {T : Typing} {valid : Json → Json → Prop} {ds : List Declaration}

/-- Valid values of the schemas inside a schema have their types, and `false` has no values. -/
structure Sound (T : Typing) (valid : Json → Json → Prop) (ds : List Declaration) : Prop where
  inner : ∀ {schema t v}, T.inner schema t → valid schema v → Inhabits ds t v
  false : ∀ v, ¬ valid (.bool false) v

variable (h : T.Sound valid ds) {members : List (String × Json)} {v : Json} {t : TypeExpr}
variable (hk : Schema.Keywords valid members v)

include h hk

theorem OfArray.inhabits (ht : T.OfArray members t) {xs : List Json} (hv : v = .array xs) :
    Inhabits ds t v := by
  subst hv
  cases ht with
  | tuple hi hts =>
    have hxs := hk.tuple _ hi xs rfl
    exact .tuple (hts.join hxs fun _ _ _ ht hx => h.inner ht hx)
  | array hi hn he =>
    apply Inhabits.array
    intro x hx
    exact h.inner he (hk.items _ hi hn xs rfl x hx)
  | any =>
    apply Inhabits.array
    intro x _
    exact inhabits_unknown x

omit h hk in
theorem mem_properties {p : String × Json} (hp : p ∈ properties members) :
    ∃ ps, Table.get? "properties" members = some (.object ps) ∧ p ∈ ps := by
  unfold properties at hp
  cases hg : (Table.get? "properties" members).bind Json.object? with
  | none => simp [hg] at hp
  | some ps =>
    rw [hg] at hp
    exact ⟨ps, Json.eq_object hg, hp⟩

omit h hk in
theorem mem_requiredNames {name : String} (hn : name ∈ requiredNames members) :
    ∃ names, Table.get? "required" members = some (.array names) ∧ .string name ∈ names := by
  unfold requiredNames at hn
  cases hg : (Table.get? "required" members).bind Json.array? with
  | none => simp [hg] at hn
  | some names =>
    rw [hg] at hn
    obtain ⟨j, hj, hs⟩ := List.mem_filterMap.1 hn
    cases j <;> cases hs
    exact ⟨names, Json.eq_array hg, hj⟩

omit h hk in
theorem map_name_of_properties {ps : List (String × Json)} {ms : List (Member TypeExpr)}
    (hms : List.Forall₂ (T.OfProperty members) ps ms) : ms.map Member.name = Table.keys ps := by
  induction hms with
  | nil => rfl
  | cons hm _ ih =>
    obtain ⟨t, -, rfl⟩ := hm
    exact congrArg (_ :: ·) ih

/-- A member that is no property is one that only `additionalProperties` speaks of. -/
theorem OfAdditional.inhabits (hallow : c.options.allowsAdditional = true)
    {index : Option TypeExpr} (hi : T.OfAdditional c members index)
    {vs : List (String × Json)} (hv : v = .object vs) {key : String} {x : Json}
    (hx : (key, x) ∈ vs) (hkey : key ∉ Table.keys (properties members)) :
    ∃ t, index = some t ∧ Inhabits ds t x := by
  have hadditional : ∀ schema, Table.get? "additionalProperties" members = some schema →
      valid schema x := by
    intro schema hs
    refine hk.additional schema hs vs hv key x hx fun ps hps hmem => hkey ?_
    simpa [properties, hps, Json.object?] using hmem
  cases hi with
  | absent => exact ⟨_, if_pos hallow, inhabits_unknown x⟩
  | @bool allowed ha =>
    cases allowed with
    | false => exact absurd (hadditional _ ha) (h.false x)
    | true => exact ⟨_, rfl, inhabits_unknown x⟩
  | schema ha hn ht => exact ⟨_, rfl, h.inner ht (hadditional _ ha)⟩

theorem OfObject.inhabits (hallow : c.options.allowsAdditional = true)
    (ht : T.OfObject c members t) {vs : List (String × Json)} (hv : v = .object vs) :
    Inhabits ds t v := by
  obtain ⟨hms, hi⟩ := ht
  have hnames := map_name_of_properties hms
  have hrest : ∀ key x, (key, x) ∈ vs → key ∉ Table.keys (properties members) →
      ∃ t, _ = some t ∧ Inhabits ds t x :=
    fun _ _ hx hkey => hi.inhabits h hk hallow hv hx hkey
  subst hv
  refine .object ?_ ?_ ?_ ?_
  · -- a member that is not optional was required
    intro m hm hrequired
    obtain ⟨p, -, u, -, rfl⟩ := hms.exists_left hm
    have hn : p.1 ∈ requiredNames members := by simpa using hrequired
    obtain ⟨names, hg, hmem⟩ := mem_requiredNames hn
    exact hk.required names hg vs rfl p.1 hmem
  · intro m hm x hx
    obtain ⟨p, hp, u, hu, rfl⟩ := hms.exists_left hm
    obtain ⟨ps, hg, hmem⟩ := mem_properties hp
    exact h.inner hu (hk.properties ps hg vs rfl p.1 p.2 x hmem hx)
  · -- without an index `additionalProperties` takes no members
    intro hnone key hkey
    rw [hnames]
    by_contra hout
    obtain ⟨⟨_, x⟩, hx, rfl⟩ := List.mem_map.1 hkey
    obtain ⟨u, hu, -⟩ := hrest _ x hx hout
    simp [hu] at hnone
  · intro u hu key x hx hkey
    rw [hnames] at hkey
    obtain ⟨w, rfl, hw⟩ := hrest key x hx hkey
    obtain rfl := Option.some.inj hu
    unfold Context.indexType
    split
    · exact inhabits_unionOf List.mem_cons_self hw
    · exact hw

theorem OfName.inhabits (hallow : c.options.allowsAdditional = true) {name : String}
    (ht : T.OfName c members name t) (hname : Schema.HasType name v) : Inhabits ds t v := by
  cases ht with
  | string =>
    obtain ⟨s, rfl⟩ := hname
    exact .keyword (.string s)
  | number =>
    obtain ⟨n, rfl⟩ := hname
    exact .keyword (.number n)
  | integer =>
    obtain ⟨n, -, rfl⟩ := hname
    exact .keyword (.number n)
  | boolean =>
    obtain ⟨b, rfl⟩ := hname
    exact .keyword (.boolean b)
  | null =>
    obtain rfl := hname
    exact .keyword .null
  | array ha =>
    obtain ⟨xs, hv⟩ := hname
    exact ha.inhabits h hk hv
  | object ho =>
    obtain ⟨vs, hv⟩ := hname
    exact ho.inhabits h hk hallow hv
  | other => exact inhabits_unknown v

theorem OfStructure.inhabits (hallow : c.options.allowsAdditional = true)
    (ht : T.OfStructure c members t) : Inhabits ds t v := by
  cases ht with
  | name hn hu => exact hu.inhabits h hk hallow (hk.type _ hn)
  | names hn hts =>
    obtain ⟨name, hmem, hname⟩ := hk.types _ hn
    have hstring : name ∈ List.filterMap Json.string? _ := List.mem_filterMap.2 ⟨_, hmem, rfl⟩
    obtain ⟨u, hu, hty⟩ := hts.exists_right hstring
    exact inhabits_unionOf hu (hty.inhabits h hk hallow hname)
  | object hu hkey ho =>
    obtain ⟨vs, hv⟩ := hk.object hu hkey
    exact ho.inhabits h hk hallow hv
  | array hu hkey hi ha =>
    obtain ⟨xs, hv⟩ := hk.array hu hkey hi
    exact ha.inhabits h hk hv
  | any => exact inhabits_unknown v

omit h hk in
/-- A value that equals another one has the literal type of the other one. -/
theorem inhabits_literalType {value : Json} (hs : value.Same v) :
    Inhabits ds (literalType value) v := by
  unfold literalType
  split
  case h_3 =>
    split
    · exact .literal hs
    · cases hs with
      | number hn => exact .literal (.number hn)
  case h_6 | h_7 => exact inhabits_unknown v
  all_goals exact .literal hs

theorem OfKeywords.inhabits (hallow : c.options.allowsAdditional = true)
    (ht : T.OfKeywords c members t) : Inhabits ds t v := by
  cases ht with
  | const hv => exact inhabits_literalType (hk.const _ hv)
  | enum hvs =>
    obtain ⟨value, hmem, hv⟩ := hk.enum _ hvs
    exact inhabits_unionOf (List.mem_map_of_mem hmem) (inhabits_literalType hv)
  | union hs hts =>
    obtain ⟨schema, hmem, hv⟩ := hs.elim (hk.oneOf _) (hk.anyOf _)
    obtain ⟨u, hu, hty⟩ := hts.exists_right hmem
    exact inhabits_unionOf hu (h.inner hty hv)
  | intersection hs hts =>
    apply inhabits_intersectionOf
    intro u hu
    obtain ⟨schema, hmem, hty⟩ := hts.exists_left hu
    exact h.inner hty (hk.allOf _ hs schema hmem)
  | structural hst => exact hst.inhabits h hk hallow

end ApiTypes.Compile.Typing
