import ApiTypes.TypeScript.Basic

namespace ApiTypes.TypeScript.TypeExpr

inductive Occurs (u : TypeExpr) : TypeExpr → Prop
  | self : Occurs u u
  | array {e : TypeExpr} (h : Occurs u e) : Occurs u (.array e)
  | tuple {t : TypeExpr} {ts : List TypeExpr} (ht : t ∈ ts) (h : Occurs u t) : Occurs u (.tuple ts)
  | union {t : TypeExpr} {ts : List TypeExpr} (ht : t ∈ ts) (h : Occurs u t) : Occurs u (.union ts)
  | intersection {t : TypeExpr} {ts : List TypeExpr} (ht : t ∈ ts) (h : Occurs u t) :
      Occurs u (.intersection ts)
  | member {m : Member TypeExpr} {ms : List (Member TypeExpr)} {index : Option TypeExpr}
      (hm : m ∈ ms) (h : Occurs u m.type) : Occurs u (.object ms index)
  | index {ms : List (Member TypeExpr)} {t : TypeExpr} (h : Occurs u t) :
      Occurs u (.object ms (some t))

/-- Induction on the types inside a type. -/
theorem induction {P : TypeExpr → Prop} (keyword : ∀ k, P (.keyword k))
    (literal : ∀ l, P (.literal l)) (named : ∀ n, P (.named n))
    (array : ∀ e, P e → P (.array e)) (tuple : ∀ ts, (∀ t ∈ ts, P t) → P (.tuple ts))
    (union : ∀ ts, (∀ t ∈ ts, P t) → P (.union ts))
    (intersection : ∀ ts, (∀ t ∈ ts, P t) → P (.intersection ts))
    (object : ∀ (ms : List (Member TypeExpr)) (index : Option TypeExpr), (∀ m ∈ ms, P m.type) →
      (∀ t, index = some t → P t) → P (.object ms index)) (t : TypeExpr) : P t := by
  -- on the size, because types stand in lists and in members
  have ih : ∀ u, sizeOf u < sizeOf t → P u := fun u _ =>
    induction keyword literal named array tuple union intersection object u
  cases t with
  | keyword k => exact keyword k
  | literal l => exact literal l
  | named n => exact named n
  | array e => exact array e (ih e (by simp))
  | tuple ts =>
    refine tuple ts fun t ht => ih t ?_
    have := List.sizeOf_lt_of_mem ht
    simp only [TypeExpr.tuple.sizeOf_spec]
    omega
  | union ts =>
    refine union ts fun t ht => ih t ?_
    have := List.sizeOf_lt_of_mem ht
    simp only [TypeExpr.union.sizeOf_spec]
    omega
  | intersection ts =>
    refine intersection ts fun t ht => ih t ?_
    have := List.sizeOf_lt_of_mem ht
    simp only [TypeExpr.intersection.sizeOf_spec]
    omega
  | object ms index =>
    refine object ms index (fun m hm => ih m.type ?_) fun t ht => ih t ?_
    · have := List.sizeOf_lt_of_mem hm
      cases m
      simp only [Member.mk.sizeOf_spec, TypeExpr.object.sizeOf_spec] at this ⊢
      omega
    · subst ht
      simp
      omega
termination_by sizeOf t

def Mentions (t : TypeExpr) (n : String) : Prop :=
  Occurs (.named n) t

/-- A property of types that holds of a type made from types it holds of. -/
structure Compositional (P : TypeExpr → Prop) : Prop where
  keyword : ∀ k, P (.keyword k)
  literal : ∀ l, P (.literal l)
  array : ∀ {e}, P e → P (.array e)
  tuple : ∀ {ts}, (∀ t ∈ ts, P t) → P (.tuple ts)
  unionOf : ∀ {ts}, (∀ t ∈ ts, P t) → P (.unionOf ts)
  intersectionOf : ∀ {ts}, (∀ t ∈ ts, P t) → P (.intersectionOf ts)
  object : ∀ {ms : List (Member TypeExpr)} {index}, (∀ m ∈ ms, P m.type) →
    (∀ t, index = some t → P t) → P (.object ms index)

theorem mentions_of_alternative {t u : TypeExpr} {n : String} (hu : u ∈ t.alternatives)
    (h : u.Mentions n) : t.Mentions n := by
  unfold alternatives at hu
  split at hu
  · exact .union hu h
  · obtain rfl := List.mem_singleton.1 hu
    exact h

theorem exists_mentions_of_unionOf {ts : List TypeExpr} {n : String}
    (h : (unionOf ts).Mentions n) : ∃ t ∈ ts, t.Mentions n := by
  -- a union of one type is that type, so there are three forms of the result
  have hall : ∃ u ∈ ts.flatMap alternatives, u.Mentions n := by
    unfold unionOf at h
    split at h
    · cases h
    · next t ht => exact ⟨t, by simp [ht], h⟩
    · cases h with
      | union hu h => exact ⟨_, hu, h⟩
  obtain ⟨u, hu, hn⟩ := hall
  obtain ⟨t, ht, hut⟩ := List.mem_flatMap.1 hu
  exact ⟨t, ht, mentions_of_alternative hut hn⟩

theorem exists_mentions_of_intersectionOf {ts : List TypeExpr} {n : String}
    (h : (intersectionOf ts).Mentions n) : ∃ t ∈ ts, t.Mentions n := by
  unfold intersectionOf at h
  split at h
  · cases h
  · exact ⟨_, List.mem_singleton_self _, h⟩
  · cases h with
    | intersection ht h => exact ⟨_, ht, h⟩

/-- The names in a type that is made from others are names in those. -/
theorem compositional_mentions (p : String → Prop) :
    Compositional fun t => ∀ n, t.Mentions n → p n where
  keyword _ _ h := by cases h
  literal _ _ h := by cases h
  array he n h := by
    cases h with
    | array h => exact he n h
  tuple hts n h := by
    cases h with
    | tuple ht h => exact hts _ ht n h
  unionOf hts n h := by
    obtain ⟨t, ht, hn⟩ := exists_mentions_of_unionOf h
    exact hts t ht n hn
  intersectionOf hts n h := by
    obtain ⟨t, ht, hn⟩ := exists_mentions_of_intersectionOf h
    exact hts t ht n hn
  object hms hi n h := by
    cases h with
    | member hm h => exact hms _ hm n h
    | index h => exact hi _ rfl n h

def MentionsOnly (N : List String) (t : TypeExpr) : Prop :=
  ∀ n, t.Mentions n → n ∈ N

theorem compositional_mentionsOnly (N : List String) : Compositional (MentionsOnly N) :=
  compositional_mentions (· ∈ N)

theorem mentionsOnly_named {N : List String} {n : String} (h : n ∈ N) :
    MentionsOnly N (.named n) := by
  intro m hm
  cases hm
  exact h

theorem MentionsOnly.mono {N N' : List String} {t : TypeExpr} (h : MentionsOnly N t)
    (hN : N ⊆ N') : MentionsOnly N' t :=
  fun n hn => hN (h n hn)

end ApiTypes.TypeScript.TypeExpr
