import ApiTypes.Proofs.Compile.Closed
import ApiTypes.Proofs.TypeScript.Grammar

namespace ApiTypes

open TypeScript

namespace TypeScript.TypeExpr

/-- A union has at least two members and none that is a union; an intersection has at least two. -/
def Joins : TypeExpr → Prop
  | .union ms => 2 ≤ ms.length ∧ ∀ m ∈ ms, m.isUnion = false
  | .intersection ms => 2 ≤ ms.length
  | _ => True

def Flat (t : TypeExpr) : Prop :=
  ∀ u, Occurs u t → u.Joins

section flat

variable {t u : TypeExpr} {ts : List TypeExpr}

theorem flat_keyword (k : Keyword) : (keyword k).Flat := by
  rintro _ ⟨⟩
  trivial

theorem two_le_length {α : Type} {xs : List α} (hnil : xs ≠ []) (hone : ∀ x, xs ≠ [x]) :
    2 ≤ xs.length := by
  match xs with
  | [] => exact absurd rfl hnil
  | [x] => exact absurd rfl (hone x)
  | _ :: _ :: _ => simp

theorem flat_named (n : String) : (named n).Flat := by
  rintro _ ⟨⟩
  trivial

/-- The alternatives of a flat type are no unions. -/
theorem Flat.alternative (h : t.Flat) (hu : u ∈ t.alternatives) : u.Flat ∧ u.isUnion = false := by
  cases t with
  | union ms => exact ⟨fun v hv => h v (.union hu hv), (h _ .self).2 u hu⟩
  | _ =>
    obtain rfl := List.mem_singleton.1 hu
    exact ⟨h, rfl⟩

/-- One level is all that has to be taken out of unions, because their own members are no unions. -/
theorem flat_unionOf (h : ∀ t ∈ ts, t.Flat) : (unionOf ts).Flat := by
  have hall : ∀ u ∈ ts.flatMap alternatives, u.Flat ∧ u.isUnion = false := by
    intro u hu
    obtain ⟨t, ht, hut⟩ := List.mem_flatMap.1 hu
    exact (h t ht).alternative hut
  unfold unionOf
  split
  · exact flat_keyword .never
  · next t ht => exact (hall t (by simp [ht])).1
  · next hnil hone =>
    intro u hu
    cases hu with
    | self => exact ⟨two_le_length hnil hone, fun m hm => (hall m hm).2⟩
    | union hm hu => exact (hall _ hm).1 u hu

theorem flat_intersectionOf (h : ∀ t ∈ ts, t.Flat) : (intersectionOf ts).Flat := by
  unfold intersectionOf
  split
  · exact flat_keyword .unknown
  · next t => exact h t (List.mem_singleton_self t)
  · next hnil hone =>
    intro u hu
    cases hu with
    | self => exact two_le_length hnil hone
    | intersection hm hu => exact h _ hm u hu

theorem compositional_flat : Compositional Flat where
  keyword := flat_keyword
  literal _ := by
    rintro _ ⟨⟩
    trivial
  array he := by
    intro u hu
    cases hu with
    | self => trivial
    | array hu => exact he u hu
  tuple hts := by
    intro u hu
    cases hu with
    | self => trivial
    | tuple ht hu => exact hts _ ht u hu
  unionOf := flat_unionOf
  intersectionOf := flat_intersectionOf
  object hms hi := by
    intro u hu
    cases hu with
    | self => trivial
    | member hm hu => exact hms _ hm u hu
    | index hu => exact hi _ rfl u hu

end flat

end TypeScript.TypeExpr

namespace Compile

def forming (Q : TypeExpr → Prop) : Discipline where
  inv s := (∀ e ∈ s.refs, Q (.named e.2)) ∧ ∀ d, some d ∈ s.slots → Q d.type
  grows _ _ := True
  error _ := True
  refl _ := trivial
  trans _ _ := trivial

section steps

variable {c : Context} {inner : Json → Action TypeExpr} {Q : TypeExpr → Prop}

theorem ends_declare_forming {s : State} {name : String} (description : Option String)
    {type : Action TypeExpr} (hname : Q (.named name))
    (htype : (forming Q).Keeps type fun t _ => Q t) (hs : (forming Q).inv s) :
    Ends (declare name description type) s (fun t s' => (forming Q).inv s' ∧ True ∧ Q t)
      fun _ => True := by
  have hopened : (forming Q).inv { s with slots := s.slots ++ [none] } := by
    refine ⟨hs.1, fun d hd => hs.2 d ?_⟩
    simpa using hd
  rw [ends_declare]
  refine (htype _ hopened).imp ?_
  rintro t s' ⟨hs', -, ht⟩
  refine ⟨⟨hs'.1, fun d hd => ?_⟩, trivial, hname⟩
  obtain hd | hd := List.mem_or_eq_of_mem_set hd
  · exact hs'.2 d hd
  · obtain rfl := Option.some.inj hd
    exact ht

variable (hnamed : ∀ n, safeName n = n → Q (.named n))

include hnamed

theorem keeps_reference_forming (hinner : ∀ schema, (forming Q).Keeps (inner schema) fun t _ => Q t)
    (ref : String) : (forming Q).Keeps (reference c inner ref) fun t _ => Q t := by
  intro s hs
  refine ends_reference ref (fun _ _ _ h => h) (fun e he => ⟨hs, trivial, hs.1 e he⟩)
    fun base pointer => ends_target fun schema documents name refs bases hname hrefs => ?_
  have hnew : Q (.named name) := hname ▸ hnamed _ (safeName_freshName s.names _)
  have hall : ∀ e ∈ refs ++ s.refs, Q (.named e.2) := by
    intro e he
    obtain he | he := List.mem_append.1 he
    · rwa [hrefs e he]
    · exact hs.1 e he
  exact ⟨ends_declare_forming _ hnew (hinner schema) ⟨hall, hs.2⟩,
    fun _ => ⟨⟨hall, hs.2⟩, trivial, hnew⟩⟩

theorem keeps_typeOf_forming (hinner : ∀ schema, (forming Q).Keeps (inner schema) fun t _ => Q t)
    (schema : Json) : (forming Q).Keeps (typeOf c inner schema) fun t _ => Q t := by
  unfold typeOf
  split
  · exact keeps_reference_forming hnamed hinner _
  · next title _ _ =>
    intro s hs
    simp only [ends_bind, ends_uniqueName]
    have hname := hnamed _ (safeName_freshName s.names title)
    exact ends_declare_forming _ hname (hinner schema) hs
  · exact hinner schema

variable (hQ : TypeExpr.Compositional Q)

include hQ

theorem keeps_bodyType_forming (bound : Nat) (schema : Json) :
    (forming Q).Keeps (bodyType c bound schema) fun t _ => Q t := by
  -- the typing says nothing of schemas, only that every type in it has `Q`
  let typing : TypingAt := fun _ => ⟨fun _ => Q, fun _ => Q⟩
  have hstep : ∀ inner : Json → Action TypeExpr, (∀ schema, True →
      (forming Q).Keeps (inner schema) fun t s => (typing s).OfSchema c schema t) →
      (forming Q).Types typing (fun _ => True) c inner := by
    intro inner hinner
    have hformed : ∀ schema, (forming Q).Keeps (inner schema) fun t _ => Q t := fun schema =>
      (hinner schema trivial).mono fun t s _ ht => ht.compositional hQ (fun h => h) fun h => h
    exact
      { inherited := fun _ _ _ _ => trivial
        sub := fun _ _ _ => ⟨fun h => h, fun h => h⟩
        typeOf := fun schema _ => keeps_typeOf_forming hnamed hformed schema
        reference := fun _ ref _ _ => keeps_reference_forming hnamed hformed ref }
  refine (Discipline.keeps_bodyType trivial hstep bound schema trivial).mono fun t s _ ht => ?_
  exact ht.compositional hQ (fun h => h) fun h => h

theorem ends_program_forming (name : String) :
    Ends (program c name) State.empty (fun _ s => (forming Q).inv s) fun _ => True := by
  have hbody := keeps_bodyType_forming (c := c) hnamed hQ c.bound
  have hname := hnamed _ (safeName_freshName [] name)
  have hempty : (forming Q).inv { State.empty with
      names := [freshName [] (safeName name)]
      refs := [(targetKey "" "", freshName [] (safeName name))] } := by
    refine ⟨fun e he => ?_, fun d hd => nomatch hd⟩
    obtain rfl := List.mem_singleton.1 he
    exact hname
  unfold program root
  simp only [ends_bind, ends_uniqueName, ends_modify]
  refine (ends_declare_forming _ hname (hbody c.root) hempty).imp ?_
  rintro _ s ⟨hs, -⟩
  split
  · have hall : (forming Q).Keeps (allDefinitions c) fun _ _ => True := by
      refine Discipline.keeps_forM fun id _ => ?_
      exact (Discipline.keeps_map (keeps_reference_forming hnamed hbody _)).mono
        fun _ _ _ _ => trivial
    exact (hall s hs).imp fun _ _ h => h.1
  · exact hs

/-- What types have as soon as their parts have it, every declared type has. -/
theorem forall_declarations {name : String} {ds : List Declaration}
    (h : declarations c name = .ok ds) : ∀ d ∈ ds, Q d.type := by
  obtain ⟨s, bare, hrun, -, hadds⟩ := exists_adds_of_declarations h
  have hs := (ends_program_forming hnamed hQ name).of_run hrun
  intro d hd
  refine hs.2 d ?_
  rw [hadds.slots]
  simpa [State.empty] using hd

end steps

/-- Declared types are flat: no union that occurs in one at any depth has a union as a member, and
unions and intersections have at least two members. -/
theorem declarations_join (workDir : String) (options : Options) (schema : Json) (name : String)
    {ds : List Declaration} (h : declarations (.of workDir options schema) name = .ok ds) :
    ∀ d ∈ ds, ∀ t, TypeExpr.Occurs t d.type → t.Joins :=
  forall_declarations (fun n _ => TypeExpr.flat_named n) TypeExpr.compositional_flat h

def strict : Options :=
  { Options.default with strictIndexSignatures := true }

def alternating : Json :=
  .object [("oneOf", .array [
    .object [("anyOf", .array [
      .object [("type", .array [.string "string", .string "null"])],
      .object [("enum", .array [.string "a"])]])],
    .object [("items", .array [
      .object [("enum", .array [.string "b", .bool true])],
      .object [("allOf", .array [
        .object [("$ref", .string "#")],
        .object [("additionalProperties",
          .object [("type", .array [.string "string", .string "number"])])]])]])],
    .object [("allOf", .array [
      .object [("oneOf", .array [.object [("type", .string "number")], .bool false])]])]])]

def alternatingText : String :=
  "string | null | \"a\" | [\"b\" | true, Root & \x7b\n" ++
    "  [k: string]: string | number | undefined;\n\x7d] | number | never"

theorem declarations_join_alternating :
    ∃ ds, declarations (.of "/app" strict alternating) "Root" = .ok ds ∧
      ds.map (fun d => String.ofList (d.type.textAt 0)) = [alternatingText] ∧
      ∀ d ∈ ds, ∀ t, TypeExpr.Occurs t d.type → t.Joins := by
  have htexts : ((declarations (.of "/app" strict alternating) "Root").map
      (List.map fun d => String.ofList (d.type.textAt 0))).toOption = some [alternatingText] := by
    decide
  cases h : declarations (.of "/app" strict alternating) "Root" with
  | error e =>
    rw [h] at htexts
    cases htexts
  | ok ds =>
    rw [h] at htexts
    exact ⟨ds, rfl, Option.some.inj htexts,
      declarations_join "/app" strict alternating "Root" h⟩

variable {c : Context} {name : String} {ds : List Declaration}

/-- Declared types are normal as far as they have no real numbers in them. -/
theorem normal_of_declarations (h : declarations c name = .ok ds) :
    ∀ d ∈ ds, (∀ x, ¬ TypeExpr.Occurs (.literal (.real x)) d.type) → d.type.Normal := by
  have hflat : ∀ d ∈ ds, d.type.Flat :=
    forall_declarations (fun n _ => TypeExpr.flat_named n) TypeExpr.compositional_flat h
  have hnames : ∀ d ∈ ds, ∀ n, d.type.Mentions n → safeName n = n := by
    refine forall_declarations (fun n hn => ?_)
      (TypeExpr.compositional_mentions fun n => safeName n = n) h
    rintro _ ⟨⟩
    exact hn
  intro d hd hreal
  exact
    { real := hreal
      union := fun ms hms => hflat d hd (.union ms) hms
      intersection := fun ms hms => hflat d hd (.intersection ms) hms
      names := fun n hn => ⟨n, (hnames d hd n hn).symm⟩ }

end Compile

end ApiTypes
