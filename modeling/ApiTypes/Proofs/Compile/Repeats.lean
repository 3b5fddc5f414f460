import ApiTypes.Proofs.Compile.Record
import ApiTypes.Proofs.Compile.Scope

namespace ApiTypes.Compile

open TypeScript

/-- The same schema, as far as a compilation can tell. -/
structure ReadAlike (j j' : Json) : Prop where
  title : j.text? "title" = j'.text? "title"
  description : description? j = description? j'
  type : ∀ (c : Context) (inner : Json → Action TypeExpr),
    schemaType c inner j = schemaType c inner j'

theorem ReadAlike.refl (j : Json) : ReadAlike j j :=
  ⟨rfl, rfl, fun _ _ => rfl⟩

/-- The contexts are the same but for the roots, and what is in the first root reads alike in the
second one, unless its pointer is set apart. -/
structure Context.Covers (c c' : Context) (apart : List String) : Prop where
  options : c'.options = c.options
  cwd : c'.cwd = c.cwd
  definitions : c'.definitions? = c.definitions?
  resolve : ∀ pointer ∉ apart, ∀ j, Json.Pointer.resolve? pointer c.root = some j →
    ∃ j', Json.Pointer.resolve? pointer c'.root = some j' ∧ ReadAlike j j'

/-- No target in the root at one of these pointers is met. -/
def Spared (apart : List String) (s t : State) : Prop :=
  ∀ pointer ∈ apart, Table.contains (targetKey "" pointer) t.refs →
    Table.contains (targetKey "" pointer) s.refs

/-- Where the first action succeeds it forgets no target, and the second one does the same unless
a target that is set apart is met. -/
def Repeats {α : Type} (apart : List String) (a a' : Action α) : Prop :=
  ∀ s x t, a.run s = (.ok x, t) →
    (∀ key, Table.contains key s.refs → Table.contains key t.refs) ∧
      (Spared apart s t → a'.run s = (.ok x, t))

section rules

variable {α β : Type} {apart : List String}

theorem Repeats.bind {a a' : Action β} {f f' : β → Action α} (h : Repeats apart a a')
    (hf : ∀ x, Repeats apart (f x) (f' x)) : Repeats apart (a >>= f) (a' >>= f') := by
  intro s y u hrun
  obtain ⟨x, t, ha, hx⟩ := exists_of_run_bind_ok hrun
  obtain ⟨hkeeps, hsame⟩ := h s x t ha
  obtain ⟨hkeeps', hsame'⟩ := hf x t y u hx
  refine ⟨fun key hkey => hkeeps' key (hkeeps key hkey), fun hspared => ?_⟩
  have hfirst : Spared apart s t := fun p hp hkey => hspared p hp (hkeeps' _ hkey)
  have hsecond : Spared apart t u := fun p hp hkey => hkeeps _ (hspared p hp hkey)
  rw [run_bind_ok (hsame hfirst)]
  exact hsame' hsecond

/-- The same action, if it forgets no target. -/
theorem repeats_self {a : Action α}
    (h : ∀ s key, Table.contains key s.refs → Table.contains key (a.run s).2.refs) :
    Repeats apart a a := by
  intro s x t hrun
  refine ⟨fun key hkey => ?_, fun _ => hrun⟩
  have ht := h s key hkey
  rwa [hrun] at ht

theorem repeats_pure (x : α) : Repeats apart (pure x) (pure x) :=
  repeats_self fun _ _ h => h

def repeating (apart : List String) : Simulation Action Action where
  Rel := Repeats apart
  rel_pure := repeats_pure
  rel_bind := Repeats.bind

theorem Repeats.declare {a a' : Action TypeExpr} (h : Repeats apart a a') (name : String)
    (description : Option String) :
    Repeats apart (declare name description a) (declare name description a') := by
  have hget : Repeats apart (get : Action State) get := repeats_self fun _ _ h => h
  have hmodify : ∀ f : State → State, (∀ s, (f s).refs = s.refs) →
      Repeats apart (modify f : Action PUnit) (modify f) := by
    intro f hf
    refine repeats_self fun s key hkey => ?_
    show Table.contains key (f s).refs = true
    rwa [hf]
  refine hget.bind fun s => Repeats.bind (hmodify _ fun _ => rfl) fun _ => h.bind fun t => ?_
  exact Repeats.bind (hmodify _ fun _ => rfl) fun _ => repeats_pure _

theorem Repeats.within {a a' : Action α} (h : Repeats apart a a') (base : String) :
    Repeats apart (within base a) (within base a') := by
  intro s x t hrun
  rw [run_within] at hrun
  rcases ha : a.run { s with bases := entered base s.bases } with ⟨r, t'⟩
  rw [ha] at hrun
  obtain ⟨rfl, rfl⟩ := Prod.mk.inj hrun
  obtain ⟨hkeeps, hsame⟩ := h _ x t' ha
  refine ⟨hkeeps, fun hspared => ?_⟩
  rw [run_within, hsame hspared]

end rules

section layers

variable {c c' : Context} {apart : List String} (h : c.Covers c' apart)

include h

theorem Context.Covers.url_eq (id : String) : c'.url id = c.url id := by
  unfold Context.url
  rw [h.cwd]

theorem Context.Covers.address_eq (bases : List String) (ref : String) :
    c'.address bases ref = c.address bases ref := by
  unfold Context.address Context.base
  rw [h.url_eq]

theorem Context.Covers.aliasKey?_eq (base pointer : String) :
    c'.aliasKey? base pointer = c.aliasKey? base pointer := by
  have hurl : c'.url = c.url := funext h.url_eq
  unfold Context.aliasKey? Context.definitionId?
  rw [h.definitions, hurl]

/-- What is found without a pointer that is set apart reads alike. -/
theorem Context.Covers.exists_run_target {base pointer : String} {j : Json} {s t : State}
    (hapart : ¬ (base = "" ∧ pointer ∈ apart))
    (hrun : (target c base pointer).run s = (.ok j, t)) :
    ∃ j', (target c' base pointer).run s = (.ok j', t) ∧ ReadAlike j j' := by
  -- only a document that is the root can differ
  by_cases hbase : base = ""
  · subst hbase
    rw [run_target_root, part_root] at hrun
    cases hresolve : Json.Pointer.resolve? pointer c.root with
    | none =>
      rw [hresolve] at hrun
      cases hrun
    | some k =>
      rw [hresolve] at hrun
      obtain ⟨hk, rfl⟩ := Prod.mk.inj hrun
      obtain rfl := Except.ok.inj hk
      obtain ⟨j', hj', halike⟩ := h.resolve pointer (fun hmem => hapart ⟨rfl, hmem⟩) k hresolve
      exact ⟨j', by rw [run_target_root, part_root, hj'], halike⟩
  · have hdocument : document c' base = document c base := by
      unfold document
      rw [if_neg hbase, if_neg hbase, h.options]
    have htarget : target c' base pointer = target c base pointer := by
      unfold target
      rw [hdocument]
    exact ⟨j, htarget ▸ hrun, .refl j⟩

variable {inner inner' : Json → Action TypeExpr}
  (hinner : ∀ j j', ReadAlike j j' → Repeats apart (inner j) (inner' j'))

include hinner

theorem repeats_declaredTarget {j j' : Json} (halike : ReadAlike j j') (base name : String) :
    Repeats apart (declaredTarget c inner base name j) (declaredTarget c' inner' base name j') := by
  unfold declaredTarget
  rw [h.options, ← halike.description]
  split
  · exact ((hinner j j' halike).declare name _).within base
  · exact repeats_pure _

/-- A target that is met for the first time gets the same name and is declared under it. -/
theorem repeats_firstTarget {base pointer : String} {s t : State} {x : TypeExpr}
    (hnone : s.known? c base pointer = none)
    (hrun : (firstTarget c inner base pointer).run s = (.ok x, t)) :
    (∀ key, Table.contains key s.refs → Table.contains key t.refs) ∧
      (Spared apart s t → (firstTarget c' inner' base pointer).run s = (.ok x, t)) := by
  obtain ⟨found, documents, htarget⟩ := exists_run_target c base pointer s
  cases found with
  | error e =>
    unfold firstTarget at hrun
    rw [run_bind_error htarget] at hrun
    cases hrun
  | ok j =>
    rw [run_firstTarget htarget] at hrun
    by_cases hapart : base = "" ∧ pointer ∈ apart
    · -- the target itself is set apart and is met here, and it is not forgotten again
      obtain ⟨rfl, hmem⟩ := hapart
      obtain ⟨hkeeps, -⟩ := repeats_declaredTarget h hinner (.refl j) _ _ _ x t hrun
      refine ⟨fun key hkey => hkeeps key (contains_given_of_contains hkey), fun hspared => ?_⟩
      have hmet := hspared pointer hmem (hkeeps _ (contains_given ..))
      unfold Table.contains at hmet
      rw [(Option.or_eq_none_iff.1 hnone).1] at hmet
      cases hmet
    · obtain ⟨j', htarget', halike⟩ := h.exists_run_target hapart htarget
      obtain ⟨hkeeps, hsame⟩ := repeats_declaredTarget h hinner halike _ _ _ x t hrun
      refine ⟨fun key hkey => hkeeps key (contains_given_of_contains hkey), fun hspared => ?_⟩
      have hhint : nameHint j' base pointer = nameHint j base pointer := by
        unfold nameHint
        rw [halike.title]
      have hgiven : ∀ (s : State) name,
          s.given c' base pointer name = s.given c base pointer name := by
        intro s name
        unfold State.given
        rw [h.aliasKey?_eq]
      rw [run_firstTarget htarget', hhint, hgiven]
      exact hsame fun p hp hkey => contains_given_of_contains (hspared p hp hkey)

theorem repeats_reference (ref : String) :
    Repeats apart (reference c inner ref) (reference c' inner' ref) := by
  intro s x t hrun
  have hknown : ∀ base pointer, s.known? c' base pointer = s.known? c base pointer := by
    intro base pointer
    unfold State.known?
    rw [h.aliasKey?_eq]
  rw [run_reference_eq, run_namedTarget] at hrun
  rw [run_reference_eq, run_namedTarget, h.address_eq, hknown]
  -- both runs know the same names
  cases hname : s.known? c (c.address s.bases ref).1 (c.address s.bases ref).2 with
  | some name =>
    rw [hname] at hrun
    obtain ⟨-, rfl⟩ := Prod.mk.inj hrun
    exact ⟨fun _ hkey => hkey, fun _ => hrun⟩
  | none =>
    rw [hname] at hrun
    exact repeats_firstTarget h hinner hname hrun

theorem simulates_repeating :
    Simulates (repeating apart) (fun _ => True) (.of c inner) (.of c' inner') where
  inherited _ _ _ _ := trivial
  reference _ ref _ _ := repeats_reference h hinner ref
  titled title j _ := by
    have hname : Repeats apart (uniqueName title) (uniqueName title) := repeats_self fun _ _ h => h
    exact hname.bind fun name => (hinner j j (.refl j)).declare name _
  inner j _ := hinner j j (.refl j)

omit hinner in
theorem repeats_bodyType (bound : Nat) {j j' : Json} (halike : ReadAlike j j') :
    Repeats apart (bodyType c bound j) (bodyType c' bound j') := by
  -- on the bound, because what a schema leads to is compiled with one less
  induction bound generalizing j j' with
  | zero =>
    rintro s x t ⟨⟩
  | succ bound ih =>
    have hlayer :=
      (simulates_repeating h fun _ _ => ih).schemaType (o := c.options) (j := j) trivial
    unfold bodyType
    rw [← halike.type, ← Walk.schemaType_of, ← Walk.schemaType_of, h.options]
    exact hlayer

end layers

end ApiTypes.Compile
