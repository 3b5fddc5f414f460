import ApiTypes.Compile.Schema
import ApiTypes.Proofs.Compile.Run
import ApiTypes.Proofs.Json.Respelled

namespace ApiTypes.Compile

open TypeScript Json

variable {α β : Type}

/-- Both actions answer the same, in states that `Q` relates, or both fail with the same error. -/
def Together (a : Action α) (s : State) (a' : Action α) (s' : State) (Q : State → State → Prop) :
    Prop :=
  match a.run s, a'.run s' with
  | (.ok x, t), (.ok x', t') => x = x' ∧ Q t t'
  | (.error e, _), (.error e', _) => e = e'
  | _, _ => False

section rules

variable {s s' : State} {P Q : State → State → Prop}

theorem Together.imp {a a' : Action α} (h : Together a s a' s' P)
    (hQ : ∀ t t', P t t' → Q t t') : Together a s a' s' Q := by
  unfold Together at h ⊢
  rcases ha : a.run s with ⟨e | x, t⟩ <;> rcases ha' : a'.run s' with ⟨e' | x', t'⟩ <;>
    rw [ha, ha'] at h
  · exact h
  · exact h
  · exact h
  · exact ⟨h.1, hQ t t' h.2⟩

theorem Together.bind {a a' : Action β} {f f' : β → Action α} (h : Together a s a' s' P)
    (hf : ∀ x t t', P t t' → Together (f x) t (f' x) t' Q) :
    Together (a >>= f) s (a' >>= f') s' Q := by
  unfold Together at h
  rcases ha : a.run s with ⟨e | x, t⟩ <;> rcases ha' : a'.run s' with ⟨e' | x', t'⟩ <;>
    rw [ha, ha'] at h
  · unfold Together
    rw [run_bind_error ha, run_bind_error ha']
    exact h
  · exact h.elim
  · exact h.elim
  · obtain ⟨rfl, hP⟩ := h
    unfold Together
    rw [run_bind_ok ha, run_bind_ok ha']
    exact hf x t t' hP

theorem Together.bind_of_run {a : Action β} {a' : Action β} {f f' : β → Action α} {x x' : β}
    {t t' : State} (h : a.run s = (.ok x, t)) (h' : a'.run s' = (.ok x', t'))
    (hf : Together (f x) t (f' x') t' Q) : Together (a >>= f) s (a' >>= f') s' Q := by
  unfold Together
  rw [run_bind_ok h, run_bind_ok h']
  exact hf

/-- Both actions declare the same under one name, in the same place. -/
theorem Together.declare {a a' : Action TypeExpr} (hplace : s.slots.length = s'.slots.length)
    (h : Together a { s with slots := s.slots ++ [none] } a'
      { s' with slots := s'.slots ++ [none] } P)
    (hQ : ∀ t t' d, P t t' → Q { t with slots := t.slots.set s.slots.length d }
      { t' with slots := t'.slots.set s.slots.length d })
    (name : String) (description : Option String) :
    Together (declare name description a) s (declare name description a') s' Q := by
  have hfill : ∀ place x t t', P t t' → place = s.slots.length →
      Together (do
          modify fun u =>
            { u with slots := u.slots.set s.slots.length (some ⟨name, description, x⟩) }
          return TypeExpr.named name) t
        (do
          modify fun u => { u with slots := u.slots.set place (some ⟨name, description, x⟩) }
          return TypeExpr.named name) t' Q := by
    rintro place x t t' hP rfl
    exact ⟨rfl, hQ t t' _ hP⟩
  exact h.bind fun x t t' hP => hfill _ x t t' hP hplace.symm

/-- The documents that an action is inside of when it compiles a target; the root is none. -/
def entered (base : String) (bases : List String) : List String :=
  if base = "" then bases else base :: bases

def left (base : String) (bases : List String) : List String :=
  if base = "" then bases else bases.tail

theorem left_entered (base : String) (bases : List String) :
    left base (entered base bases) = bases := by
  unfold left entered
  split <;> rfl

def within (base : String) (a : Action α) : Action α :=
  if base = "" then a else inside base a

theorem run_within (base : String) (a : Action α) (s : State) :
    (within base a).run s = ((a.run { s with bases := entered base s.bases }).1,
      { (a.run { s with bases := entered base s.bases }).2 with
        bases := left base (a.run { s with bases := entered base s.bases }).2.bases }) := by
  unfold within entered left
  split <;> rfl

/-- Each action is inside a document of its own. -/
theorem Together.within {a a' : Action α} (base base' : String)
    (h : Together a { s with bases := entered base s.bases } a'
      { s' with bases := entered base' s'.bases } fun t t' =>
        Q { t with bases := left base t.bases } { t' with bases := left base' t'.bases }) :
    Together (within base a) s (within base' a') s' Q := by
  unfold Together at h ⊢
  rw [run_within, run_within]
  revert h
  generalize a.run { s with bases := entered base s.bases } = r
  generalize a'.run { s' with bases := entered base' s'.bases } = r'
  obtain ⟨e | x, t⟩ := r <;> obtain ⟨e' | x', t'⟩ := r' <;> exact id

end rules

/-- From related states both actions come to related states with the same answer, or both fail with
the same error. -/
def Agree (S : State → State → Prop) (a a' : Action α) : Prop :=
  ∀ s s', S s s' → Together a s a' s' S

section agree

variable {S : State → State → Prop}

theorem agree_pure (x : α) : Agree S (pure x) (pure x) :=
  fun _ _ hs => ⟨rfl, hs⟩

theorem agree_throw (e : Error) : Agree S (throw e : Action α) (throw e) :=
  fun _ _ _ => rfl

theorem Agree.bind {a a' : Action β} {f f' : β → Action α} (h : Agree S a a')
    (hf : ∀ x, Agree S (f x) (f' x)) : Agree S (a >>= f) (a' >>= f') :=
  fun s s' hs => (h s s' hs).bind hf

theorem Agree.map {a a' : Action β} (h : Agree S a a') (f : β → α) :
    Agree S (do return f (← a)) (do return f (← a')) :=
  h.bind fun x => agree_pure (f x)

theorem agree_mapM {γ : Type} {R : β → γ → Prop} {xs : List β} {xs' : List γ}
    {f : β → Action α} {f' : γ → Action α} (hxs : List.Forall₂ R xs xs')
    (hf : ∀ x x', R x x' → Agree S (f x) (f' x')) : Agree S (xs.mapM f) (xs'.mapM f') := by
  induction hxs with
  | nil => exact agree_pure []
  | cons hx _ ih =>
    rw [List.mapM_cons, List.mapM_cons]
    exact (hf _ _ hx).bind fun y => ih.map fun ys => y :: ys

theorem agree_forM {xs : List β} {f f' : β → Action PUnit} (hf : ∀ x, Agree S (f x) (f' x)) :
    Agree S (xs.forM f) (xs.forM f') := by
  induction xs with
  | nil => exact agree_pure _
  | cons x xs ih => exact (hf x).bind fun _ => ih

end agree

/-- Respelled constants have the same type. -/
theorem literalType_eq {R : String → String → Prop} {j j' : Json} (h : Respelled R j j') :
    literalType j = literalType j' := by
  cases h <;> rfl

theorem map_literalType_eq {R : String → String → Prop} {values values' : List Json}
    (h : List.Forall₂ (Respelled R) values values') :
    values.map literalType = values'.map literalType := by
  induction h with
  | nil => rfl
  | cons hj _ ih => rw [List.map_cons, List.map_cons, literalType_eq hj, ih]

theorem propertyDescription?_eq {R : String → String → Prop} {j j' : Json} (h : Alike R j j') :
    propertyDescription? j = propertyDescription? j' := by
  unfold propertyDescription? description?
  rw [h.isSome_get?_eq "$ref", h.isSome_get?_eq "title", h.text?_eq (by decide)]

/-- Two layers stay in step where they go on: at references, at declarations and inside schemas
with `P`. -/
structure Layers (S : State → State → Prop) (R : String → String → Prop) (P : Json → Prop)
    (c c' : Context) (inner inner' : Json → Action TypeExpr) : Prop where
  options : c.options = c'.options
  inherited : Inherited P
  reference : ∀ r r', R r r' → Agree S (reference c inner r) (reference c' inner' r')
  titled : ∀ title description {a a' : Action TypeExpr}, Agree S a a' →
    Agree S (do let name ← uniqueName title; declare name description a)
      (do let name ← uniqueName title; declare name description a')
  inner : ∀ j j', P j → Alike R j j' → Agree S (inner j) (inner' j')

namespace Layers

variable {S : State → State → Prop} {R : String → String → Prop} {P : Json → Prop} {c c' : Context}
variable {inner inner' : Json → Action TypeExpr} (h : Layers S R P c c' inner inner')

include h

theorem agree_typeOf {j j' : Json} (hP : P j) (hj : Alike R j j') :
    Agree S (typeOf c inner j) (typeOf c' inner' j') := by
  have htitle : j.text? "title" = j'.text? "title" := hj.text?_eq (by decide)
  have hdescription : description? j = description? j' := hj.text?_eq (by decide)
  have href := hj.rel_ref?
  unfold typeOf
  rw [htitle, hdescription]
  revert href
  generalize j.text? "$ref" = o
  generalize j'.text? "$ref" = o'
  rintro (⟨hr⟩ | _)
  · exact h.reference _ _ hr
  · cases j'.text? "title" with
    | some title => exact h.titled title _ (h.inner j j' hP hj)
    | none => exact h.inner j j' hP hj

theorem agree_types {items items' : List Json} (hP : ∀ j ∈ items, P j)
    (hitems : List.Forall₂ (Respelled R) items items') :
    Agree S (items.mapM (typeOf c inner)) (items'.mapM (typeOf c' inner')) :=
  agree_mapM ((List.forall₂_and_left _ _).2 ⟨hP, hitems⟩) fun _ _ hj =>
    h.agree_typeOf hj.1 (.inl hj.2)

variable {members members' : List (String × Json)} (hm : RespelledMembers R members members')
variable (hparts : ∀ k, Part k (.object members) → P k)

omit h in
include hparts in
theorem part_of_get? {key : String} {j : Json} (hj : Table.get? key members = some j) : P j :=
  hparts j (.member (Table.mem_of_get? hj))

include hparts in
theorem part_of_items {key : String} {items : List Json}
    (hitems : Table.get? key members = some (.array items)) : ∀ j ∈ items, P j :=
  fun _ hj => h.inherited _ _ (part_of_get? hparts hitems) (.item hj)

include hparts in
theorem part_of_properties : ∀ p ∈ properties members, P p.2 :=
  h.inherited.of_members fun _ => part_of_get? hparts

include hm hparts

theorem agree_arrayType : Agree S (arrayType c inner members) (arrayType c' inner' members') := by
  have hitems := hm.rel_value? "items" (by decide)
  have hget : ∀ j, Table.get? "items" members = some j → P j := fun _ => part_of_get? hparts
  have hmem : ∀ items, Table.get? "items" members = some (.array items) → ∀ j ∈ items, P j :=
    fun _ => h.part_of_items hparts
  unfold arrayType
  -- the members matter only by their `items`
  revert hitems hget hmem
  generalize Table.get? "items" members = o
  generalize Table.get? "items" members' = o'
  rintro (⟨hj⟩ | _) hget hmem
  · have htype := h.agree_typeOf (hget _ rfl) (.inl hj)
    cases hj with
    | array hs => exact (h.agree_types (hmem _ rfl) hs.forall₂).map TypeExpr.tuple
    | _ => exact htype.map TypeExpr.array
  · exact agree_pure _

theorem agree_additionalType :
    Agree S (additionalType c inner members) (additionalType c' inner' members') := by
  have hadditional := hm.rel_value? "additionalProperties" (by decide)
  have hget : ∀ j, Table.get? "additionalProperties" members = some j → P j :=
    fun _ => part_of_get? hparts
  unfold additionalType
  rw [h.options]
  revert hadditional hget
  generalize Table.get? "additionalProperties" members = o
  generalize Table.get? "additionalProperties" members' = o'
  rintro (⟨hj⟩ | _) hget
  · have htype := h.agree_typeOf (hget _ rfl) (.inl hj)
    cases hj with
    | bool b => exact agree_pure _
    | _ => exact htype.map some
  · exact agree_pure _

omit h hparts in
theorem requiredNames_eq : requiredNames members = requiredNames members' := by
  have hrequired := rel_array? (hm.rel_value? "required" (by decide))
  unfold requiredNames
  revert hrequired
  generalize (Table.get? "required" members).bind array? = o
  generalize (Table.get? "required" members').bind array? = o'
  rintro (⟨hs⟩ | _)
  · exact filterMap_string?_eq hs
  · rfl

omit h hparts in
theorem forall₂_properties :
    List.Forall₂ (fun p p' => p.1 = p'.1 ∧ Spelled R p.1 p.2 p'.2) (properties members)
      (properties members') := by
  have hproperties := rel_object? (hm.rel_value? "properties" (by decide))
  unfold properties
  revert hproperties
  generalize (Table.get? "properties" members).bind object? = o
  generalize (Table.get? "properties" members').bind object? = o'
  rintro (⟨hs⟩ | _)
  · exact hs.forall₂
  · exact .nil

theorem agree_objectType :
    Agree S (objectType c inner members) (objectType c' inner' members') := by
  unfold objectType
  dsimp only
  rw [h.options, requiredNames_eq hm]
  have hproperties := (List.forall₂_and_left _ _).2
    ⟨h.part_of_properties hparts, forall₂_properties hm⟩
  apply (agree_mapM hproperties ?_).bind
  · intro props
    exact (h.agree_additionalType hm hparts).map _
  · rintro ⟨name, j⟩ ⟨name', j'⟩ ⟨hP, hname, hj⟩
    obtain rfl : name = name' := hname
    dsimp only
    rw [propertyDescription?_eq hj.alike]
    exact (h.agree_typeOf hP hj.alike).map fun t => _

theorem agree_namedType (name : String) :
    Agree S (namedType c inner members name) (namedType c' inner' members' name) := by
  unfold namedType
  split
  · exact agree_pure _
  · exact agree_pure _
  · exact agree_pure _
  · exact agree_pure _
  · exact agree_pure _
  · exact h.agree_arrayType hm hparts
  · exact h.agree_objectType hm hparts
  · exact agree_pure _

/-- The type of a schema whose `type` says nothing. -/
theorem agree_structuralType :
    Agree S (structuralType c inner members) (structuralType c' inner' members') := by
  have htype := hm.rel_value? "type" (by decide)
  -- without a `type` it depends on the keys that are there, which are the same
  have hkeys : Agree S
      (if Table.contains "properties" members ∨ Table.contains "additionalProperties" members then
        objectType c inner members
      else if Table.contains "items" members then arrayType c inner members
      else return .keyword .unknown)
      (if Table.contains "properties" members' ∨ Table.contains "additionalProperties" members' then
        objectType c' inner' members'
      else if Table.contains "items" members' then arrayType c' inner' members'
      else return .keyword .unknown) := by
    rw [hm.contains_eq "properties", hm.contains_eq "additionalProperties", hm.contains_eq "items"]
    split
    · exact h.agree_objectType hm hparts
    · split
      · exact h.agree_arrayType hm hparts
      · exact agree_pure _
  unfold structuralType
  revert htype
  generalize Table.get? "type" members = o
  generalize Table.get? "type" members' = o'
  rintro (⟨hj⟩ | _)
  · cases hj with
    | string name => exact h.agree_namedType hm hparts name
    | array hs =>
      dsimp only
      rw [filterMap_string?_eq hs.forall₂]
      have hnames : ∀ names : List String, List.Forall₂ (· = ·) names names := fun names =>
        List.forall₂_same.2 fun _ _ => rfl
      apply Agree.map
      apply agree_mapM (hnames _)
      rintro name _ rfl
      exact h.agree_namedType hm hparts name
    | _ => exact hkeys
  · exact hkeys

theorem agree_memberType :
    Agree S (memberType c inner members) (memberType c' inner' members') := by
  have href := hm.rel_ref?
  have hconst := hm.rel_value? "const" (by decide)
  have henum := rel_array? (hm.rel_value? "enum" (by decide))
  have hunion := rel_array? ((hm.rel_value? "oneOf" (by decide)).or
    (hm.rel_value? "anyOf" (by decide)))
  have hall := rel_array? (hm.rel_value? "allOf" (by decide))
  have hinUnion : ∀ schemas, ((Table.get? "oneOf" members).or (Table.get? "anyOf" members)).bind
      array? = some schemas → ∀ j ∈ schemas, P j := by
    intro schemas hs
    obtain ho | ⟨-, ha⟩ := Option.or_eq_some_iff.1 (Json.eq_array hs)
    · exact h.part_of_items hparts ho
    · exact h.part_of_items hparts ha
  have hinAll : ∀ schemas, (Table.get? "allOf" members).bind array? = some schemas →
      ∀ j ∈ schemas, P j :=
    fun _ hs => h.part_of_items hparts (Json.eq_array hs)
  unfold memberType
  revert href hconst henum hunion hall hinUnion hinAll
  generalize (Table.get? "$ref" members).bind string? = ref
  generalize (Table.get? "$ref" members').bind string? = ref'
  generalize Table.get? "const" members = const
  generalize Table.get? "const" members' = const'
  generalize (Table.get? "enum" members).bind array? = enum
  generalize (Table.get? "enum" members').bind array? = enum'
  generalize ((Table.get? "oneOf" members).or (Table.get? "anyOf" members)).bind array? = union
  generalize ((Table.get? "oneOf" members').or (Table.get? "anyOf" members')).bind array? = union'
  generalize (Table.get? "allOf" members).bind array? = all
  generalize (Table.get? "allOf" members').bind array? = all'
  -- the first keyword that is there decides, and it is there in both schemas
  rintro (⟨hr⟩ | _) hconst henum hunion hall hinUnion hinAll
  · exact h.reference _ _ hr
  rcases hconst with ⟨hj⟩ | _
  · dsimp only
    rw [literalType_eq hj]
    exact agree_pure _
  rcases henum with ⟨hs⟩ | _
  · dsimp only
    rw [map_literalType_eq hs]
    exact agree_pure _
  rcases hunion with ⟨hs⟩ | _
  · exact (h.agree_types (hinUnion _ rfl) hs).map _
  rcases hall with ⟨hs⟩ | _
  · exact (h.agree_types (hinAll _ rfl) hs).map _
  · exact h.agree_structuralType hm hparts

omit hm hparts in
/-- A layer over respelled schemas stays in step. -/
theorem agree_schemaType {j j' : Json} (hparts : ∀ k, Part k j → P k) (hj : Alike R j j') :
    Agree S (schemaType c inner j) (schemaType c' inner' j') := by
  rcases hj with hj | ⟨s, s', rfl, rfl⟩
  · cases hj with
    | object hs => exact h.agree_memberType hs hparts
    | bool b => cases b <;> exact agree_pure _
    | _ => exact agree_pure _
  · exact agree_pure _

end Layers

end ApiTypes.Compile
