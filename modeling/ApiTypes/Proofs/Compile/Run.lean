import ApiTypes.Compile.State
import Mathlib.Data.List.Forall2

namespace ApiTypes.Compile

open TypeScript

variable {α β : Type}

/-- From `s` the action answers in a state that meets `Q`, or it fails with an error that meets
`E`. -/
def Ends (a : Action α) (s : State) (Q : α → State → Prop) (E : Error → Prop) : Prop :=
  match a.run s with
  | (.ok x, s') => Q x s'
  | (.error e, _) => E e

section rules

variable {s : State} {Q : α → State → Prop} {E : Error → Prop}

theorem Ends.of_run {a : Action α} {x : α} {s' : State} (h : Ends a s Q E)
    (hrun : a.run s = (.ok x, s')) : Q x s' := by
  unfold Ends at h
  rw [hrun] at h
  exact h

theorem Ends.mono {a : Action α} {Q' : α → State → Prop} {E' : Error → Prop} (h : Ends a s Q E)
    (hQ : ∀ x s', Q x s' → Q' x s') (hE : ∀ e, E e → E' e) : Ends a s Q' E' := by
  unfold Ends at h ⊢
  split
  · next x s' hrun =>
    rw [hrun] at h
    exact hQ x s' h
  · next e s' hrun =>
    rw [hrun] at h
    exact hE e h

theorem Ends.imp {a : Action α} {Q' : α → State → Prop} (h : Ends a s Q E)
    (hQ : ∀ x s', Q x s' → Q' x s') : Ends a s Q' E :=
  h.mono hQ fun _ he => he

theorem Ends.and {a : Action α} {Q' : α → State → Prop} (h : Ends a s Q E) (h' : Ends a s Q' E) :
    Ends a s (fun x s' => Q x s' ∧ Q' x s') E := by
  unfold Ends at h h' ⊢
  split
  · next x s' hrun =>
    rw [hrun] at h h'
    exact ⟨h, h'⟩
  · next e s' hrun =>
    rw [hrun] at h
    exact h

@[simp] theorem ends_pure (x : α) : Ends (pure x) s Q E ↔ Q x s := Iff.rfl

@[simp] theorem ends_get {Q : State → State → Prop} : Ends get s Q E ↔ Q s s := Iff.rfl

@[simp] theorem ends_modify (f : State → State) {Q : PUnit → State → Prop} :
    Ends (modify f) s Q E ↔ Q ⟨⟩ (f s) := Iff.rfl

theorem run_bind_ok {a : Action β} {f : β → Action α} {x : β} {t : State}
    (h : a.run s = (.ok x, t)) : (a >>= f).run s = (f x).run t := by
  change (ExceptT.bindCont f (a.run s).1) (a.run s).2 = _
  rw [h]
  rfl

theorem run_bind_error {a : Action β} {f : β → Action α} {e : Error} {t : State}
    (h : a.run s = (.error e, t)) : (a >>= f).run s = (.error e, t) := by
  change (ExceptT.bindCont f (a.run s).1) (a.run s).2 = _
  rw [h]
  rfl

theorem exists_of_run_bind_ok {a : Action β} {f : β → Action α} {t : State} {y : α}
    (h : (a >>= f).run s = (.ok y, t)) :
    ∃ x s₁, a.run s = (.ok x, s₁) ∧ (f x).run s₁ = (.ok y, t) := by
  rcases ha : a.run s with ⟨e | x, s₁⟩
  · rw [run_bind_error ha] at h
    cases h
  · rw [run_bind_ok ha] at h
    exact ⟨x, s₁, rfl, h⟩

@[simp] theorem ends_bind (a : Action β) (f : β → Action α) :
    Ends (a >>= f) s Q E ↔ Ends a s (fun x s' => Ends (f x) s' Q E) E := by
  -- where the first action fails, both fail with the same error
  unfold Ends
  rcases h : a.run s with ⟨e | x, s'⟩
  · rw [run_bind_error h]
  · rw [run_bind_ok h]

@[simp] theorem ends_inside (base : String) (a : Action α) :
    Ends (inside base a) s Q E ↔
      Ends a { s with bases := base :: s.bases }
        (fun x s' => Q x { s' with bases := s'.bases.tail }) E := by
  have hinside : ∀ r s', a.run { s with bases := base :: s.bases } = (r, s') →
      (inside base a).run s = (r, { s' with bases := s'.bases.tail }) := by
    intro r s' h
    exact congrArg (fun p : Except Error α × State => (p.1, { p.2 with bases := p.2.bases.tail })) h
  unfold Ends
  rcases h : a.run { s with bases := base :: s.bases } with ⟨_ | _, s'⟩ <;>
    rw [hinside _ s' h]

@[simp] theorem ends_uniqueName (hint : String) {Q : String → State → Prop} :
    Ends (uniqueName hint) s Q E ↔
      Q (freshName s.names (safeName hint))
        { s with names := freshName s.names (safeName hint) :: s.names } := Iff.rfl

@[simp] theorem ends_declare (name : String) (description : Option String)
    (type : Action TypeExpr) {Q : TypeExpr → State → Prop} :
    Ends (declare name description type) s Q E ↔
      Ends type { s with slots := s.slots ++ [none] }
        (fun t s' => Q (.named name)
          { s' with slots := s'.slots.set s.slots.length (some ⟨name, description, t⟩) }) E := by
  simp only [declare, ends_bind, ends_get, ends_modify, ends_pure]

end rules

/-- An invariant of states, what may become of a state, and what an action may fail with. -/
structure Discipline where
  inv : State → Prop
  grows : State → State → Prop
  error : Error → Prop
  refl : ∀ s, grows s s
  trans : ∀ {s s' s''}, grows s s' → grows s' s'' → grows s s''

namespace Discipline

variable (D : Discipline)

/-- The action keeps the discipline, and its answers meet `Q`. -/
def Keeps (a : Action α) (Q : α → State → Prop) : Prop :=
  ∀ s, D.inv s → Ends a s (fun x s' => D.inv s' ∧ D.grows s s' ∧ Q x s') D.error

def Stable (Q : α → State → Prop) : Prop :=
  ∀ x s s', D.grows s s' → Q x s → Q x s'

variable {D} {Q : α → State → Prop}

theorem Keeps.mono {a : Action α} {Q' : α → State → Prop} (h : D.Keeps a Q)
    (hQ : ∀ x s, D.inv s → Q x s → Q' x s) : D.Keeps a Q' := by
  intro s hs
  refine (h s hs).imp fun x s' hx => ?_
  exact ⟨hx.1, hx.2.1, hQ x s' hx.1 hx.2.2⟩

theorem keeps_pure {x : α} (h : ∀ s, D.inv s → Q x s) : D.Keeps (pure x) Q := by
  intro s hs
  exact ⟨hs, D.refl s, h s hs⟩

/-- What the first action answers is still true where the second one ends. -/
theorem keeps_bind {a : Action α} {f : α → Action β} {R : α → β → State → Prop}
    (hQ : D.Stable Q) (ha : D.Keeps a Q) (hf : ∀ x, D.Keeps (f x) (R x)) :
    D.Keeps (a >>= f) fun y s => ∃ x, Q x s ∧ R x y s := by
  intro s hs
  rw [ends_bind]
  refine (ha s hs).imp fun x s₁ h₁ => ?_
  obtain ⟨hs₁, hg₁, hx⟩ := h₁
  refine (hf x s₁ hs₁).imp fun y s₂ h₂ => ?_
  exact ⟨h₂.1, D.trans hg₁ h₂.2.1, x, hQ x s₁ s₂ h₂.2.1 hx, h₂.2.2⟩

theorem keeps_map {a : Action α} {f : α → β} (ha : D.Keeps a Q) :
    D.Keeps (do return f (← a)) fun y s => ∃ x, Q x s ∧ y = f x := by
  intro s hs
  rw [ends_bind]
  refine (ha s hs).imp fun x s₁ h₁ => ?_
  exact ⟨h₁.1, h₁.2.1, x, h₁.2.2, rfl⟩

theorem keeps_mapM {xs : List α} {f : α → Action β} {R : α → β → State → Prop}
    (hR : ∀ x, D.Stable (R x)) (hf : ∀ x ∈ xs, D.Keeps (f x) (R x)) :
    D.Keeps (xs.mapM f) fun ys s => List.Forall₂ (fun x y => R x y s) xs ys := by
  induction xs with
  | nil => exact keeps_pure fun _ _ => .nil
  | cons x xs ih =>
    rw [List.mapM_cons]
    refine (keeps_bind (hR x) (hf x List.mem_cons_self) fun y =>
      keeps_map (f := fun ys => y :: ys) (ih fun x' h => hf x' (List.mem_cons_of_mem x h))).mono ?_
    rintro _ s - ⟨y, hy, ys, hys, rfl⟩
    exact .cons hy hys

theorem keeps_forM {xs : List α} {f : α → Action PUnit}
    (hf : ∀ x ∈ xs, D.Keeps (f x) fun _ _ => True) : D.Keeps (xs.forM f) fun _ _ => True := by
  induction xs with
  | nil => exact keeps_pure fun _ _ => trivial
  | cons x xs ih =>
    have hrest := ih fun x' h => hf x' (List.mem_cons_of_mem x h)
    exact (keeps_bind (fun _ _ _ _ _ => trivial) (hf x List.mem_cons_self) fun _ => hrest).mono
      fun _ _ _ _ => trivial

end Discipline

end ApiTypes.Compile
