import Mathlib.Data.List.Forall2

namespace Option.Rel

variable {α β γ δ : Type} {R : α → β → Prop} {S : γ → δ → Prop} {o : Option α} {o' : Option β}

theorem bind (h : Option.Rel R o o') {f : α → Option γ} {f' : β → Option δ}
    (hf : ∀ x y, R x y → Option.Rel S (f x) (f' y)) : Option.Rel S (o.bind f) (o'.bind f') := by
  cases h with
  | some hx => exact hf _ _ hx
  | none => exact .none

theorem imp {R' : α → β → Prop} (h : Option.Rel R o o') (hR : ∀ x y, R x y → R' x y) :
    Option.Rel R' o o' := by
  cases h with
  | some hx => exact .some (hR _ _ hx)
  | none => exact .none

theorem or {p : Option α} {p' : Option β} (h : Option.Rel R o o') (hp : Option.Rel R p p') :
    Option.Rel R (o.or p) (o'.or p') := by
  cases h with
  | some hx => exact .some hx
  | none => exact hp

theorem isSome_eq (h : Option.Rel R o o') : o.isSome = o'.isSome := by
  cases h <;> rfl

end Option.Rel

namespace List.Forall₂

variable {α β γ : Type} {R : α → β → Prop} {xs : List α} {ys : List β}

theorem exists_left (h : List.Forall₂ R xs ys) {y : β} (hy : y ∈ ys) : ∃ x ∈ xs, R x y := by
  obtain ⟨i, hi, rfl⟩ := List.mem_iff_getElem.1 hy
  have hx : i < xs.length := h.length_eq ▸ hi
  exact ⟨xs[i], List.getElem_mem hx, h.get hx hi⟩

theorem exists_right (h : List.Forall₂ R xs ys) {x : α} (hx : x ∈ xs) : ∃ y ∈ ys, R x y := by
  obtain ⟨i, hi, rfl⟩ := List.mem_iff_getElem.1 hx
  have hy : i < ys.length := h.length_eq ▸ hi
  exact ⟨ys[i], List.getElem_mem hy, h.get hi hy⟩

theorem getElem? (h : List.Forall₂ R xs ys) (i : Nat) : Option.Rel R xs[i]? ys[i]? := by
  induction h generalizing i with
  | nil => exact .none
  | cons hx _ ih =>
    cases i with
    | zero => exact .some hx
    | succ i => simpa only [List.getElem?_cons_succ] using ih i

theorem exists_append {xs' : List α} (h : List.Forall₂ R (xs ++ xs') ys) :
    ∃ us vs, ys = us ++ vs ∧ List.Forall₂ R xs us ∧ List.Forall₂ R xs' vs := by
  induction xs generalizing ys with
  | nil => exact ⟨[], ys, rfl, .nil, h⟩
  | cons x xs ih =>
    cases h with
    | cons hx htail =>
      obtain ⟨us, vs, rfl, hus, hvs⟩ := ih htail
      exact ⟨_ :: us, vs, rfl, .cons hx hus, hvs⟩

/-- Two lists related to one list are related by what the relations say together. -/
theorem join {S : α → γ → Prop} {U : β → γ → Prop} {zs : List γ} (h : List.Forall₂ R xs ys)
    (h' : List.Forall₂ S xs zs) (hU : ∀ x y z, R x y → S x z → U y z) : List.Forall₂ U ys zs := by
  have hlength : ys.length = zs.length := h.length_eq.symm.trans h'.length_eq
  refine List.forall₂_iff_get.2 ⟨hlength, fun i hy hz => ?_⟩
  have hx : i < xs.length := h.length_eq ▸ hy
  exact hU xs[i] _ _ (h.get hx hy) (h'.get hx hz)

theorem iff_forall {p : α → Prop} (h : List.Forall₂ (fun x y => R x y ↔ p x) xs ys) :
    List.Forall₂ R xs ys ↔ ∀ x ∈ xs, p x := by
  induction h with
  | nil => exact iff_of_true .nil (by simp)
  | cons hx _ ih => rw [List.forall₂_cons, List.forall_mem_cons, hx, ih]

end List.Forall₂

theorem List.forall₂_of_mapM_ok {α β ε : Type} {f : α → Except ε β} {xs : List α} {ys : List β}
    (h : xs.mapM f = .ok ys) : List.Forall₂ (fun x y => f x = .ok y) xs ys := by
  induction xs generalizing ys with
  | nil =>
    obtain rfl := Except.ok.inj h
    exact .nil
  | cons x xs ih =>
    rw [List.mapM_cons] at h
    cases hx : f x with
    | error e =>
      rw [hx] at h
      cases h
    | ok y =>
      cases hxs : xs.mapM f with
      | error e =>
        rw [hx, hxs] at h
        cases h
      | ok zs =>
        rw [hx, hxs] at h
        obtain rfl := Except.ok.inj h
        exact .cons hx (ih hxs)

theorem List.mapM_eq_some_iff {α β : Type} {f : α → Option β} {xs : List α} {ys : List β} :
    xs.mapM f = some ys ↔ List.Forall₂ (fun x y => f x = some y) xs ys := by
  induction xs generalizing ys with
  | nil =>
    rw [List.mapM_nil, List.forall₂_nil_left_iff, eq_comm (a := ys)]
    exact Option.some_inj
  | cons x xs ih =>
    rw [List.mapM_cons, List.forall₂_cons_left_iff]
    constructor
    · intro h
      obtain ⟨y, hy, h⟩ := Option.bind_eq_some_iff.1 h
      obtain ⟨ys, hys, h⟩ := Option.bind_eq_some_iff.1 h
      exact ⟨y, ys, hy, ih.1 hys, (Option.some.inj h).symm⟩
    · rintro ⟨y, ys, hy, hys, rfl⟩
      rw [hy, ih.2 hys]
      rfl

theorem List.exists_error_of_mapM {α β ε : Type} {f : α → Except ε β} {xs : List α} {e : ε}
    (h : xs.mapM f = .error e) : ∃ x ∈ xs, f x = .error e := by
  induction xs with
  | nil => cases h
  | cons x xs ih =>
    rw [List.mapM_cons] at h
    cases hx : f x with
    | error e' =>
      rw [hx] at h
      obtain rfl : e' = e := Except.error.inj h
      exact ⟨x, List.mem_cons_self, hx⟩
    | ok y =>
      cases hxs : xs.mapM f with
      | error e' =>
        rw [hx, hxs] at h
        obtain rfl : e' = e := Except.error.inj h
        obtain ⟨z, hz, hfz⟩ := ih hxs
        exact ⟨z, List.mem_cons_of_mem x hz, hfz⟩
      | ok ys =>
        rw [hx, hxs] at h
        cases h

theorem List.mapM_error_iff {α β ε : Type} {f : α → Except ε β} {xs : List α} :
    (∃ e, xs.mapM f = .error e) ↔ ∃ x ∈ xs, ∃ e, f x = .error e := by
  constructor
  · rintro ⟨e, h⟩
    obtain ⟨x, hx, hfx⟩ := List.exists_error_of_mapM h
    exact ⟨x, hx, e, hfx⟩
  · rintro ⟨x, hx, e, hfx⟩
    cases h : xs.mapM f with
    | error e' => exact ⟨e', rfl⟩
    | ok ys =>
      obtain ⟨y, -, hy⟩ := (List.forall₂_of_mapM_ok h).exists_right hx
      rw [hfx] at hy
      cases hy

theorem Except.map_error_iff {α β ε : Type} {f : α → β} {x : Except ε α} :
    (∃ e, x.map f = .error e) ↔ ∃ e, x = .error e := by
  cases x with
  | error e => exact ⟨fun _ => ⟨e, rfl⟩, fun _ => ⟨e, rfl⟩⟩
  | ok a => exact ⟨fun ⟨_, h⟩ => (by cases h), fun ⟨_, h⟩ => (by cases h)⟩

theorem Except.exists_of_map_ok {α β ε : Type} {f : α → β} {x : Except ε α} {b : β}
    (h : x.map f = .ok b) : ∃ a, x = .ok a ∧ f a = b := by
  cases x with
  | error e => cases h
  | ok a => exact ⟨a, rfl, Except.ok.inj h⟩

theorem Except.exists_of_isSome_toOption {α ε : Type} {x : Except ε α}
    (h : x.toOption.isSome = true) : ∃ a, x = .ok a := by
  cases x with
  | error e => cases h
  | ok a => exact ⟨a, rfl⟩

theorem List.length_le_flatMap {α β : Type} {xs : List α} {f : α → List β}
    (h : ∀ x ∈ xs, f x ≠ []) : xs.length ≤ (xs.flatMap f).length := by
  induction xs with
  | nil => simp
  | cons x xs ih =>
    have hx := List.length_pos_of_ne_nil (h x List.mem_cons_self)
    have hxs := ih fun y hy => h y (List.mem_cons_of_mem x hy)
    simp only [List.flatMap_cons, List.length_append, List.length_cons]
    omega

theorem List.mapM_congr_of_forall {α β : Type} {m : Type → Type} [Monad m] [LawfulMonad m]
    {f g : α → m β} {xs : List α} (h : ∀ x ∈ xs, f x = g x) : xs.mapM f = xs.mapM g := by
  induction xs with
  | nil => simp
  | cons x xs ih =>
    rw [List.mapM_cons, List.mapM_cons, h x List.mem_cons_self,
      ih fun y hy => h y (List.mem_cons_of_mem x hy)]

/-- Items that are made from others and from something that is there for each of them are made with
one function, if the keys of the others are different. -/
theorem List.exists_eq_map_of_forall₂ {α β γ κ : Type} [Inhabited γ] {key : α → κ} {g : α → γ → β}
    {P : α → γ → Prop} {xs : List α} {ys : List β} (hkeys : (xs.map key).Nodup)
    (h : List.Forall₂ (fun x y => ∃ z, y = g x z ∧ P x z) xs ys) :
    ∃ f : κ → γ, ys = xs.map (fun x => g x (f (key x))) ∧ ∀ x ∈ xs, P x (f (key x)) := by
  classical
  induction h with
  | nil => exact ⟨fun _ => default, rfl, by simp⟩
  | @cons x y xs ys hx _ ih =>
    obtain ⟨z, rfl, hz⟩ := hx
    obtain ⟨hkey, hkeys⟩ := List.nodup_cons.1 hkeys
    obtain ⟨f, rfl, hf⟩ := ih hkeys
    -- the function for the others does not matter at the new key
    have hother : ∀ x' ∈ xs, Function.update f (key x) z (key x') = f (key x') := by
      intro x' hx'
      have hne : key x' ≠ key x := fun he => hkey (he ▸ List.mem_map_of_mem hx')
      exact Function.update_of_ne hne z f
    refine ⟨Function.update f (key x) z, ?_, ?_⟩
    · rw [List.map_cons, Function.update_self]
      exact congrArg _ (List.map_congr_left fun x' hx' => by rw [hother x' hx'])
    · intro x' hx'
      obtain rfl | hx' := List.mem_cons.1 hx'
      · rwa [Function.update_self]
      · rw [hother x' hx']
        exact hf x' hx'

theorem List.countP_lt_countP {α : Type} {p q : α → Bool} {xs : List α} {x : α}
    (h : ∀ y ∈ xs, p y = true → q y = true) (hx : x ∈ xs) (hp : p x = false) (hq : q x = true) :
    xs.countP p < xs.countP q := by
  obtain ⟨front, back, rfl⟩ := List.append_of_mem hx
  have hfront : front.countP p ≤ front.countP q :=
    List.countP_mono_left fun y hy => h y (List.mem_append_left _ hy)
  have hback : back.countP p ≤ back.countP q := List.countP_mono_left fun y hy =>
    h y (List.mem_append_right _ (List.mem_cons_of_mem x hy))
  simp only [List.countP_append, List.countP_cons, hp, hq]
  simp
  omega
