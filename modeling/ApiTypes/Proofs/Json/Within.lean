import ApiTypes.Json.Pointer

namespace ApiTypes

theorem Table.mem_of_get? {α : Type} {key : String} {v : α} {t : List (String × α)}
    (h : Table.get? key t = some v) : (key, v) ∈ t := by
  obtain ⟨l, r, rfl, -⟩ := List.lookup_eq_some_iff.1 h
  simp

namespace Json

theorem eq_string {o : Option Json} {s : String} (h : o.bind string? = some s) :
    o = some (.string s) := by
  obtain ⟨j, rfl, hj⟩ := Option.bind_eq_some_iff.1 h
  cases j <;> simp_all [string?]

theorem eq_array {o : Option Json} {items : List Json} (h : o.bind array? = some items) :
    o = some (.array items) := by
  obtain ⟨j, rfl, hj⟩ := Option.bind_eq_some_iff.1 h
  cases j <;> simp_all [array?]

theorem eq_object {o : Option Json} {members : List (String × Json)}
    (h : o.bind object? = some members) : o = some (.object members) := by
  obtain ⟨j, rfl, hj⟩ := Option.bind_eq_some_iff.1 h
  cases j <;> simp_all [object?]

theorem exists_members_of_text? {j : Json} {key s : String} (h : j.text? key = some s) :
    ∃ members, j = .object members ∧ Table.get? key members = some (.string s) := by
  have hs := eq_string h
  cases j with
  | object members => exact ⟨members, rfl, hs⟩
  | _ => cases hs

inductive Part (j : Json) : Json → Prop
  | item {items : List Json} (h : j ∈ items) : Part j (.array items)
  | member {key : String} {members : List (String × Json)} (h : (key, j) ∈ members) :
      Part j (.object members)

/-- What holds of the parts of every document it holds of. -/
def Inherited (P : Json → Prop) : Prop :=
  ∀ j k, P j → Part k j → P k

namespace Inherited

variable {P : Json → Prop} {members : List (String × Json)} {key : String}

theorem of_get? (hP : Inherited P) (hm : P (.object members)) {j : Json}
    (h : Table.get? key members = some j) : P j :=
  hP _ _ hm (.member (Table.mem_of_get? h))

theorem of_item (hP : Inherited P) (hm : P (.object members)) {items : List Json}
    (h : Table.get? key members = some (.array items)) : ∀ j ∈ items, P j :=
  fun _ hj => hP _ _ (hP.of_get? hm h) (.item hj)

theorem of_members (hP : Inherited P) (hget : ∀ j, Table.get? key members = some j → P j) :
    ∀ p ∈ ((Table.get? key members).bind object?).getD [], P p.2 := by
  intro p hp
  cases hg : (Table.get? key members).bind object? with
  | none => simp [hg] at hp
  | some ps =>
    rw [hg] at hp
    exact hP _ _ (hget _ (eq_object hg)) (.member hp)

end Inherited

inductive Within (j : Json) : Json → Prop
  | self : Within j j
  | part {k l : Json} (h : Within j k) (hp : Part k l) : Within j l

theorem Within.trans {i j k : Json} (h : Within i j) (h' : Within j k) : Within i k := by
  induction h' with
  | self => exact h
  | part _ hp ih => exact ih.part hp

theorem within_of_step? {j k : Json} {token : String} (h : Pointer.step? k token = some j) :
    Within j k := by
  cases k with
  | object members => exact Within.self.part (.member (Table.mem_of_get? h))
  | array items =>
    obtain ⟨i, -, hi⟩ := Option.bind_eq_some_iff.1 h
    exact Within.self.part (.item (List.mem_of_getElem? hi))
  | _ => cases h

theorem within_of_foldlM {tokens : List String} {j doc : Json}
    (h : tokens.foldlM Pointer.step? doc = some j) : Within j doc := by
  induction tokens generalizing doc with
  | nil =>
    obtain rfl := Option.some.inj h
    exact .self
  | cons token tokens ih =>
    rw [List.foldlM_cons] at h
    obtain ⟨k, hk, h⟩ := Option.bind_eq_some_iff.1 h
    exact (ih h).trans (within_of_step? hk)

theorem within_of_resolve? {pointer : String} {j doc : Json}
    (h : Pointer.resolve? pointer doc = some j) : Within j doc := by
  obtain ⟨tokens, -, h⟩ := Option.bind_eq_some_iff.1 h
  exact within_of_foldlM h

/-- All references in a document are to parts of the document they stand in. -/
def Local (doc : Json) : Prop :=
  ∀ members ref, Within (.object members) doc →
    Table.get? "$ref" members = some (.string ref) → ∃ pointer, ref = "#" ++ pointer

theorem Local.within {j doc : Json} (h : doc.Local) (hj : Within j doc) : j.Local :=
  fun members ref hm => h members ref (hm.trans hj)

theorem local_of_parts {j : Json}
    (hself : ∀ members ref, j = .object members → Table.get? "$ref" members = some (.string ref) →
      ∃ pointer, ref = "#" ++ pointer)
    (hparts : ∀ k, Part k j → k.Local) : j.Local := by
  intro members ref hw hr
  cases hw with
  | self => exact hself members ref rfl hr
  | part hw hp => exact hparts _ hp members ref hw hr

end Json

end ApiTypes
