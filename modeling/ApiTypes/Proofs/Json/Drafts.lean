import ApiTypes.Json.Draft
import ApiTypes.Proofs.Json.Within
import ApiTypes.Proofs.Lists
import ApiTypes.Proofs.Tables

namespace ApiTypes.Json

mutual

/-- Whether all numbers of a document are finite and in each object a key stands once, as it is in
JSON. -/
def isProper : Json → Bool
  | .number (.real x) => x.isFinite
  | .array items => itemsProper items
  | .object members => (Table.keys members).Nodup && membersProper members
  | .null | .bool _ | .number (.integer _) | .string _ => true

def itemsProper : List Json → Bool
  | [] => true
  | j :: items => isProper j && itemsProper items

def membersProper : List (String × Json) → Bool
  | [] => true
  | (_, j) :: members => isProper j && membersProper members

end

theorem itemsProper_iff {items : List Json} : itemsProper items ↔ ∀ j ∈ items, j.isProper := by
  induction items with
  | nil => simp [itemsProper]
  | cons j items ih => rw [itemsProper, Bool.and_eq_true, ih, List.forall_mem_cons]

theorem membersProper_iff {members : List (String × Json)} :
    membersProper members ↔ ∀ m ∈ members, m.2.isProper := by
  induction members with
  | nil => simp [membersProper]
  | cons m members ih => rw [membersProper, Bool.and_eq_true, ih, List.forall_mem_cons]

def Settled (j : Json) : Prop :=
  Draft.toJson? (.ofJson j) = some j

section settled

variable {items : List Json} {members : List (String × Json)}

theorem ofItems_eq_map (items : List Json) : Draft.ofItems items = items.map Draft.ofJson := by
  induction items with
  | nil => rfl
  | cons j items ih => exact congrArg (List.cons _) ih

theorem ofMembers_eq_map (members : List (String × Json)) :
    Draft.ofMembers members = members.map fun m => (some m.1, Draft.ofJson m.2) := by
  induction members with
  | nil => rfl
  | cons m members ih => exact congrArg (List.cons _) ih

theorem items?_ofItems (h : ∀ j ∈ items, j.Settled) :
    Draft.items? (Draft.ofItems items) = some items := by
  induction items with
  | nil => rfl
  | cons j items ih =>
    obtain ⟨hj, hitems⟩ := List.forall_mem_cons.1 h
    have hj : Draft.toJson? (.ofJson j) = some j := hj
    rw [Draft.ofItems, Draft.items?, hj, ih hitems]
    rfl

theorem members?_ofMembers (h : ∀ m ∈ members, m.2.Settled) :
    Draft.members? (Draft.ofMembers members) = some members := by
  induction members with
  | nil => rfl
  | cons m members ih =>
    obtain ⟨hm, hmembers⟩ := List.forall_mem_cons.1 h
    have hm : Draft.toJson? (.ofJson m.2) = some m.2 := hm
    rw [Draft.ofMembers, Draft.members?, hm, ih hmembers]
    rfl

theorem settled_array (h : ∀ j ∈ items, j.Settled) : (Json.array items).Settled := by
  unfold Settled
  rw [Draft.ofJson, Draft.toJson?, items?_ofItems h]
  rfl

theorem settled_object (hkeys : (Table.keys members).Nodup) (h : ∀ m ∈ members, m.2.Settled) :
    (Json.object members).Settled := by
  unfold Settled
  rw [Draft.ofJson, Draft.toJson?, members?_ofMembers h]
  exact congrArg (some ∘ Json.object) (Table.ofList_of_nodup hkeys)

end settled

mutual

/-- What is read from a draft is read back. -/
theorem settled_of_toJson? : ∀ (d : Draft) (j : Json), d.toJson? = some j → j.Settled
  | .null, j, h | .bool _, j, h | .number _, j, h | .string _, j, h => by
    obtain rfl := Option.some.inj h
    rfl
  | .array ds, j, h => by
    obtain ⟨items, hitems, rfl⟩ := Option.map_eq_some_iff.1 h
    exact settled_array (settled_of_items? ds items hitems)
  | .object ds, j, h => by
    obtain ⟨members, hmembers, rfl⟩ := Option.map_eq_some_iff.1 h
    exact settled_object (Table.nodup_keys_ofList members) fun m hm =>
      settled_of_members? ds members hmembers m (Table.mem_of_mem_ofList hm)

theorem settled_of_items? : ∀ (ds : List Draft) (items : List Json),
    Draft.items? ds = some items → ∀ j ∈ items, j.Settled
  | [], items, h => by
    obtain rfl := Option.some.inj h
    simp
  | d :: ds, items, h => by
    obtain ⟨j, hj, h⟩ := Option.bind_eq_some_iff.1 h
    obtain ⟨items, hitems, h⟩ := Option.bind_eq_some_iff.1 h
    obtain rfl := Option.some.inj h
    exact List.forall_mem_cons.2 ⟨settled_of_toJson? d j hj, settled_of_items? ds items hitems⟩

theorem settled_of_members? : ∀ (ds : List (Option String × Draft))
    (members : List (String × Json)), Draft.members? ds = some members →
      ∀ m ∈ members, m.2.Settled
  | [], members, h => by
    obtain rfl := Option.some.inj h
    simp
  | (key, d) :: ds, members, h => by
    obtain ⟨k, -, h⟩ := Option.bind_eq_some_iff.1 h
    obtain ⟨j, hj, h⟩ := Option.bind_eq_some_iff.1 h
    obtain ⟨members, hmembers, h⟩ := Option.bind_eq_some_iff.1 h
    obtain rfl := Option.some.inj h
    exact List.forall_mem_cons.2
      ⟨settled_of_toJson? d j hj, settled_of_members? ds members hmembers⟩

end

mutual

theorem settled_of_isProper : ∀ j : Json, isProper j → j.Settled
  | .null, _ | .bool _, _ | .number _, _ | .string _, _ => rfl
  | .array items, h => settled_array (settled_of_itemsProper items h)
  | .object members, h => by
    obtain ⟨hkeys, hmembers⟩ := Bool.and_eq_true_iff.1 h
    exact settled_object (of_decide_eq_true hkeys) (settled_of_membersProper members hmembers)

theorem settled_of_itemsProper : ∀ items : List Json, itemsProper items → ∀ j ∈ items, j.Settled
  | [], _ => by simp
  | j :: items, h => by
    obtain ⟨hj, hitems⟩ := Bool.and_eq_true_iff.1 h
    exact List.forall_mem_cons.2 ⟨settled_of_isProper j hj, settled_of_itemsProper items hitems⟩

theorem settled_of_membersProper : ∀ members : List (String × Json), membersProper members →
    ∀ m ∈ members, m.2.Settled
  | [], _ => by simp
  | (key, j) :: members, h => by
    obtain ⟨hj, hmembers⟩ := Bool.and_eq_true_iff.1 h
    exact List.forall_mem_cons.2
      ⟨settled_of_isProper j hj, settled_of_membersProper members hmembers⟩

end

def isNull : Json → Bool
  | .null => true
  | _ => false

/-- The value of a field of a record: in an object it stands under its name, in a list in its
place. -/
def fieldAt? (name : String) (place : Nat) : Json → Option Json
  | .object members => Table.get? name members
  | .array items => items[place]?
  | _ => none

section fields

variable {α : Type} {read : Draft → Option α} {surplus : Surplus} {names : List String}
  {members : List (String × Json)}

theorem fields?_object (hkeys : (Table.keys members).Nodup) (surplus : Surplus)
    (names : List String) :
    (Draft.ofJson (.object members)).fields? surplus names =
      some (names.map fun name => (Table.get? name members).map Draft.ofJson) := by
  have hall : ((Draft.ofMembers members).all fun m => m.1.isSome) = true := by
    rw [ofMembers_eq_map]
    simp
  -- no key stands twice, so there is at most one value for a name
  have hfilter : ∀ name, (Draft.ofMembers members).filter (fun m => m.1 = some name) =
      ((Table.get? name members).map fun j => (some name, Draft.ofJson j)).toList := by
    intro name
    have hsame : ((fun m : Option String × Draft => decide (m.1 = some name)) ∘
        fun m : String × Json => (some m.1, Draft.ofJson m.2)) = fun m => decide (m.1 = name) := by
      funext m
      simp
    rw [ofMembers_eq_map, List.filter_map, hsame, Table.filter_key hkeys]
    cases Table.get? name members <;> rfl
  unfold Draft.ofJson Draft.fields?
  dsimp only
  rw [if_pos hall, List.mapM_eq_some_iff, List.forall₂_map_right_iff, List.forall₂_same]
  intro name _
  rw [hfilter]
  cases Table.get? name members <;> rfl

theorem isProper_fieldAt? {j i : Json} {name : String} {place : Nat} (hj : j.isProper)
    (h : j.fieldAt? name place = some i) : i.isProper := by
  cases j with
  | object members =>
    obtain ⟨-, hmembers⟩ := Bool.and_eq_true_iff.1 hj
    exact membersProper_iff.1 hmembers _ (Table.mem_of_get? h)
  | array items => exact itemsProper_iff.1 hj _ (List.mem_of_getElem? h)
  | _ => cases h

/-- The items of a list field, which may be missing. -/
theorem isProper_of_list {j : Json} {name : String} {place : Nat} {items : List Json}
    (hj : j.isProper) (h : (j.fieldAt? name place).getD (.array []) = .array items) :
    ∀ i ∈ items, i.isProper := by
  cases hfield : j.fieldAt? name place with
  | none =>
    rw [hfield] at h
    obtain rfl : [] = items := Json.array.inj h
    simp
  | some k =>
    rw [hfield] at h
    obtain rfl : k = .array items := h
    exact itemsProper_iff.1 (isProper_fieldAt? hj hfield)

/-- The fields of a record in either form. -/
theorem eq_of_fields? {j : Json} {os : List (Option Draft)} (hj : j.isProper)
    (h : (Draft.ofJson j).fields? surplus names = some os) :
    os = names.mapIdx fun place name => (j.fieldAt? name place).map Draft.ofJson := by
  cases j with
  | object members =>
    obtain ⟨hkeys, -⟩ := Bool.and_eq_true_iff.1 hj
    rw [fields?_object (of_decide_eq_true hkeys)] at h
    obtain rfl := Option.some.inj h
    exact List.ext_getElem (by simp) (by simp [fieldAt?])
  | array items =>
    unfold Draft.ofJson Draft.fields? at h
    dsimp only at h
    split at h
    · cases h
    · obtain rfl := Option.some.inj h
      simp [fieldAt?, ofItems_eq_map]
  | _ => cases h

theorem eq_string_of_string? {j : Json} {s : String} (h : (Draft.ofJson j).string? = some s) :
    j = .string s := by
  cases j with
  | string s' => exact congrArg Json.string (Option.some.inj h)
  | _ => cases h

theorem eq_some_of_nullable? {o : Option Draft} {a : α}
    (h : Draft.field? none (Draft.nullable? read) o = some (some a)) :
    ∃ d, o = some d ∧ read d = some a := by
  cases o with
  | none => cases h
  | some d =>
    refine ⟨d, rfl, ?_⟩
    have hread : (read d).map some = some (some a) := by
      cases d with
      | null => cases h
      | _ => exact h
    obtain ⟨b, hb, hab⟩ := Option.map_eq_some_iff.1 hread
    rw [hb, hab]

theorem isNull_of_nullable? {i : Json}
    (h : Draft.nullable? read (.ofJson i) = some none) : i.isNull := by
  cases i with
  | null => rfl
  | _ =>
    obtain ⟨a, -, ha⟩ := Option.map_eq_some_iff.1 h
    cases ha

/-- The items of a list field are what was read of the items of the list, if there is one. -/
theorem exists_forall₂_of_list? {o : Option Draft}
    {as : List α} (h : Draft.field? [] (Draft.list? read) o = some as) :
    ∃ ds, o.getD (.array []) = .array ds ∧ List.Forall₂ (fun d a => read d = some a) ds as := by
  cases o with
  | none =>
    obtain rfl := Option.some.inj h
    exact ⟨[], rfl, .nil⟩
  | some d =>
    cases d with
    | array ds => exact ⟨ds, rfl, List.mapM_eq_some_iff.1 h⟩
    | _ => cases h

/-- What was read of the items of a list field. -/
theorem exists_forall₂_of_fieldAt? {o : Option Json}
    {as : List α} (h : Draft.field? [] (Draft.list? read) (o.map Draft.ofJson) = some as) :
    ∃ items, o.getD (.array []) = .array items ∧
      List.Forall₂ (fun j a => read (.ofJson j) = some a) items as := by
  obtain ⟨ds, hds, has⟩ := exists_forall₂_of_list? h
  cases o with
  | none =>
    obtain rfl : [] = ds := Draft.array.inj hds
    cases has
    exact ⟨[], rfl, .nil⟩
  | some j =>
    cases j with
    | array items =>
      obtain rfl : Draft.ofItems items = ds := Draft.array.inj hds
      rw [ofItems_eq_map, List.forall₂_map_left_iff] at has
      exact ⟨items, rfl, has⟩
    | _ => cases hds

end fields

end ApiTypes.Json
