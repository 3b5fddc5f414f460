import ApiTypes.Compile.Bound
import ApiTypes.Proofs.Json.Within
import ApiTypes.Proofs.Lists

namespace ApiTypes.Json

mutual

/-- Equal but for the references, which are related one by one. -/
inductive Respelled (R : String → String → Prop) : Json → Json → Prop
  | null : Respelled R .null .null
  | bool (b : Bool) : Respelled R (.bool b) (.bool b)
  | number (n : Json.Number) : Respelled R (.number n) (.number n)
  | string (s : String) : Respelled R (.string s) (.string s)
  | array {items items' : List Json} (h : RespelledItems R items items') :
      Respelled R (.array items) (.array items')
  | object {members members' : List (String × Json)} (h : RespelledMembers R members members') :
      Respelled R (.object members) (.object members')

inductive RespelledItems (R : String → String → Prop) : List Json → List Json → Prop
  | nil : RespelledItems R [] []
  | cons {j j' : Json} {items items' : List Json} (h : Respelled R j j')
      (hs : RespelledItems R items items') : RespelledItems R (j :: items) (j' :: items')

inductive RespelledMembers (R : String → String → Prop) :
    List (String × Json) → List (String × Json) → Prop
  | nil : RespelledMembers R [] []
  | ref {r r' : String} {members members' : List (String × Json)} (h : R r r')
      (hs : RespelledMembers R members members') :
      RespelledMembers R (("$ref", .string r) :: members) (("$ref", .string r') :: members')
  | cons {key : String} {j j' : Json} {members members' : List (String × Json)}
      (hkey : key = "$ref" → j.string? = none) (h : Respelled R j j')
      (hs : RespelledMembers R members members') :
      RespelledMembers R ((key, j) :: members) ((key, j') :: members')

end

mutual

def references : Json → List String
  | .array items => itemsReferences items
  | .object members => membersReferences members
  | .null | .bool _ | .number _ | .string _ => []

def itemsReferences : List Json → List String
  | [] => []
  | j :: items => references j ++ itemsReferences items

def membersReferences : List (String × Json) → List String
  | [] => []
  | (key, j) :: members =>
    (if key = "$ref" then j.string?.toList else []) ++ references j ++ membersReferences members

end

variable {R R' : String → String → Prop}

mutual

/-- A document is a respelling of itself if its references are. -/
theorem respelled_self : ∀ (j : Json), (∀ r ∈ references j, R r r) → Respelled R j j
  | .null, _ => .null
  | .bool b, _ => .bool b
  | .number n, _ => .number n
  | .string s, _ => .string s
  | .array items, h => .array (respelledItems_self items h)
  | .object members, h => .object (respelledMembers_self members h)

theorem respelledItems_self :
    ∀ (items : List Json), (∀ r ∈ itemsReferences items, R r r) → RespelledItems R items items
  | [], _ => .nil
  | j :: items, h =>
    .cons (respelled_self j fun r hr => h r (List.mem_append_left _ hr))
      (respelledItems_self items fun r hr => h r (List.mem_append_right _ hr))

theorem respelledMembers_self :
    ∀ (members : List (String × Json)), (∀ r ∈ membersReferences members, R r r) →
      RespelledMembers R members members
  | [], _ => .nil
  | (key, j) :: members, h => by
    have hrest := respelledMembers_self members fun r hr => h r (List.mem_append_right _ hr)
    have hj := respelled_self j fun r hr =>
      h r (List.mem_append_left _ (List.mem_append_right _ hr))
    -- only a text under this key is a reference
    by_cases hkey : key = "$ref"
    · subst hkey
      cases j with
      | string r => exact .ref (h r List.mem_cons_self) hrest
      | _ => exact .cons (fun _ => rfl) hj hrest
    · exact .cons (fun he => absurd he hkey) hj hrest

end

mutual

theorem Respelled.mono (hR : ∀ {r r'}, R r r' → R' r r') {j j' : Json} (h : Respelled R j j') :
    Respelled R' j j' := by
  cases h with
  | null => exact .null
  | bool b => exact .bool b
  | number n => exact .number n
  | string s => exact .string s
  | array hs => exact .array (hs.mono hR)
  | object hs => exact .object (hs.mono hR)

theorem RespelledItems.mono (hR : ∀ {r r'}, R r r' → R' r r') {items items' : List Json}
    (h : RespelledItems R items items') : RespelledItems R' items items' := by
  cases h with
  | nil => exact .nil
  | cons hj hs => exact .cons (hj.mono hR) (hs.mono hR)

theorem RespelledMembers.mono (hR : ∀ {r r'}, R r r' → R' r r')
    {members members' : List (String × Json)} (h : RespelledMembers R members members') :
    RespelledMembers R' members members' := by
  cases h with
  | nil => exact .nil
  | ref hr hs => exact .ref (hR hr) (hs.mono hR)
  | cons hkey hj hs => exact .cons hkey (hj.mono hR) (hs.mono hR)

end

section depth

open Compile

mutual

theorem Respelled.depth_eq {j j' : Json} (h : Respelled R j j') : depth j = depth j' := by
  cases h with
  | array hs => rw [depth, depth, hs.depth_eq]
  | object hs => rw [depth, depth, hs.depth_eq]
  | _ => rfl

theorem RespelledItems.depth_eq {items items' : List Json} (h : RespelledItems R items items') :
    itemsDepth items = itemsDepth items' := by
  cases h with
  | nil => rfl
  | cons hj hs => rw [itemsDepth, itemsDepth, hj.depth_eq, hs.depth_eq]

theorem RespelledMembers.depth_eq {members members' : List (String × Json)}
    (h : RespelledMembers R members members') : membersDepth members = membersDepth members' := by
  cases h with
  | nil => rfl
  | ref hr hs => rw [membersDepth, membersDepth, depth, depth, hs.depth_eq]
  | cons hkey hj hs => rw [membersDepth, membersDepth, hj.depth_eq, hs.depth_eq]

end

mutual

theorem Respelled.size_eq {j j' : Json} (h : Respelled R j j') : size j = size j' := by
  cases h with
  | array hs => rw [size, size, hs.size_eq]
  | object hs => rw [size, size, hs.size_eq]
  | _ => rfl

theorem RespelledItems.size_eq {items items' : List Json} (h : RespelledItems R items items') :
    itemsSize items = itemsSize items' := by
  cases h with
  | nil => rfl
  | cons hj hs => rw [itemsSize, itemsSize, hj.size_eq, hs.size_eq]

theorem RespelledMembers.size_eq {members members' : List (String × Json)}
    (h : RespelledMembers R members members') : membersSize members = membersSize members' := by
  cases h with
  | nil => rfl
  | ref hr hs => rw [membersSize, membersSize, size, size, hs.size_eq]
  | cons hkey hj hs => rw [membersSize, membersSize, hj.size_eq, hs.size_eq]

end

end depth

/-- Respelled documents, or two texts: the text of a reference is a document of its own, too. -/
def Alike (R : String → String → Prop) (j j' : Json) : Prop :=
  Respelled R j j' ∨ ∃ s s', j = .string s ∧ j' = .string s'

/-- What the members `key` of respelled objects have to do with each other. -/
def Spelled (R : String → String → Prop) (key : String) (j j' : Json) : Prop :=
  (key = "$ref" ∧ ∃ r r', R r r' ∧ j = .string r ∧ j' = .string r') ∨
    (key = "$ref" → j.string? = none) ∧ Respelled R j j'

theorem Spelled.alike {key : String} {j j' : Json} (h : Spelled R key j j') : Alike R j j' := by
  rcases h with ⟨-, r, r', -, rfl, rfl⟩ | ⟨-, h⟩
  · exact .inr ⟨r, r', rfl, rfl⟩
  · exact .inl h

theorem Spelled.respelled {key : String} {j j' : Json} (h : Spelled R key j j')
    (hkey : key ≠ "$ref") : Respelled R j j' := by
  rcases h with ⟨rfl, -⟩ | ⟨-, h⟩
  · exact absurd rfl hkey
  · exact h

section values

variable {j j' : Json}

theorem Respelled.string?_eq (h : Respelled R j j') : j.string? = j'.string? := by
  cases h <;> rfl

theorem RespelledItems.forall₂ {items items' : List Json} (h : RespelledItems R items items') :
    List.Forall₂ (Respelled R) items items' := by
  induction items generalizing items' with
  | nil =>
    cases h
    exact .nil
  | cons j items ih =>
    cases h with
    | cons hj hs => exact .cons hj (ih hs)

theorem RespelledMembers.forall₂ {members members' : List (String × Json)}
    (h : RespelledMembers R members members') :
    List.Forall₂ (fun p p' => p.1 = p'.1 ∧ Spelled R p.1 p.2 p'.2) members members' := by
  induction members generalizing members' with
  | nil =>
    cases h
    exact .nil
  | cons p members ih =>
    cases h with
    | ref hr hs => exact .cons ⟨rfl, .inl ⟨rfl, _, _, hr, rfl, rfl⟩⟩ (ih hs)
    | cons hkey hj hs => exact .cons ⟨rfl, .inr ⟨hkey, hj⟩⟩ (ih hs)

end values

end Json

namespace Table

variable {α β : Type}

/-- Tables whose entries are related one by one have related values for each key. -/
theorem rel_get? {R : String → α → β → Prop} {t : List (String × α)} {u : List (String × β)}
    (h : List.Forall₂ (fun p q => p.1 = q.1 ∧ R p.1 p.2 q.2) t u) (key : String) :
    Option.Rel (R key) (get? key t) (get? key u) := by
  induction h with
  | nil => exact .none
  | @cons p q t u hp _ ih =>
    obtain ⟨k, v⟩ := p
    obtain ⟨k', w⟩ := q
    obtain ⟨rfl, hv⟩ : k = k' ∧ R k v w := hp
    rw [get?_cons, get?_cons]
    by_cases hkey : key = k
    · subst hkey
      rw [if_pos rfl, if_pos rfl]
      exact .some hv
    · rw [if_neg hkey, if_neg hkey]
      exact ih

end Table

namespace Json

section members

variable {members members' : List (String × Json)} (h : RespelledMembers R members members')

include h

theorem RespelledMembers.rel_get? (key : String) :
    Option.Rel (Spelled R key) (Table.get? key members) (Table.get? key members') :=
  Table.rel_get? h.forall₂ key

theorem RespelledMembers.contains_eq (key : String) :
    Table.contains key members = Table.contains key members' := by
  exact (h.rel_get? key).isSome_eq

/-- References stand at the same places, and are related. -/
theorem RespelledMembers.rel_ref? :
    Option.Rel R ((Table.get? "$ref" members).bind string?)
      ((Table.get? "$ref" members').bind string?) := by
  apply (h.rel_get? "$ref").bind
  rintro j j' (⟨-, r, r', hr, rfl, rfl⟩ | ⟨hnone, hj⟩)
  · exact .some hr
  · have hnone' : j'.string? = none := hj.string?_eq.symm.trans (hnone rfl)
    rw [hnone rfl, hnone']
    exact .none

theorem RespelledMembers.rel_value? (key : String) (hkey : key ≠ "$ref") :
    Option.Rel (Respelled R) (Table.get? key members) (Table.get? key members') :=
  (h.rel_get? key).imp fun _ _ hj => hj.respelled hkey

end members

section values

variable {o o' : Option Json} (h : Option.Rel (Respelled R) o o')

include h

theorem string?_eq_of_rel : o.bind string? = o'.bind string? := by
  cases h with
  | some hj => exact hj.string?_eq
  | none => rfl

theorem rel_array? :
    Option.Rel (List.Forall₂ (Respelled R)) (o.bind array?) (o'.bind array?) := by
  apply h.bind
  intro j j' hj
  cases hj with
  | array hs => exact .some hs.forall₂
  | _ => exact .none

theorem rel_object? : Option.Rel (RespelledMembers R) (o.bind object?) (o'.bind object?) := by
  apply h.bind
  intro j j' hj
  cases hj with
  | object hs => exact .some hs
  | _ => exact .none

end values

/-- The texts among respelled items are the same. -/
theorem filterMap_string?_eq {items items' : List Json}
    (h : List.Forall₂ (Respelled R) items items') :
    items.filterMap string? = items'.filterMap string? := by
  induction h with
  | nil => rfl
  | cons hj _ ih => rw [List.filterMap_cons, List.filterMap_cons, hj.string?_eq, ih]

namespace Alike

variable {j j' : Json} (h : Alike R j j')

include h

theorem rel_ref? : Option.Rel R (j.text? "$ref") (j'.text? "$ref") := by
  rcases h with h | ⟨s, s', rfl, rfl⟩
  · cases h with
    | object hs => exact hs.rel_ref?
    | _ => exact .none
  · exact .none

theorem text?_eq {key : String} (hkey : key ≠ "$ref") : j.text? key = j'.text? key := by
  rcases h with h | ⟨s, s', rfl, rfl⟩
  · cases h with
    | object hs => exact string?_eq_of_rel (hs.rel_value? _ hkey)
    | _ => rfl
  · rfl

theorem isSome_get?_eq (key : String) : (j.get? key).isSome = (j'.get? key).isSome := by
  rcases h with h | ⟨s, s', rfl, rfl⟩
  · cases h with
    | object hs => exact hs.contains_eq key
    | _ => rfl
  · rfl

theorem rel_step? (token : String) :
    Option.Rel (Alike R) (Pointer.step? j token) (Pointer.step? j' token) := by
  -- a text has no parts, so only respelled documents can be stepped into
  rcases h with h | ⟨s, s', rfl, rfl⟩
  · cases h with
    | @object members members' hs =>
      have hmember : Option.Rel (Alike R) (Table.get? token members) (Table.get? token members') :=
        (hs.rel_get? token).imp fun _ _ hj => hj.alike
      exact hmember
    | @array items items' hs =>
      show Option.Rel (Alike R) ((Pointer.index? token).bind fun i => items[i]?)
        ((Pointer.index? token).bind fun i => items'[i]?)
      cases Pointer.index? token with
      | none => exact .none
      | some i => exact (hs.forall₂.getElem? i).imp fun _ _ hj => .inl hj
    | _ => exact .none
  · exact .none

/-- A pointer leads to alike parts of alike documents, or out of both. -/
theorem rel_resolve? (pointer : String) :
    Option.Rel (Alike R) (Pointer.resolve? pointer j) (Pointer.resolve? pointer j') := by
  unfold Pointer.resolve?
  cases Pointer.tokens? pointer with
  | none => exact .none
  | some tokens =>
    show Option.Rel (Alike R) (tokens.foldlM Pointer.step? j) (tokens.foldlM Pointer.step? j')
    induction tokens generalizing j j' with
    | nil => exact .some h
    | cons token tokens ih =>
      rw [List.foldlM_cons, List.foldlM_cons]
      exact (h.rel_step? token).bind fun _ _ hk => ih hk

end Alike

end Json

end ApiTypes
