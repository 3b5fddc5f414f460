import ApiTypes.Proofs.Lists
import ApiTypes.Proofs.Route.Order
import ApiTypes.Route.Set

namespace ApiTypes.Route

inductive Fault (schemas : List Json) : Nat → DefinitionError → Prop
  | missing {i : Nat} {schema : Json} (hi : schemas[i]? = some schema)
      (hid : schema.text? "$id" = none) : Fault schemas i (.missingId i)
  | repeated {i j : Nat} {schema earlier : Json} {id : String} (hi : schemas[i]? = some schema)
      (hid : schema.text? "$id" = some id) (hj : schemas[j]? = some earlier) (hlt : j < i)
      (hearlier : earlier.text? "$id" = some id) : Fault schemas i (.duplicateId id)

/-- The first schema at which something is wrong. -/
def FirstFault (schemas : List Json) (i : Nat) (e : DefinitionError) : Prop :=
  Fault schemas i e ∧ ∀ j < i, ∀ e', ¬ Fault schemas j e'

def Registered (schema : Json) (d : String × Json) : Prop :=
  schema.text? "$id" = some d.1 ∧ d.2 = schema

/-- How schemas are registered: all of them under different ids, or none because of the first
fault. -/
inductive Registers (schemas : List Json) : Except DefinitionError (List (String × Json)) → Prop
  | ok {ds : List (String × Json)} (h : List.Forall₂ Registered schemas ds)
      (hnodup : (Table.keys ds).Nodup) : Registers schemas (.ok ds)
  | error {i : Nat} {e : DefinitionError} (h : FirstFault schemas i e) :
      Registers schemas (.error e)

section definitions

variable {front rest schemas : List Json} {known ds : List (String × Json)} {i : Nat}
variable {e : DefinitionError} {id : String}

theorem map_text?_of_registered (h : List.Forall₂ Registered front known) :
    front.map (Json.text? "$id") = (Table.keys known).map some := by
  induction h with
  | nil => rfl
  | cons hreg _ ih =>
    simp only [Table.keys, List.map_cons] at ih ⊢
    rw [hreg.1, ih]

/-- The keys are the ids, index by index. -/
theorem getElem?_keys (h : List.Forall₂ Registered front known) {j : Nat} :
    (Table.keys known)[j]? = some id ↔
      ∃ schema : Json, front[j]? = some schema ∧ schema.text? "$id" = some id := by
  have hmap := congrArg (·[j]?) (map_text?_of_registered h)
  simp only [List.getElem?_map] at hmap
  rw [← Option.map_eq_some_iff, hmap, Option.map_eq_some_iff]
  simp

/-- Nothing is wrong with schemas that are registered under different ids. -/
theorem not_fault_of_registered (h : List.Forall₂ Registered front known)
    (hnodup : (Table.keys known).Nodup) (rest : List Json) (hi : i < front.length) :
    ¬ Fault (front ++ rest) i e := by
  intro hfault
  cases hfault with
  | missing hget hid =>
    rw [List.getElem?_append_left hi] at hget
    obtain ⟨d, -, hreg⟩ := h.exists_right (List.mem_of_getElem? hget)
    cases hid.symm.trans hreg.1
  | repeated hget hid hj hlt hearlier =>
    -- both indices have one key, so they are one index
    rw [List.getElem?_append_left hi] at hget
    rw [List.getElem?_append_left (hlt.trans hi)] at hj
    have hkey := (getElem?_keys h).2 ⟨_, hget, hid⟩
    have hkey' := (getElem?_keys h).2 ⟨_, hj, hearlier⟩
    have hlength : i < (Table.keys known).length := (List.getElem?_eq_some_iff.1 hkey).1
    exact hlt.ne' ((List.getElem?_inj hlength hnodup).1 (hkey.trans hkey'.symm))

/-- Schemas behind those that are registered. -/
theorem registers_collectFrom (h : List.Forall₂ Registered front known)
    (hnodup : (Table.keys known).Nodup) :
    Registers (front ++ rest) (collectFrom front.length known rest) := by
  -- `front` is registered without faults, so the first fault is the next schema's or a later one's
  induction rest generalizing front known with
  | nil => exact .ok (by rwa [List.append_nil]) hnodup
  | cons schema rest ih =>
    have hhere : (front ++ schema :: rest)[front.length]? = some schema := by simp
    have hbefore : ∀ j < front.length, ∀ e', ¬ Fault (front ++ schema :: rest) j e' :=
      fun j hj e' => not_fault_of_registered h hnodup _ hj
    unfold collectFrom
    cases hid : schema.text? "$id" with
    | none => exact .error ⟨.missing hhere hid, hbefore⟩
    | some id =>
      dsimp only
      by_cases hknown : Table.contains id known = true
      · obtain ⟨j, hkey⟩ := List.mem_iff_getElem?.1 (Table.mem_keys_iff.2 hknown)
        obtain ⟨earlier, hj, hearlier⟩ := (getElem?_keys h).1 hkey
        have hlt : j < front.length := (List.getElem?_eq_some_iff.1 hj).1
        have hj' : (front ++ schema :: rest)[j]? = some earlier := by
          rw [List.getElem?_append_left hlt, hj]
        rw [if_pos hknown]
        exact .error ⟨.repeated hhere hid hj' hlt hearlier, hbefore⟩
      · have hreg : List.Forall₂ Registered (front ++ [schema]) (known ++ [(id, schema)]) :=
          List.rel_append h (.cons ⟨hid, rfl⟩ .nil)
        have hkeys : (Table.keys (known ++ [(id, schema)])).Nodup := by
          rw [Table.keys, List.map_append, List.map_singleton, ← List.concat_eq_append]
          exact hnodup.concat fun hmem => hknown (Table.mem_keys_iff.1 hmem)
        have hnext := ih hreg hkeys
        rw [List.length_append, List.length_singleton, List.append_assoc] at hnext
        rw [if_neg hknown]
        exact hnext

theorem registers_definitions (schemas : List Json) : Registers schemas (definitions schemas) := by
  have hnone : List.Forall₂ Registered [] [] := .nil
  exact registers_collectFrom hnone List.nodup_nil

/-- There is at most one thing wrong with a schema. -/
theorem Fault.unique {e' : DefinitionError} (h : Fault schemas i e) (h' : Fault schemas i e') :
    e = e' := by
  cases h with
  | missing hi hid =>
    cases h' with
    | missing => rfl
    | repeated hi' hid' =>
      obtain rfl := Option.some.inj (hi.symm.trans hi')
      cases hid.symm.trans hid'
  | repeated hi hid =>
    cases h' with
    | missing hi' hid' =>
      obtain rfl := Option.some.inj (hi.symm.trans hi')
      cases hid.symm.trans hid'
    | repeated hi' hid' =>
      obtain rfl := Option.some.inj (hi.symm.trans hi')
      obtain rfl := Option.some.inj (hid.symm.trans hid')
      rfl

theorem FirstFault.unique {j : Nat} {e' : DefinitionError} (h : FirstFault schemas i e)
    (h' : FirstFault schemas j e') : e = e' := by
  obtain hlt | rfl | hlt := Nat.lt_trichotomy i j
  · exact absurd h.1 (h'.2 i hlt e)
  · exact h.1.unique h'.1
  · exact absurd h'.1 (h.2 j hlt e')

/-- Registered schemas are without faults. -/
theorem not_fault (h : List.Forall₂ Registered schemas ds) (hnodup : (Table.keys ds).Nodup) :
    ¬ Fault schemas i e := by
  intro hfault
  have hlength : i < schemas.length := by
    cases hfault with
    | missing hi => exact (List.getElem?_eq_some_iff.1 hi).1
    | repeated hi => exact (List.getElem?_eq_some_iff.1 hi).1
  rw [← List.append_nil schemas] at hfault
  exact not_fault_of_registered h hnodup [] hlength hfault

end definitions

section parts

/-- A record is put behind those of its path, and nothing is lost. -/
theorem perm_addRecord (r : Record) (routes : Routes) :
    ((addRecord r routes).flatMap Prod.snd).Perm (r :: routes.flatMap Prod.snd) := by
  induction routes with
  | nil => exact List.Perm.refl _
  | cons e routes ih =>
    obtain ⟨path, route⟩ := e
    unfold addRecord
    split
    · rw [List.flatMap_cons, List.flatMap_cons, List.append_assoc]
      exact List.perm_middle
    split
    · exact List.Perm.refl _
    · rw [List.flatMap_cons, List.flatMap_cons]
      exact (ih.append_left route).trans List.perm_middle

theorem perm_group (records : List Record) :
    ((group records).flatMap Prod.snd).Perm records := by
  induction records using List.reverseRecOn with
  | nil => exact List.Perm.refl _
  | append_singleton records r ih =>
    have hgroup : group (records ++ [r]) = addRecord r (group records) := by
      simp [group, List.foldl_append]
    rw [hgroup]
    exact (perm_addRecord r (group records)).trans
      ((ih.cons r).trans (List.perm_append_singleton r records).symm)

theorem mem_keys_group {records : List Record} {url : String} :
    url ∈ Table.keys (group records) ↔ ∃ r ∈ records, r.url = url := by
  constructor
  · intro hurl
    obtain ⟨⟨path, route⟩, he, rfl⟩ := List.mem_map.1 hurl
    obtain ⟨hne, hroute⟩ := mem_group.1 he
    obtain ⟨r, hr⟩ := List.exists_mem_of_ne_nil route hne
    rw [← hroute] at hr
    obtain ⟨hmem, hpath⟩ := List.mem_filter.1 hr
    exact ⟨r, hmem, by simpa using hpath⟩
  · rintro ⟨r, hr, rfl⟩
    have hfound : r ∈ records.filter (·.url = r.url) := List.mem_filter.2 ⟨hr, by simp⟩
    have he : (r.url, records.filter (·.url = r.url)) ∈ group records :=
      mem_group.2 ⟨List.ne_nil_of_mem hfound, rfl⟩
    exact List.mem_map_of_mem he

/-- Splitting a route set loses nothing and fails only for schemas that cannot be registered.  The
error is that of the first such schema; otherwise the definitions are the schemas under their ids in
their order, and the routes, in the order of their paths, share out the records, those of each path
in their order. -/
theorem parts_lossless (set : RouteSet) :
    ((∃ e, set.parts = .error e) ↔ ∃ i e, Fault set.schemas i e) ∧
    (∀ e, set.parts = .error e ↔ ∃ i, FirstFault set.schemas i e) ∧
    ∀ routes ds, set.parts = .ok (routes, ds) →
      (List.Forall₂ Registered set.schemas ds ∧ (Table.keys ds).Nodup) ∧
      routes.Pairwise (fun a b => a.1 < b.1) ∧
      (∀ url, url ∈ Table.keys routes ↔ ∃ r ∈ set.routes, r.url = url) ∧
      (∀ url route, (url, route) ∈ routes → route = set.routes.filter (·.url = url)) ∧
      (routes.flatMap Prod.snd).Perm set.routes := by
  have hregisters := registers_definitions set.schemas
  unfold RouteSet.parts
  generalize definitions set.schemas = result at hregisters
  -- the records play no part in whether there is an error
  cases hregisters with
  | error hfirst =>
    refine ⟨iff_of_true ⟨_, rfl⟩ ⟨_, _, hfirst.1⟩, fun e' => ?_, nofun⟩
    constructor
    · rintro ⟨⟩
      exact ⟨_, hfirst⟩
    · rintro ⟨j, hfirst'⟩
      rw [hfirst.unique hfirst']
      rfl
  | ok hreg hnodup =>
    refine ⟨iff_of_false nofun ?_, fun e' => iff_of_false nofun ?_, ?_⟩
    · rintro ⟨i, e, hfault⟩
      exact not_fault hreg hnodup hfault
    · rintro ⟨i, hfirst⟩
      exact not_fault hreg hnodup hfirst.1
    · rintro routes ds ⟨⟩
      refine ⟨⟨hreg, hnodup⟩, Document.sorted_group _, fun url => mem_keys_group, ?_,
        perm_group _⟩
      exact fun url route he => (mem_group.1 he).2.symm

def sharing : RouteSet where
  routes := [⟨"/b", .one "GET", none⟩, ⟨"/a", .one "GET", none⟩, ⟨"/b", .one "POST", none⟩]
  schemas := [.object [("$id", .string "b")], .object [("$id", .string "a"), ("type", .null)]]

def sharingRoutes : Routes :=
  [("/a", [⟨"/a", .one "GET", none⟩]),
    ("/b", [⟨"/b", .one "GET", none⟩, ⟨"/b", .one "POST", none⟩])]

def sharingDefinitions : List (String × Json) :=
  [("b", .object [("$id", .string "b")]), ("a", .object [("$id", .string "a"), ("type", .null)])]

theorem parts_lossless_sharing : sharing.parts = .ok (sharingRoutes, sharingDefinitions) ∧
    List.Forall₂ Registered sharing.schemas sharingDefinitions ∧
    (∀ url route, (url, route) ∈ sharingRoutes →
      route = sharing.routes.filter (·.url = url)) ∧
    (sharingRoutes.flatMap Prod.snd).Perm sharing.routes := by
  have hparts : sharing.parts = .ok (sharingRoutes, sharingDefinitions) := by rfl
  obtain ⟨-, -, hok⟩ := parts_lossless sharing
  obtain ⟨⟨hdefinitions, -⟩, -, -, hroutes, hperm⟩ := hok _ _ hparts
  exact ⟨hparts, hdefinitions, hroutes, hperm⟩

/-- The second schema is refused, and not the third one. -/
example : (RouteSet.mk [] [.object [("$id", .string "a")], .object [("$id", .string "a")],
    .null]).parts = .error (.duplicateId "a") := by rfl

end parts

end ApiTypes.Route
