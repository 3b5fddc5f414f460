import ApiTypes.Document.Build
import ApiTypes.Proofs.Lists
import ApiTypes.Proofs.Tables
import Mathlib.Data.String.Basic

namespace ApiTypes

namespace Route

def upperName (name : String) : String :=
  String.ofList (name.toList.map Char.toUpper)

/-- The record declares the method, in any case of letters. -/
def Record.Declares (r : Record) (m : Method) : Prop :=
  ∃ name ∈ r.method.names, upperName name = m.upper

/-- The known methods among the names of a route, in capitals and in the order of their first
declarations. -/
def declaredMethods (ignoreHead : Bool) (route : List Record) : List String :=
  (((route.flatMap fun r => r.method.names).map upperName).filter fun name =>
    (Method.all.map Method.upper).contains name && !(ignoreHead && name == "HEAD")).eraseDups

def Schema.present (s : Schema) (m : Method) : List Slot :=
  [Slot.body, .querystring, .params, .headers, .response].filter fun slot =>
    match slot with
    | .body => s.body.isSome && (m == .post || m == .put || m == .patch)
    | .querystring => s.querystring.isSome
    | .params => s.params.isSome
    | .headers => s.headers.isSome
    | .response => s.response.isSome

def statuses (replies : List (String × Json)) : List (String × Json) :=
  replies.filter fun (status, j) => !(status == "title" && j.string?.isSome)

end Route

namespace Document

open Route

/-- A schema of the request in its slot: an object gets the title unless it has one that is not
empty, and nothing else changes. -/
inductive Requested (title : String) : Json → Json → Prop
  | titled {members : List (String × Json)}
    (h : ∀ t, Table.get? "title" members = some (.string t) → t = "") :
    Requested title (.object members) (.object (Table.insert "title" (.string title) members))
  | own {members : List (String × Json)} {t : String}
    (h : Table.get? "title" members = some (.string t)) (ht : t ≠ "") :
    Requested title (.object members) (.object members)
  | other {j : Json} (h : ∀ members, j ≠ .object members) : Requested title j j

/-- The entry of a status: an object without a reference gets a title, and nothing else changes. -/
inductive Replied : String × Json → Json → Prop
  | titled {status : String} {members : List (String × Json)} (t : String)
    (h : Table.get? "$ref" members = none) :
    Replied (status, .object members) (.object (Table.insert "title" (.string t) members))
  | reference {status : String} {members : List (String × Json)} {j : Json}
    (h : Table.get? "$ref" members = some j) : Replied (status, .object members) (.object members)
  | other {status : String} {j : Json} (h : ∀ members, j ≠ .object members) : Replied (status, j) j

structure HoldsSlots (title : String) (m : Method) (s : Schema) (slots : List (String × Json)) :
    Prop where
  keys : Table.keys slots = (s.present m).map Slot.title
  request : ∀ slot ∈ s.present m, ∀ j, s.fragment? slot = some j →
    ∃ j', Table.get? slot.title slots = some j' ∧ Requested (title ++ slot.title) j j'
  reply : ∀ replies, s.response = some replies → ∃ reply entries,
    Table.get? "Reply" slots = some (.object reply) ∧
      Table.get? "oneOf" reply = some (.array entries) ∧
      List.Forall₂ Replied (statuses replies) entries

/-- The node of a method for a schema.  Without slots it says nothing about properties. -/
structure MethodNode (title : String) (m : Method) (s : Schema) (node : List (String × Json)) :
    Prop where
  absent : s.present m = [] →
    Table.get? "properties" node = none ∧ Table.get? "required" node = none
  slots : s.present m ≠ [] → ∃ slots, Table.get? "properties" node = some (.object slots) ∧
    Table.get? "required" node = some (.array ((Table.keys slots).map .string)) ∧
    HoldsSlots title m s slots

section slots

variable {title : String} {s : Schema} {m : Method}

theorem ownTitle?_eq_some_iff {members : List (String × Json)} {t : String} :
    ownTitle? members = some t ↔ Table.get? "title" members = some (.string t) ∧ t ≠ "" := by
  rw [ownTitle?, Option.filter_eq_some_iff, Option.bind_eq_some_iff]
  constructor
  · rintro ⟨⟨j, hj, ht⟩, hne⟩
    cases j with
    | string u =>
      obtain rfl := Option.some.inj ht
      exact ⟨hj, by simpa using hne⟩
    | _ => cases ht
  · rintro ⟨hj, hne⟩
    exact ⟨⟨_, hj, rfl⟩, by simpa using hne⟩

theorem requested_request (title : String) (j : Json) : Requested title j (request title j) := by
  cases j with
  | object members =>
    unfold request
    dsimp only
    cases ht : ownTitle? members with
    | none =>
      refine .titled fun t h => ?_
      by_contra hne
      rw [ownTitle?_eq_some_iff.2 ⟨h, hne⟩] at ht
      cases ht
    | some t =>
      obtain ⟨h, hne⟩ := ownTitle?_eq_some_iff.1 ht
      exact .own h hne
  | _ => exact .other fun _ h => by cases h

theorem replied_responses (title : String) (rs : List (String × Json)) :
    List.Forall₂ Replied rs (responses title rs) := by
  unfold responses
  rw [List.forall₂_map_right_iff, List.forall₂_same]
  rintro ⟨status, j⟩ -
  cases j with
  | object members =>
    cases href : Table.get? "$ref" members with
    | none =>
      have hclass : Fragment.ofJson (.object members) = .inlined members := by
        simp [Fragment.ofJson, Table.contains, href]
      dsimp only
      rw [hclass]
      exact .titled _ href
    | some j =>
      have hclass : Fragment.ofJson (.object members) = .reference members := by
        simp [Fragment.ofJson, Table.contains, href]
      dsimp only
      rw [hclass]
      exact .reference href
  | _ => exact .other fun _ h => by cases h

/-- A method has the slots in use among all slots, the body only if it has one. -/
theorem present_eq_filter (title : String) (s : Schema) (m : Method) :
    s.present m = m.slots.filter fun slot => (slot? title s slot).isSome := by
  have hbody : (m == .post || m == .put || m == .patch) = m.hasBody := by cases m <;> rfl
  have hslots : m.slots = Slot.all.filter fun slot => slot != .body || m.hasBody := by
    cases m <;> rfl
  rw [hslots, List.filter_filter]
  refine List.filter_congr fun slot _ => ?_
  cases slot <;> simp [slot?, Schema.fragment?, hbody]

def slotEntries (title : String) (s : Schema) (m : Method) : List (String × Json) :=
  m.slots.filterMap fun slot => (slot? title s slot).map (slot.title, ·)

theorem keys_slotEntries (title : String) (s : Schema) (m : Method) :
    Table.keys (slotEntries title s m) = (s.present m).map Slot.title := by
  rw [present_eq_filter title, slotEntries]
  induction m.slots with
  | nil => rfl
  | cons slot slots ih =>
    cases h : slot? title s slot with
    | none => simpa [h] using ih
    | some j => simpa [h, Table.keys] using ih

theorem nodup_keys_slotEntries (title : String) (s : Schema) (m : Method) :
    (Table.keys (slotEntries title s m)).Nodup := by
  have hall : (Slot.all.map Slot.title).Nodup := by decide
  rw [keys_slotEntries]
  exact hall.sublist (List.filter_sublist.map _)

theorem get?_slotEntries {slot : Slot} (hslot : slot ∈ s.present m) :
    Table.get? slot.title (slotEntries title s m) = slot? title s slot := by
  rw [present_eq_filter title, List.mem_filter] at hslot
  obtain ⟨j, hj⟩ := Option.isSome_iff_exists.1 hslot.2
  rw [hj]
  refine Table.get?_of_mem (nodup_keys_slotEntries title s m) ?_
  exact List.mem_filterMap.2 ⟨slot, hslot.1, by rw [hj]; rfl⟩

theorem slots?_eq (title : String) (s : Schema) (m : Method) :
    slots? title s m.slots =
      if s.present m = [] then none else some (slotEntries title s m) := by
  have hkeys := keys_slotEntries title s m
  unfold slots?
  rw [← slotEntries, Table.ofList_of_nodup (nodup_keys_slotEntries title s m)]
  cases hs : slotEntries title s m with
  | nil =>
    rw [hs] at hkeys
    rw [if_pos (List.map_eq_nil_iff.1 hkeys.symm)]
  | cons e entries =>
    rw [hs] at hkeys
    rw [if_neg fun h => by rw [h] at hkeys; cases hkeys]

theorem holdsSlots_slotEntries (title : String) (s : Schema) (m : Method) :
    HoldsSlots title m s (slotEntries title s m) where
  keys := keys_slotEntries title s m
  request slot hslot j hj := by
    have hslot? : slot? title s slot = some (request (title ++ slot.title) j) := by
      cases slot with
      | response => cases hj
      | _ => simp [slot?, hj]
    exact ⟨_, (get?_slotEntries hslot).trans hslot?, requested_request _ j⟩
  reply replies hreplies := by
    have hslot : Slot.response ∈ s.present m := by simp [Schema.present, hreplies]
    have hslot? : slot? title s .response =
        some (Document.reply (title ++ Slot.response.title) replies) := by
      simp [slot?, hreplies]
    refine ⟨_, _, (get?_slotEntries hslot).trans hslot?, (Table.get?_insert _ _ _ _).trans
      (if_pos rfl), ?_⟩
    exact replied_responses _ (statuses replies)

end slots

section nodes

theorem get?_objectNode (title : Option String) (properties : Option (List (String × Json))) :
    Table.get? "properties" (objectNode title properties) = properties.map .object ∧
      Table.get? "required" (objectNode title properties) =
        properties.map fun ps => .array ((Table.keys ps).map .string) := by
  cases title <;> cases properties <;> simp [objectNode, Table.get?_cons]

def methodMembers (title : String) (s : Schema) (m : Method) : List (String × Json) :=
  let node := objectNode (some (title ++ m.title)) (slots? (title ++ m.title) s m.slots)
  match s.description with
  | none => node
  | some d => Table.insert "description" d node

theorem methodNode_eq (title : String) (s : Schema) (m : Method) :
    methodNode title s m = .object (methodMembers title s m) := rfl

theorem methodNode_methodMembers (title : String) (s : Schema) (m : Method) :
    MethodNode (title ++ m.title) m s (methodMembers title s m) := by
  -- a description comes in under a key of its own
  have hget : ∀ key, key ≠ "description" → Table.get? key (methodMembers title s m) =
      Table.get? key
        (objectNode (some (title ++ m.title)) (slots? (title ++ m.title) s m.slots)) := by
    intro key hkey
    unfold methodMembers
    cases s.description with
    | none => rfl
    | some d => exact (Table.get?_insert _ _ _ _).trans (if_neg hkey)
  obtain ⟨hproperties, hrequired⟩ := get?_objectNode (some (title ++ m.title))
    (slots? (title ++ m.title) s m.slots)
  rw [← hget _ (by decide), slots?_eq] at hproperties hrequired
  constructor
  · intro hnone
    rw [if_pos hnone] at hproperties hrequired
    exact ⟨hproperties, hrequired⟩
  · intro hsome
    rw [if_neg hsome] at hproperties hrequired
    exact ⟨_, hproperties, hrequired, holdsSlots_slotEntries _ s m⟩

end nodes

section methods

variable {ignoreHead : Bool} {r : Record} {m : Method}

theorem upper_injective {m m' : Method} (h : m.upper = m'.upper) : m = m' := by
  revert h
  cases m <;> cases m' <;> decide

theorem ofName?_eq_some_iff {name : String} :
    Method.ofName? name = some m ↔ upperName name = m.upper := by
  have hname : ∀ m : Method, (m.upper.toList = name.toList.map Char.toUpper) ↔
      upperName name = m.upper := by
    intro m
    rw [upperName, eq_comm, ← String.toList_inj, String.toList_ofList]
  constructor
  · intro h
    exact (hname m).1 (by simpa using List.find?_some h)
  · intro h
    have hmem : m ∈ Method.all := by cases m <;> decide
    -- the method that is found has the same name in capitals, so it is this one
    cases hfound : Method.ofName? name with
    | none =>
      have := List.find?_eq_none.1 hfound m hmem
      exact absurd ((hname m).2 h) (by simpa using this)
    | some m' =>
      have := (hname m').1 (by simpa using List.find?_some hfound)
      rw [upper_injective (this.symm.trans h)]

def wanted (ignoreHead : Bool) (m : Method) : Bool :=
  !(ignoreHead && m == .head)

theorem mem_methodsOf : m ∈ methodsOf ignoreHead r ↔ r.Declares m ∧ wanted ignoreHead m := by
  unfold methodsOf Record.Declares
  rw [List.mem_filterMap]
  constructor
  · rintro ⟨name, hname, h⟩
    obtain ⟨h, hwanted⟩ := Option.filter_eq_some_iff.1 h
    exact ⟨⟨name, hname, ofName?_eq_some_iff.1 h⟩, hwanted⟩
  · rintro ⟨⟨name, hname, h⟩, hwanted⟩
    exact ⟨name, hname, Option.filter_eq_some_iff.2 ⟨ofName?_eq_some_iff.2 h, hwanted⟩⟩

theorem map_upper_methodsOf (ignoreHead : Bool) (r : Record) :
    (methodsOf ignoreHead r).map Method.upper = (r.method.names.map upperName).filter fun name =>
      (Method.all.map Method.upper).contains name && !(ignoreHead && name == "HEAD") := by
  have hhead : ∀ m : Method, (m.upper == "HEAD") = (m == .head) := by
    intro m
    cases m <;> rfl
  unfold methodsOf
  induction r.method.names with
  | nil => rfl
  | cons name names ih =>
    rw [List.filterMap_cons, List.map_cons, List.filter_cons, ← ih]
    cases h : Method.ofName? name with
    | none =>
      -- a name of no method is no name of a method in capitals either
      have hunknown : (Method.all.map Method.upper).contains (upperName name) = false := by
        by_contra hknown
        rw [Bool.not_eq_false, List.contains_iff_mem] at hknown
        obtain ⟨m, -, hm⟩ := List.mem_map.1 hknown
        rw [ofName?_eq_some_iff.2 hm.symm] at h
        cases h
      rw [hunknown]
      rfl
    | some m =>
      have hname := ofName?_eq_some_iff.1 h
      have hknown : (Method.all.map Method.upper).contains m.upper = true := by cases m <;> decide
      rw [hname, hknown, hhead]
      cases hwanted : !(ignoreHead && m == .head) with
      | true => simp [Option.filter, hwanted]
      | false => simp [Option.filter, hwanted]

theorem keys_methods (title : String) (route : List Record) (ignoreHead : Bool) :
    Table.keys (methods title route ignoreHead) = declaredMethods ignoreHead route := by
  rw [methods, Table.keys_ofList, declaredMethods]
  congr 1
  induction route with
  | nil => rfl
  | cons r route ih =>
    simp only [List.flatMap_cons, List.map_append, List.filter_append, ih, ← map_upper_methodsOf,
      List.map_map]
    rfl

theorem get?_ofList_map (node : Method → Json) (ms : List Method) :
    Table.get? m.upper (Table.ofList (ms.map fun m => (m.upper, node m))) =
      if m ∈ ms then some (node m) else none := by
  induction ms using List.reverseRecOn with
  | nil => rfl
  | append_singleton ms m' ih =>
    rw [List.map_append, List.map_singleton, Table.ofList_concat, Table.get?_insert, ih]
    by_cases hm : m = m'
    · simp [hm]
    · have hne : m.upper ≠ m'.upper := fun h => hm (upper_injective h)
      simp [hm, hne]

/-- A method has the node of the last record that declares it. -/
theorem get?_methods (title : String) {route : List Record} (hm : wanted ignoreHead m)
    (hroute : ∃ r ∈ route, r.Declares m) :
    ∃ before r after, route = before ++ r :: after ∧ r.Declares m ∧
      (∀ r' ∈ after, ¬ r'.Declares m) ∧
      Table.get? m.upper (methods title route ignoreHead) =
        some (methodNode title (r.schema.getD .empty) m) := by
  -- from the end, because a later record takes the place of an earlier one
  induction route using List.reverseRecOn with
  | nil => simp at hroute
  | append_singleton route r ih =>
    have hget : Table.get? m.upper (methods title (route ++ [r]) ignoreHead) =
        if m ∈ methodsOf ignoreHead r then some (methodNode title (r.schema.getD .empty) m)
        else Table.get? m.upper (methods title route ignoreHead) := by
      rw [methods, List.flatMap_append, List.flatMap_singleton, Table.get?_ofList_append,
        get?_ofList_map, ← methods]
      split <;> rfl
    by_cases hr : r.Declares m
    · refine ⟨route, r, [], rfl, hr, by simp, ?_⟩
      rw [hget, if_pos (mem_methodsOf.2 ⟨hr, hm⟩)]
    · obtain ⟨r', hr', hdeclares⟩ := hroute
      have hearlier : ∃ r ∈ route, r.Declares m := by
        obtain hr' | hr' := List.mem_append.1 hr'
        · exact ⟨r', hr', hdeclares⟩
        · obtain rfl := List.mem_singleton.1 hr'
          exact absurd hdeclares hr
      obtain ⟨before, r', after, rfl, hr', hafter, hnode⟩ := ih hearlier
      refine ⟨before, r', after ++ [r], by simp, hr', ?_, ?_⟩
      · intro r'' hmem
        obtain hmem | hmem := List.mem_append.1 hmem
        · exact hafter r'' hmem
        · obtain rfl := List.mem_singleton.1 hmem
          exact hr
      · rw [hget, if_neg fun h => hr (mem_methodsOf.1 h).1]
        exact hnode

theorem exists_upper_of_mem {route : List Record} {name : String}
    (h : name ∈ declaredMethods ignoreHead route) : ∃ m : Method, name = m.upper := by
  rw [declaredMethods, List.mem_eraseDups, List.mem_filter, Bool.and_eq_true,
    List.contains_iff_mem] at h
  obtain ⟨m, -, hm⟩ := List.mem_map.1 h.2.1
  exact ⟨m, hm.symm⟩

theorem exists_declares {route : List Record} (h : m.upper ∈ declaredMethods ignoreHead route) :
    wanted ignoreHead m ∧ ∃ r ∈ route, r.Declares m := by
  have hhead : (m.upper == "HEAD") = (m == .head) := by cases m <;> rfl
  rw [declaredMethods, List.mem_eraseDups, List.mem_filter, Bool.and_eq_true] at h
  obtain ⟨hname, -, hwanted⟩ := h
  obtain ⟨name, hname, hupper⟩ := List.mem_map.1 hname
  obtain ⟨r, hr, hname⟩ := List.mem_flatMap.1 hname
  refine ⟨?_, r, hr, name, hname, hupper⟩
  rwa [wanted, ← hhead]

end methods

section routes

variable {ignoreHead : Bool} {registry : Naming.Registry} {rs : Routes}

def PathNode (ignoreHead : Bool) (e : String × List Record) (node : String × Json) : Prop :=
  node.1 = e.1 ∧
    ∃ title, node.2 = .object (objectNode none (some (methods title e.2 ignoreHead)))

theorem forall₂_routeNodes (ignoreHead : Bool) (registry : Naming.Registry) (rs : Routes) :
    List.Forall₂ (PathNode ignoreHead) rs (routeNodes ignoreHead registry rs).1 := by
  induction rs generalizing registry with
  | nil => exact .nil
  | cons e rs ih =>
    obtain ⟨path, route⟩ := e
    exact .cons ⟨rfl, _, rfl⟩ (ih _)

theorem keys_of_forall₂ {nodes : List (String × Json)}
    (h : List.Forall₂ (PathNode ignoreHead) rs nodes) : Table.keys nodes = rs.map Prod.fst := by
  induction h with
  | nil => rfl
  | cons he _ ih => exact congrArg₂ List.cons he.1 ih

/-- Different paths have their nodes in the order of the routes. -/
theorem forall₂_paths (hrs : (rs.map Prod.fst).Nodup) :
    List.Forall₂ (PathNode ignoreHead) rs (paths ignoreHead registry rs).1 := by
  have hnodes := forall₂_routeNodes ignoreHead registry rs
  have hkeys := keys_of_forall₂ hnodes
  change List.Forall₂ _ rs (Table.ofList (routeNodes ignoreHead registry rs).1)
  rwa [Table.ofList_of_nodup (hkeys ▸ hrs)]

theorem nodup_of_sorted (hrs : rs.Pairwise fun a b => a.1 < b.1) : (rs.map Prod.fst).Nodup :=
  (List.pairwise_map.2 hrs).imp fun h => (ne_of_lt h)

theorem mem_addRecord {r : Record} {e : String × List Record} (h : e ∈ addRecord r rs) :
    e.1 = r.url ∨ ∃ e' ∈ rs, e'.1 = e.1 := by
  induction rs with
  | nil =>
    obtain rfl := List.mem_singleton.1 h
    exact .inl rfl
  | cons e' rs ih =>
    obtain ⟨path, route⟩ := e'
    unfold addRecord at h
    split at h
    · next hpath =>
      obtain rfl | h := List.mem_cons.1 h
      · exact .inl hpath
      · exact .inr ⟨e, List.mem_cons_of_mem _ h, rfl⟩
    · split at h
      · obtain rfl | h := List.mem_cons.1 h
        · exact .inl rfl
        · exact .inr ⟨e, h, rfl⟩
      · obtain rfl | h := List.mem_cons.1 h
        · exact .inr ⟨_, List.mem_cons_self, rfl⟩
        · obtain h | ⟨e', he', h⟩ := ih h
          · exact .inl h
          · exact .inr ⟨e', List.mem_cons_of_mem _ he', h⟩

theorem sorted_addRecord (r : Record) (hrs : rs.Pairwise fun a b => a.1 < b.1) :
    (addRecord r rs).Pairwise fun a b => a.1 < b.1 := by
  -- the cases are those of `addRecord`: the path stands here, it belongs before this one, or
  -- further on
  induction rs with
  | nil => simp [addRecord]
  | cons e rs ih =>
    obtain ⟨path, route⟩ := e
    obtain ⟨hpath, hrest⟩ := List.pairwise_cons.1 hrs
    unfold addRecord
    split
    · exact List.pairwise_cons.2 ⟨hpath, hrest⟩
    · next hne =>
      split
      · next hlt =>
        refine List.pairwise_cons.2 ⟨fun e he => ?_, hrs⟩
        obtain rfl | he := List.mem_cons.1 he
        · exact hlt
        · exact hlt.trans (hpath e he)
      · next hlt =>
        refine List.pairwise_cons.2 ⟨fun e he => ?_, ih hrest⟩
        obtain he | ⟨e', he', he⟩ := mem_addRecord he
        · rw [he]
          exact lt_of_le_of_ne (not_lt.1 hlt) hne
        · exact he ▸ hpath e' he'

/-- Records are grouped into a map: its paths are in order and each stands once. -/
theorem sorted_group (records : List Record) :
    (Route.group records).Pairwise fun a b => a.1 < b.1 := by
  unfold Route.group
  induction records using List.reverseRecOn with
  | nil => exact .nil
  | append_singleton records r ih =>
    rw [List.foldl_append]
    exact sorted_addRecord r ih

/-- The document says what the routes say. -/
theorem build_faithful (ds : List (String × Json)) (ignoreHead : Bool)
    (registry : Naming.Registry) (hrs : rs.Pairwise fun a b => a.1 < b.1) :
    ∃ members paths, (build rs ds ignoreHead registry).1 = .object members ∧
      Table.get? "definitions" members = some (.object ds) ∧
      Table.get? "properties" members = some (.object paths) ∧
      Table.keys paths = rs.map Prod.fst ∧ (Table.keys paths).Pairwise (· < ·) ∧
      ∀ e ∈ rs, ∃ title node methods, Table.get? e.1 paths = some (.object node) ∧
        Table.get? "properties" node = some (.object methods) ∧
        Table.keys methods = declaredMethods ignoreHead e.2 ∧
        ∀ m : Method, m.upper ∈ declaredMethods ignoreHead e.2 →
          ∃ before r after, e.2 = before ++ r :: after ∧ r.Declares m ∧
            (∀ r' ∈ after, ¬ r'.Declares m) ∧
            ∃ node, Table.get? m.upper methods = some (.object node) ∧
              MethodNode (title ++ m.title) m (r.schema.getD .empty) node := by
  have hnodes : List.Forall₂ (PathNode ignoreHead) rs (paths ignoreHead registry rs).1 :=
    forall₂_paths (nodup_of_sorted hrs)
  have hkeys := keys_of_forall₂ hnodes
  obtain ⟨hproperties, -⟩ := get?_objectNode (some rootName)
    (some (paths ignoreHead registry rs).1)
  refine ⟨_, (paths ignoreHead registry rs).1, rfl, ?_, ?_, hkeys, ?_, ?_⟩
  · rw [Table.get?_insert, if_pos rfl]
  · rw [Table.get?_insert, if_neg (by decide)]
    exact hproperties
  · rw [hkeys]
    exact List.pairwise_map.2 hrs
  · -- the nodes stand in the order of the routes, each under a path of its own
    intro e he
    obtain ⟨⟨path, j⟩, hnode, rfl, title, rfl⟩ := hnodes.exists_right he
    obtain ⟨hmethods, -⟩ := get?_objectNode none (some (methods title e.2 ignoreHead))
    have hnodup : (Table.keys (paths ignoreHead registry rs).1).Nodup :=
      hkeys ▸ nodup_of_sorted hrs
    refine ⟨title, _, _, Table.get?_of_mem hnodup hnode, hmethods,
      keys_methods title e.2 ignoreHead, fun m hm => ?_⟩
    obtain ⟨hwanted, hdeclared⟩ := exists_declares hm
    obtain ⟨before, r, after, hsplit, hr, hafter, hget⟩ := get?_methods title hwanted hdeclared
    exact ⟨before, r, after, hsplit, hr, hafter, _, hget,
      methodNode_methodMembers title _ m⟩

/-- Two paths out of order, one with methods declared twice, in other cases or unknown. -/
def itemRoutes : Routes :=
  Route.group [
    ⟨"/items", .many ["get", "Head", "TRACE"], none⟩,
    ⟨"/", .one "POST", some { Schema.empty with
      body := some (.object [("type", .string "string")])
      response := some [("title", .string "Made"), ("201", .bool true)] }⟩,
    ⟨"/items", .one "GET", some { Schema.empty with params := some (.object []) }⟩]

theorem build_faithful_itemRoutes : ∃ members paths,
    (build itemRoutes [] true .empty).1 = .object members ∧
      Table.get? "properties" members = some (.object paths) ∧
      Table.keys paths = ["/", "/items"] ∧
      ∃ node methods, Table.get? "/items" paths = some (.object node) ∧
        Table.get? "properties" node = some (.object methods) ∧ Table.keys methods = ["GET"] := by
  have hsorted : itemRoutes.Pairwise fun a b => a.1 < b.1 := sorted_group _
  obtain ⟨members, paths, hbuild, -, hpaths, hkeys, -, hroutes⟩ :=
    build_faithful [] true .empty hsorted
  have hlast : itemRoutes.getLast? = some ("/items", [
      ⟨"/items", .many ["get", "Head", "TRACE"], none⟩,
      ⟨"/items", .one "GET", some { Schema.empty with params := some (.object []) }⟩]) := by
    rfl
  obtain ⟨title, node, methods, hnode, hmethods, hdeclared, -⟩ :=
    hroutes _ (List.mem_of_getLast? hlast)
  exact ⟨members, paths, hbuild, hpaths, hkeys.trans (by decide), node, methods, hnode, hmethods,
    hdeclared.trans (by decide)⟩

end routes

end Document

end ApiTypes
