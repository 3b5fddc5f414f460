import ApiTypes.Proofs.Route.Reading

namespace ApiTypes.Route

open Json

structure Schema.Settled (s : Schema) : Prop where
  fields : ∀ f ∈ s.fields, ∀ j, f.2 = some j → j.isNull = false ∧ j.Settled
  keys : (Table.keys s.extra).Nodup
  extra : ∀ m ∈ s.extra, m.1 ∉ Schema.fieldNames ∧ m.2.Settled

def Record.Settled (r : Record) : Prop :=
  ∀ s, r.schema = some s → s.Settled

structure RouteSet.Settled (set : RouteSet) : Prop where
  routes : ∀ r ∈ set.routes, r.Settled
  schemas : ∀ j ∈ set.schemas, j.Settled

/-- A schema is written with all members of an object but null under a key with a meaning; the
other keys keep their order. -/
structure Schema.Keeps (s : Schema) (members : List (String × Json)) : Prop where
  written : ∃ written, s.toJson = .object written ∧ written.Perm
    (members.filter fun m => !(Schema.fieldNames.contains m.1 && m.2.isNull))
  extra : s.extra = members.filter fun m => !Schema.fieldNames.contains m.1

structure Record.Keeps (r : Record) (j : Json) : Prop where
  url : j.fieldAt? "url" 0 = some (.string r.url)
  method : j.fieldAt? "method" 1 = some r.method.toJson
  schema : (∀ i, j.fieldAt? "schema" 2 = some i → i.isNull) ∧ r.schema = none ∨
    ∃ members s, j.fieldAt? "schema" 2 = some (.object members) ∧ r.schema = some s ∧
      s.Keeps members

structure RouteSet.Keeps (set : RouteSet) (j : Json) : Prop where
  routes : ∃ items, (j.fieldAt? "routes" 0).getD (.array []) = .array items ∧
    List.Forall₂ Record.Keeps set.routes items
  schemas : (j.fieldAt? "schemas" 1).getD (.array []) = .array set.schemas

section schemas

variable {s : Schema} {members : List (String × Json)}

namespace Schema.Settled

variable (h : s.Settled)
include h

theorem keys_members : (Table.keys s.members).Nodup := by
  have hnames : Schema.fieldNames.Nodup := by decide
  have hpresent := keys_present s.fields
  rw [s.keys_fields] at hpresent
  unfold Schema.members
  rw [Table.keys, List.map_append]
  refine (hnames.sublist hpresent).append h.keys fun key hkey hextra => ?_
  obtain ⟨m, hm, rfl⟩ := List.mem_map.1 hextra
  exact (h.extra m hm).1 (hpresent.subset hkey)

theorem settled_members : ∀ m ∈ s.members, m.2.Settled := by
  intro m hm
  obtain ⟨f, hf, -, hj⟩ | hm := mem_members_iff.1 hm
  · exact (h.fields f hf m.2 hj).2
  · exact (h.extra m hm).2

theorem get?_members {f : String × Option Json} (hf : f ∈ s.fields) :
    Table.get? f.1 s.members = f.2 := by
  have hnames : (s.fields.map Prod.fst).Nodup := by
    rw [s.keys_fields]
    decide
  refine Option.ext fun j => ⟨fun hj => ?_, fun hj =>
    Table.get?_of_mem h.keys_members (mem_members_iff.2 (.inl ⟨f, hf, rfl, hj⟩))⟩
  obtain ⟨f', hf', hkey, hj⟩ | hm := mem_members_iff.1 (Table.mem_of_get? hj)
  · rwa [List.inj_on_of_nodup_map hnames hf' hf hkey] at hj
  · exact absurd (fst_mem_fieldNames hf) (h.extra _ hm).1

theorem ofMembers?_members : Schema.ofMembers? s.members = some s := by
  refine ofMembers?_eq_some_iff.2 ⟨fun f hf => ?_, ?_⟩
  · rw [field?_eq h.keys_members, h.get?_members hf]
    cases hj : f.2 with
    | none => rfl
    | some j => simp [(h.fields f hf j hj).1]
  · -- the fields and the other keys are told apart again by their names
    have hfields : (s.fields.filterMap fun f => f.2.map (f.1, ·)).filter
        (fun m => !Schema.fieldNames.contains m.1) = [] := by
      refine List.filter_eq_nil_iff.2 fun m hm => ?_
      have hkey := (keys_present s.fields).subset (List.mem_map_of_mem hm)
      rw [s.keys_fields] at hkey
      simpa using hkey
    have hextra : s.extra.filter (fun m => !Schema.fieldNames.contains m.1) = s.extra :=
      List.filter_eq_self.2 fun m hm => by simpa using (h.extra m hm).1
    rw [Schema.members, List.filter_append, hfields, hextra, List.nil_append,
      Table.ofList_of_nodup h.keys]

/-- A schema that was read is read again from what it is written as. -/
theorem ofDraft?_toJson : Schema.ofDraft? (.ofJson s.toJson) = some s := by
  rw [s.toJson_eq]
  show (Draft.members? (Draft.ofMembers s.members)).bind Schema.ofMembers? = some s
  rw [members?_ofMembers h.settled_members]
  exact h.ofMembers?_members

end Schema.Settled

theorem Schema.settled_of_ofMembers? (hmembers : ∀ m ∈ members, m.2.Settled)
    (h : Schema.ofMembers? members = some s) : s.Settled := by
  obtain ⟨hfields, hextra⟩ := ofMembers?_eq_some_iff.1 h
  refine ⟨fun f hf j hj => ?_, ?_, fun m hm => ?_⟩
  · have hfield := hfields f hf
    rw [hj] at hfield
    obtain ⟨hnull, hmem⟩ := mem_of_field? hfield
    exact ⟨hnull, hmembers _ hmem⟩
  · rw [hextra]
    exact Table.nodup_keys_ofList _
  · rw [hextra] at hm
    obtain ⟨hmem, hkey⟩ := List.mem_filter.1 (Table.mem_of_mem_ofList hm)
    exact ⟨by simpa using hkey, hmembers m hmem⟩

theorem Schema.settled_of_ofDraft? {d : Draft} (h : Schema.ofDraft? d = some s) : s.Settled := by
  cases d with
  | object ds =>
    obtain ⟨members, hmembers, h⟩ := Option.bind_eq_some_iff.1 h
    exact Schema.settled_of_ofMembers? (settled_of_members? ds members hmembers) h
  | _ => cases h

theorem Schema.extra_eq_filter (hkeys : (Table.keys members).Nodup)
    (h : Schema.ofMembers? members = some s) :
    s.extra = members.filter fun m => !Schema.fieldNames.contains m.1 := by
  have hothers : (Table.keys (members.filter fun m => !Schema.fieldNames.contains m.1)).Nodup :=
    hkeys.sublist (List.filter_sublist.map _)
  rw [(ofMembers?_eq_some_iff.1 h).2, Table.ofList_of_nodup hothers]

/-- Nothing of an object is lost in a schema but null under a key with a meaning. -/
theorem Schema.mem_members_iff_of_ofMembers? (hkeys : (Table.keys members).Nodup)
    (h : Schema.ofMembers? members = some s) (m : String × Json) :
    m ∈ s.members ↔
      m ∈ members ∧ (!(Schema.fieldNames.contains m.1 && m.2.isNull)) = true := by
  have hfields := (ofMembers?_eq_some_iff.1 h).1
  rw [mem_members_iff, Schema.extra_eq_filter hkeys h, List.mem_filter]
  constructor
  · rintro (⟨f, hf, hname, hj⟩ | ⟨hmem, hother⟩)
    · have hfield := hfields f hf
      rw [hname, hj] at hfield
      obtain ⟨hnull, hmem⟩ := mem_of_field? hfield
      exact ⟨hmem, by simp [hnull]⟩
    · exact ⟨hmem, by simpa using Or.inl (by simpa using hother)⟩
  · rintro ⟨hmem, hkept⟩
    by_cases hkey : m.1 ∈ Schema.fieldNames
    · -- the field of the key has the value that is not null
      have hnull : m.2.isNull = false := by simpa [hkey] using hkept
      obtain ⟨f, hf, hname⟩ := List.mem_map.1 (s.keys_fields ▸ hkey)
      have hfield := hfields f hf
      rw [hname, field?_eq hkeys, Table.get?_of_mem hkeys hmem] at hfield
      exact .inl ⟨f, hf, hname, by simpa [Option.filter, hnull] using hfield.symm⟩
    · exact .inr ⟨hmem, by simp [hkey]⟩

theorem Schema.keeps_of_ofMembers? (hkeys : (Table.keys members).Nodup)
    (hmembers : ∀ m ∈ members, m.2.Settled) (h : Schema.ofMembers? members = some s) :
    s.Keeps members := by
  have hsettled := Schema.settled_of_ofMembers? hmembers h
  have hwritten : s.members.Nodup := List.Nodup.of_map _ hsettled.keys_members
  have hread : members.Nodup := List.Nodup.of_map _ hkeys
  refine ⟨⟨_, s.toJson_eq, (List.perm_ext_iff_of_nodup hwritten (hread.filter _)).2 fun m => ?_⟩,
    Schema.extra_eq_filter hkeys h⟩
  rw [Schema.mem_members_iff_of_ofMembers? hkeys h, List.mem_filter]

theorem Schema.keeps_of_ofDraft? {j : Json} (hj : j.isProper)
    (h : Schema.ofDraft? (.ofJson j) = some s) :
    ∃ members, j = .object members ∧ s.Keeps members := by
  cases j with
  | object members =>
    obtain ⟨hkeys, hmembers⟩ := Bool.and_eq_true_iff.1 hj
    have hsettled := settled_of_membersProper members hmembers
    have hread : (Draft.members? (Draft.ofMembers members)).bind Schema.ofMembers? = some s := h
    rw [members?_ofMembers hsettled] at hread
    exact ⟨members, rfl, Schema.keeps_of_ofMembers? (of_decide_eq_true hkeys) hsettled hread⟩
  | _ => cases h

end schemas

section records

variable {r : Record} {set : RouteSet} {d : Draft} {j : Json}

theorem MethodSpec.ofDraft?_toJson (spec : MethodSpec) :
    MethodSpec.ofDraft? (.ofJson spec.toJson) = some spec := by
  cases spec with
  | one name => rfl
  | many names =>
    have hread : (Draft.ofItems (names.map Json.string)).mapM Draft.string? = some names := by
      rw [ofItems_eq_map, List.map_map, List.mapM_eq_some_iff, List.forall₂_map_left_iff,
        List.forall₂_same]
      exact fun _ _ => rfl
    exact congrArg (Option.map MethodSpec.many) hread

theorem Record.settled_of_ofDraft? (h : Record.ofDraft? d = some r) : r.Settled := by
  obtain ⟨url, method, schema, -, -, -, hschema⟩ := Record.ofDraft?_eq_some_iff.1 h
  intro s hs
  rw [hs] at hschema
  obtain ⟨d, -, hread⟩ := eq_some_of_nullable? hschema
  exact Schema.settled_of_ofDraft? hread

theorem Record.fields?_toJson (r : Record) :
    (Draft.ofJson r.toJson).fields? .refused ["url", "method", "schema"] =
      some [some (.string r.url), some (.ofJson r.method.toJson),
        r.schema.map fun s => .ofJson s.toJson] := by
  have hshort : ["url", "method"].Nodup := by decide
  have hlong : ["url", "method", "schema"].Nodup := by decide
  unfold Record.toJson
  cases r.schema with
  | none => exact fields?_object (by exact hshort) _ _
  | some s => exact fields?_object (by exact hlong) _ _

/-- A record whose schema was read is read again from what it is written as. -/
theorem Record.Settled.ofDraft?_toJson (h : r.Settled) :
    Record.ofDraft? (.ofJson r.toJson) = some r := by
  refine Record.ofDraft?_eq_some_iff.2 ⟨_, _, _, r.fields?_toJson, rfl,
    r.method.ofDraft?_toJson, ?_⟩
  cases hs : r.schema with
  | none => rfl
  | some s =>
    have hread := (h s hs).ofDraft?_toJson
    rw [Option.map_some, s.toJson_eq]
    rw [s.toJson_eq] at hread
    exact congrArg (Option.map some) hread

theorem RouteSet.settled_of_ofDraft? (h : RouteSet.ofDraft? d = some set) :
    set.Settled := by
  obtain ⟨routes, schemas, -, hroutes, hschemas⟩ := RouteSet.ofDraft?_eq_some_iff.1 h
  obtain ⟨ds, -, hroutes⟩ := exists_forall₂_of_list? hroutes
  obtain ⟨js, -, hschemas⟩ := exists_forall₂_of_list? hschemas
  constructor
  · intro r hr
    obtain ⟨d, -, hd⟩ := hroutes.exists_left hr
    exact Record.settled_of_ofDraft? hd
  · intro j hj
    obtain ⟨d, -, hd⟩ := hschemas.exists_left hj
    exact settled_of_toJson? d j hd

/-- A route set that was read is read again from what it is written as. -/
theorem RouteSet.Settled.ofDraft?_toJson (h : set.Settled) :
    RouteSet.ofDraft? (.ofJson set.toJson) = some set := by
  have hnames : ["routes", "schemas"].Nodup := by decide
  refine RouteSet.ofDraft?_eq_some_iff.2
    ⟨_, _, fields?_object (by exact hnames) _ _, ?_, ?_⟩
  · show (Draft.ofItems (set.routes.map Record.toJson)).mapM Record.ofDraft? = some set.routes
    rw [ofItems_eq_map, List.map_map, List.mapM_eq_some_iff, List.forall₂_map_left_iff,
      List.forall₂_same]
    exact fun r hr => (h.routes r hr).ofDraft?_toJson
  · show (Draft.ofItems set.schemas).mapM Draft.toJson? = some set.schemas
    rw [ofItems_eq_map, List.mapM_eq_some_iff, List.forall₂_map_left_iff, List.forall₂_same]
    exact h.schemas

theorem Record.keeps_of_ofDraft? (hj : j.isProper)
    (h : Record.ofDraft? (.ofJson j) = some r) : r.Keeps j := by
  obtain ⟨url, method, schema, hfields, hurl, hmethod, hschema⟩ := Record.ofDraft?_eq_some_iff.1 h
  obtain ⟨hurlEntry, hmethodEntry, rfl⟩ : some url = (j.fieldAt? "url" 0).map Draft.ofJson ∧
      some method = (j.fieldAt? "method" 1).map Draft.ofJson ∧
      schema = (j.fieldAt? "schema" 2).map Draft.ofJson := by
    simpa using eq_of_fields? hj hfields
  obtain ⟨u, hu, rfl⟩ := Option.map_eq_some_iff.1 hurlEntry.symm
  obtain ⟨m, hm, rfl⟩ := Option.map_eq_some_iff.1 hmethodEntry.symm
  rw [eq_string_of_string? hurl] at hu
  rw [MethodSpec.eq_toJson_of_ofDraft? hmethod] at hm
  refine ⟨hu, hm, ?_⟩
  -- a schema that is missing or null is none
  cases hs : r.schema with
  | none =>
    refine .inl ⟨fun i hi => ?_, rfl⟩
    rw [hs, hi] at hschema
    exact isNull_of_nullable? hschema
  | some s =>
    rw [hs] at hschema
    obtain ⟨d, hd, hread⟩ := eq_some_of_nullable? hschema
    obtain ⟨i, hi, rfl⟩ := Option.map_eq_some_iff.1 hd
    obtain ⟨members, rfl, hkeeps⟩ := Schema.keeps_of_ofDraft? (isProper_fieldAt? hj hi) hread
    exact .inr ⟨members, s, hi, rfl, hkeeps⟩

theorem RouteSet.keeps_of_ofDraft? (hj : j.isProper)
    (h : RouteSet.ofDraft? (.ofJson j) = some set) : set.Keeps j := by
  obtain ⟨routes, schemas, hfields, hroutes, hschemas⟩ := RouteSet.ofDraft?_eq_some_iff.1 h
  obtain ⟨rfl, rfl⟩ : routes = (j.fieldAt? "routes" 0).map Draft.ofJson ∧
      schemas = (j.fieldAt? "schemas" 1).map Draft.ofJson := by
    simpa using eq_of_fields? hj hfields
  obtain ⟨items, hitems, hread⟩ := exists_forall₂_of_fieldAt? hroutes
  obtain ⟨js, hjs, hjsRead⟩ := exists_forall₂_of_fieldAt? hschemas
  refine ⟨⟨items, hitems, ?_⟩, ?_⟩
  · have hkept := (List.forall₂_and_left items set.routes).2 ⟨isProper_of_list hj hitems, hread⟩
    exact (hkept.imp fun i r hr => Record.keeps_of_ofDraft? hr.1 hr.2).flip
  · have hsame := (List.forall₂_and_left js set.schemas).2 ⟨isProper_of_list hj hjs, hjsRead⟩
    have heq : List.Forall₂ Eq js set.schemas := hsame.imp fun i k hi =>
      Option.some.inj ((settled_of_isProper i hi.1).symm.trans hi.2)
    rw [List.forall₂_eq_eq_eq] at heq
    rw [hjs, heq]

/-- A route set that was read is read again, just as it is, from what it is written as; and it has
all of the document that it was read from, but for what has no meaning in a record and for null
where no value is needed. -/
theorem routeSet_reread (d : Draft) (set : RouteSet) (h : RouteSet.ofDraft? d = some set) :
    RouteSet.ofDraft? (.ofJson set.toJson) = some set ∧
      ∀ j : Json, j.isProper → d = .ofJson j → set.Keeps j := by
  refine ⟨(RouteSet.settled_of_ofDraft? h).ofDraft?_toJson, fun j hj hd => ?_⟩
  rw [hd] at h
  exact RouteSet.keeps_of_ofDraft? hj h

def mixedJson : Json :=
  .object [("version", .number (.integer 1)), ("routes", .array [
    .array [.string "/", .array [.string "GET", .string "brew"]],
    .object [("schema", .null), ("note", .string "later"), ("method", .string "Post"),
      ("url", .string "/a")],
    .object [("url", .string "/b"), ("method", .string "PUT"), ("schema", .object
      [("tags", .array []), ("response", .object [("title", .string "B"), ("200", .null)]),
        ("body", .null), ("summary", .null), ("description", .string "all")])]])]

def mixedSet : RouteSet where
  routes := [⟨"/", .many ["GET", "brew"], none⟩, ⟨"/a", .one "Post", none⟩,
    ⟨"/b", .one "PUT", some { Schema.empty with
      response := some [("title", .string "B"), ("200", .null)]
      description := some (.string "all")
      extra := [("tags", .array []), ("summary", .null)] }⟩]
  schemas := []

theorem routeSet_reread_mixedJson :
    RouteSet.ofDraft? (.ofJson mixedJson) = some mixedSet ∧ mixedJson.isProper ∧
      RouteSet.ofDraft? (.ofJson mixedSet.toJson) = some mixedSet ∧ mixedSet.Keeps mixedJson := by
  have hread : RouteSet.ofDraft? (.ofJson mixedJson) = some mixedSet := by rfl
  have hproper : mixedJson.isProper := by decide
  obtain ⟨hreread, hkeeps⟩ := routeSet_reread (.ofJson mixedJson) mixedSet hread
  exact ⟨hread, hproper, hreread, hkeeps mixedJson hproper rfl⟩

end records

end ApiTypes.Route
