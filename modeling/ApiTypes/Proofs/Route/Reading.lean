import ApiTypes.Proofs.Json.Drafts
import ApiTypes.Route.Set

namespace ApiTypes.Route

open Json

def Schema.fields (s : Schema) : List (String × Option Json) :=
  [("body", s.body), ("querystring", s.querystring), ("params", s.params), ("headers", s.headers),
    ("response", s.response.map .object), ("description", s.description)]

def Schema.members (s : Schema) : List (String × Json) :=
  (s.fields.filterMap fun f => f.2.map (f.1, ·)) ++ s.extra

section schemas

variable {s : Schema} {members : List (String × Json)}

theorem Schema.keys_fields (s : Schema) : s.fields.map Prod.fst = Schema.fieldNames := rfl

theorem Schema.toJson_eq (s : Schema) : s.toJson = .object s.members := by
  obtain ⟨body, querystring, params, headers, response, description, extra⟩ := s
  cases body <;> cases querystring <;> cases params <;> cases headers <;> cases response <;>
    cases description <;> rfl

theorem field?_eq (hkeys : (Table.keys members).Nodup) (name : String) :
    Schema.field? members name = some ((Table.get? name members).filter fun j => !j.isNull) := by
  have hfilter : members.filter (fun m => m.1 = name) =
      ((Table.get? name members).map (name, ·)).toList := Table.filter_key hkeys name
  unfold Schema.field?
  rw [hfilter]
  cases Table.get? name members with
  | none => rfl
  | some j => cases j <;> rfl

/-- A field that was read is not null and stands among the members. -/
theorem mem_of_field? {name : String} {j : Json}
    (h : Schema.field? members name = some (some j)) : j.isNull = false ∧ (name, j) ∈ members := by
  unfold Schema.field? at h
  split at h
  · cases h
  · cases h
  · next key i hnull hfilter =>
    obtain rfl := Option.some.inj (Option.some.inj h)
    have hkept : (key, i) ∈ members.filter fun m => m.1 = name := by
      rw [show members.filter (fun m => m.1 = name) = [(key, i)] from hfilter]
      exact List.mem_cons_self
    obtain ⟨hmem, hname⟩ := List.mem_filter.1 hkept
    obtain rfl : key = name := of_decide_eq_true hname
    refine ⟨?_, hmem⟩
    cases i with
    | null => exact absurd rfl hnull
    | _ => rfl
  · cases h

def replies? : Option Json → Option (Option (List (String × Json)))
  | none => some none
  | some j => j.object?.map some

theorem replies?_eq_some_iff {o : Option Json} {replies : Option (List (String × Json))} :
    replies? o = some replies ↔ o = replies.map .object := by
  cases o with
  | none =>
    cases replies with
    | none => exact iff_of_true rfl rfl
    | some ms => exact iff_of_false (by simp [replies?]) (by simp)
  | some j =>
    cases j with
    | object ms =>
      cases replies with
      | none => exact iff_of_false (by simp [replies?, object?]) (by simp)
      | some ms' => simp [replies?, object?]
    | _ => cases replies <;> simp [replies?, object?]

theorem ofMembers?_eq (members : List (String × Json)) :
    Schema.ofMembers? members = do
      let response ← (Schema.field? members "response").bind replies?
      return {
        body := ← Schema.field? members "body"
        querystring := ← Schema.field? members "querystring"
        params := ← Schema.field? members "params"
        headers := ← Schema.field? members "headers"
        response
        description := ← Schema.field? members "description"
        extra := Table.ofList (members.filter fun m => !Schema.fieldNames.contains m.1) } := by
  unfold Schema.ofMembers?
  dsimp only
  cases Schema.field? members "response" with
  | none => rfl
  | some o => cases o <;> rfl

theorem ofMembers?_eq_some_iff :
    Schema.ofMembers? members = some s ↔
      (∀ f ∈ s.fields, Schema.field? members f.1 = some f.2) ∧
        s.extra = Table.ofList (members.filter fun m => !Schema.fieldNames.contains m.1) := by
  obtain ⟨body, querystring, params, headers, response, description, extra⟩ := s
  rw [ofMembers?_eq]
  simp only [Schema.fields, List.forall_mem_cons, List.not_mem_nil, false_imp_iff, implies_true,
    and_true]
  constructor
  · intro h
    obtain ⟨replies, hreplies, h⟩ := Option.bind_eq_some_iff.1 h
    obtain ⟨o, ho, hreplies⟩ := Option.bind_eq_some_iff.1 hreplies
    obtain rfl := replies?_eq_some_iff.1 hreplies
    obtain ⟨b, hb, h⟩ := Option.bind_eq_some_iff.1 h
    obtain ⟨q, hq, h⟩ := Option.bind_eq_some_iff.1 h
    obtain ⟨p, hp, h⟩ := Option.bind_eq_some_iff.1 h
    obtain ⟨hd, hhd, h⟩ := Option.bind_eq_some_iff.1 h
    obtain ⟨ds, hds, h⟩ := Option.bind_eq_some_iff.1 h
    obtain ⟨rfl, rfl, rfl, rfl, rfl, rfl, rfl⟩ := Schema.mk.inj (Option.some.inj h)
    exact ⟨⟨hb, hq, hp, hhd, ho, hds⟩, rfl⟩
  · rintro ⟨⟨hb, hq, hp, hhd, ho, hds⟩, rfl⟩
    have hreplies : replies? (response.map .object) = some response := replies?_eq_some_iff.2 rfl
    rw [hb, hq, hp, hhd, ho, hds, Option.bind_some, hreplies]
    rfl

theorem mem_members_iff {m : String × Json} :
    m ∈ s.members ↔ (∃ f ∈ s.fields, f.1 = m.1 ∧ f.2 = some m.2) ∨ m ∈ s.extra := by
  obtain ⟨key, j⟩ := m
  rw [Schema.members, List.mem_append, List.mem_filterMap]
  simp only [Option.map_eq_some_iff, Prod.mk.injEq]
  exact or_congr_left ⟨fun ⟨f, hf, i, hi, hkey, hj⟩ => ⟨f, hf, hkey, hj ▸ hi⟩,
    fun ⟨f, hf, hkey, hj⟩ => ⟨f, hf, j, hj, hkey, rfl⟩⟩

theorem fst_mem_fieldNames {f : String × Option Json} (hf : f ∈ s.fields) :
    f.1 ∈ Schema.fieldNames :=
  s.keys_fields ▸ List.mem_map_of_mem hf

theorem keys_present (fields : List (String × Option Json)) :
    (Table.keys (fields.filterMap fun f => f.2.map (f.1, ·))).Sublist (fields.map Prod.fst) := by
  induction fields with
  | nil => exact .slnil
  | cons f fields ih =>
    cases hf : f.2 with
    | none => simpa [hf] using ih.cons f.1
    | some j => simpa [hf, Table.keys] using ih.cons_cons f.1

end schemas

section records

variable {r : Record} {set : RouteSet} {d : Draft}

theorem MethodSpec.eq_toJson_of_ofDraft? {j : Json} {spec : MethodSpec}
    (h : MethodSpec.ofDraft? (.ofJson j) = some spec) : j = spec.toJson := by
  cases j with
  | string name =>
    obtain rfl := Option.some.inj h
    rfl
  | array items =>
    obtain ⟨names, hnames, rfl⟩ := Option.map_eq_some_iff.1 h
    have hread : (Draft.ofItems items).mapM Draft.string? = some names := hnames
    rw [ofItems_eq_map, List.mapM_eq_some_iff, List.forall₂_map_left_iff] at hread
    have hstrings : List.Forall₂ (fun j name => j = Json.string name) items names :=
      hread.imp fun _ _ => eq_string_of_string?
    rw [← List.forall₂_map_right_iff, List.forall₂_eq_eq_eq] at hstrings
    exact congrArg Json.array hstrings
  | _ => cases h

theorem Record.ofDraft?_eq_some_iff :
    Record.ofDraft? d = some r ↔ ∃ url method schema,
      d.fields? .refused ["url", "method", "schema"] = some [some url, some method, schema] ∧
        url.string? = some r.url ∧ MethodSpec.ofDraft? method = some r.method ∧
        Draft.field? none (Draft.nullable? Schema.ofDraft?) schema = some r.schema := by
  unfold Record.ofDraft?
  constructor
  · intro h
    obtain ⟨os, hos, h⟩ := Option.bind_eq_some_iff.1 h
    split at h
    · obtain ⟨url, hurl, h⟩ := Option.bind_eq_some_iff.1 h
      obtain ⟨path, hpath, h⟩ := Option.bind_eq_some_iff.1 h
      obtain ⟨method, hmethod, h⟩ := Option.bind_eq_some_iff.1 h
      obtain ⟨spec, hspec, h⟩ := Option.bind_eq_some_iff.1 h
      obtain ⟨s, hs, h⟩ := Option.bind_eq_some_iff.1 h
      obtain rfl := Option.some.inj h
      rw [hurl, hmethod] at hos
      exact ⟨url, method, _, hos, hpath, hspec, hs⟩
    · cases h
  · rintro ⟨url, method, schema, hfields, hurl, hmethod, hschema⟩
    rw [hfields]
    show url.string?.bind _ = _
    rw [hurl]
    show (MethodSpec.ofDraft? method).bind _ = _
    rw [hmethod]
    show (Draft.field? none (Draft.nullable? Schema.ofDraft?) schema).bind _ = _
    rw [hschema]
    rfl

theorem RouteSet.ofDraft?_eq_some_iff :
    RouteSet.ofDraft? d = some set ↔ ∃ routes schemas,
      d.fields? .refused ["routes", "schemas"] = some [routes, schemas] ∧
        Draft.field? [] (Draft.list? Record.ofDraft?) routes = some set.routes ∧
        Draft.field? [] (Draft.list? Draft.toJson?) schemas = some set.schemas := by
  unfold RouteSet.ofDraft?
  constructor
  · intro h
    obtain ⟨os, hos, h⟩ := Option.bind_eq_some_iff.1 h
    split at h
    · obtain ⟨routes, hroutes, h⟩ := Option.bind_eq_some_iff.1 h
      obtain ⟨schemas, hschemas, h⟩ := Option.bind_eq_some_iff.1 h
      obtain rfl := Option.some.inj h
      exact ⟨_, _, hos, hroutes, hschemas⟩
    · cases h
  · rintro ⟨routes, schemas, hfields, hroutes, hschemas⟩
    rw [hfields]
    show (Draft.field? [] (Draft.list? Record.ofDraft?) routes).bind _ = _
    rw [hroutes]
    show (Draft.field? [] (Draft.list? Draft.toJson?) schemas).bind _ = _
    rw [hschemas]
    rfl

end records

end ApiTypes.Route
