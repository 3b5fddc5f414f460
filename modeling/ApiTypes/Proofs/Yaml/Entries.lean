import ApiTypes.Proofs.Yaml.Conversion

namespace ApiTypes.Yaml

mutual

/-- Nothing of a value is lost in a document: each mapping is an object with as many members as it
has entries, and every entry is found there, converted, under the text of its key. -/
def Value.Keeps : Value → Json → Prop
  | .null, j => j = .null
  | .bool b, j => j = .bool b
  | .number n, j => n.toJson = .ok j
  | .string s, j => j = .string s
  | .sequence items, j => ∃ js, j = .array js ∧ ItemsKept items js
  | .mapping entries, j =>
    ∃ members, j = .object members ∧ members.length = entries.length ∧ EntriesKept members entries
  | .tagged _ v, j => v.Keeps j

def ItemsKept : List Value → List Json → Prop
  | [], js => js = []
  | v :: items, js => ∃ i is, js = i :: is ∧ v.Keeps i ∧ ItemsKept items is

def EntriesKept (members : List (String × Json)) : List (Value × Value) → Prop
  | [] => True
  | (key, v) :: entries =>
    (∃ text i, keyText key = .ok text ∧ v.toJson = .ok i ∧ Table.get? text members = some i ∧
      v.Keeps i) ∧ EntriesKept members entries

end

theorem itemsKept_iff {items : List Value} {js : List Json} :
    ItemsKept items js ↔ List.Forall₂ Value.Keeps items js := by
  induction items generalizing js with
  | nil => rw [ItemsKept, List.forall₂_nil_left_iff]
  | cons v items ih =>
    rw [ItemsKept, List.forall₂_cons_left_iff]
    simp only [ih]
    constructor
    · rintro ⟨i, is, rfl, hv, hitems⟩
      exact ⟨i, is, hv, hitems, rfl⟩
    · rintro ⟨i, is, hv, hitems, rfl⟩
      exact ⟨i, is, rfl, hv, hitems⟩

theorem entriesKept_iff {members : List (String × Json)} {entries : List (Value × Value)} :
    EntriesKept members entries ↔ ∀ e ∈ entries, ∃ text i, keyText e.1 = .ok text ∧
      e.2.toJson = .ok i ∧ Table.get? text members = some i ∧ e.2.Keeps i := by
  induction entries with
  | nil => simp [EntriesKept]
  | cons e entries ih =>
    obtain ⟨key, v⟩ := e
    rw [EntriesKept, ih, List.forall_mem_cons]

theorem keeps_sequence_iff {items : List Value} {js : List Json} :
    (Value.sequence items).Keeps (.array js) ↔ List.Forall₂ Value.Keeps items js := by
  rw [Value.Keeps, ← itemsKept_iff]
  constructor
  · rintro ⟨js', hjs, hitems⟩
    obtain rfl := Json.array.inj hjs
    exact hitems
  · exact fun h => ⟨js, rfl, h⟩

theorem keeps_mapping_iff {entries : List (Value × Value)} {members : List (String × Json)} :
    (Value.mapping entries).Keeps (.object members) ↔ members.length = entries.length ∧
      ∀ e ∈ entries, ∃ text i, keyText e.1 = .ok text ∧ e.2.toJson = .ok i ∧
        Table.get? text members = some i ∧ e.2.Keeps i := by
  rw [Value.Keeps, ← entriesKept_iff]
  constructor
  · rintro ⟨members', hmembers, h⟩
    obtain rfl := Json.object.inj hmembers
    exact h
  · exact fun h => ⟨members, rfl, h⟩

/-- In each mapping inside the value the keys have different texts. -/
def Value.Distinct (v : Value) : Prop :=
  ∀ entries, (Value.mapping entries).Inside v → (entries.map fun e => keyText e.1).Nodup

theorem Value.Distinct.inside {v w : Value} (h : v.Distinct)
    (hw : ∀ u : Value, u.Inside w → u.Inside v) : w.Distinct :=
  fun entries hentries => h entries (hw _ hentries)

theorem distinct_sequence_iff {items : List Value} :
    (Value.sequence items).Distinct ↔ ∀ v ∈ items, v.Distinct := by
  constructor
  · exact fun h v hv => h.inside fun _ hu => .item hv hu
  · intro h entries hentries
    cases hentries with
    | item hv hentries => exact h _ hv entries hentries

theorem distinct_mapping_iff {entries : List (Value × Value)} :
    (Value.mapping entries).Distinct ↔
      (entries.map fun e => keyText e.1).Nodup ∧ ∀ e ∈ entries, e.2.Distinct := by
  constructor
  · exact fun h => ⟨h entries .self, fun e he => h.inside fun _ hu => .entry he hu⟩
  · rintro ⟨hnodup, h⟩ entries' hentries
    cases hentries with
    | self => exact hnodup
    | entry hv hentries => exact h _ hv entries' hentries

theorem distinct_tagged_iff {tag : String} {v : Value} :
    (Value.tagged tag v).Distinct ↔ v.Distinct := by
  constructor
  · exact fun h => h.inside fun _ hu => .tagged hu
  · intro h entries hentries
    cases hentries with
    | tagged hentries => exact h entries hentries

theorem sequence_toJson_ok {items : List Value} {j : Json}
    (h : (Value.sequence items).toJson = .ok j) :
    ∃ js, j = .array js ∧ List.Forall₂ (fun v i => v.toJson = .ok i) items js := by
  rw [Value.toJson, itemsToJson_eq] at h
  obtain ⟨js, hitems, rfl⟩ := Except.exists_of_map_ok h
  exact ⟨js, rfl, List.forall₂_of_mapM_ok hitems⟩

theorem entryToJson_ok {e : Value × Value} {m : String × Json} (h : entryToJson e = .ok m) :
    keyText e.1 = .ok m.1 ∧ e.2.toJson = .ok m.2 := by
  unfold entryToJson at h
  cases hkey : keyText e.1 with
  | error u =>
    rw [hkey] at h
    cases h
  | ok text =>
    cases hv : e.2.toJson with
    | error u =>
      rw [hkey, hv] at h
      cases h
    | ok i =>
      rw [hkey, hv] at h
      obtain rfl := Except.ok.inj h
      exact ⟨rfl, rfl⟩

theorem mapping_toJson_ok {entries : List (Value × Value)} {j : Json}
    (h : (Value.mapping entries).toJson = .ok j) :
    ∃ ms, j = .object (Table.ofList ms) ∧
      List.Forall₂ (fun e m => keyText e.1 = .ok m.1 ∧ e.2.toJson = .ok m.2) entries ms := by
  rw [Value.toJson, entriesToJson_eq] at h
  obtain ⟨ms, hentries, rfl⟩ := Except.exists_of_map_ok h
  exact ⟨ms, rfl, (List.forall₂_of_mapM_ok hentries).imp fun _ _ => entryToJson_ok⟩

theorem nodup_keyTexts_iff {entries : List (Value × Value)} {ms : List (String × Json)}
    (h : List.Forall₂ (fun e m => keyText e.1 = .ok m.1 ∧ e.2.toJson = .ok m.2) entries ms) :
    (entries.map fun e => keyText e.1).Nodup ↔ (Table.keys ms).Nodup := by
  have htexts : (entries.map fun e => keyText e.1) = (Table.keys ms).map .ok := by
    induction h with
    | nil => rfl
    | cons he _ ih =>
      rw [List.map_cons, he.1, ih]
      rfl
  rw [htexts]
  exact List.nodup_map_iff fun _ _ => Except.ok.inj

/-- Of the entries of a mapping whose keys have the same text the last one counts. -/
theorem last_entry_counts {before after : List (Value × Value)} {key v : Value} {text : String}
    {members : List (String × Json)}
    (h : (Value.mapping (before ++ (key, v) :: after)).toJson = .ok (.object members))
    (hkey : keyText key = .ok text) (hafter : ∀ e ∈ after, keyText e.1 ≠ .ok text) :
    ∃ i, v.toJson = .ok i ∧ Table.get? text members = some i := by
  obtain ⟨ms, hmembers, hms⟩ := mapping_toJson_ok h
  obtain ⟨us, vs, rfl, -, hvs⟩ := hms.exists_append
  obtain rfl := Json.object.inj hmembers
  obtain ⟨m, ws, ⟨hm, hv⟩, hws, rfl⟩ := List.forall₂_cons_left_iff.1 hvs
  obtain rfl : m.1 = text := Except.ok.inj (hm.symm.trans hkey)
  -- no later entry has this text for its key
  have hnone : Table.get? m.1 (Table.ofList ws) = none := by
    refine Option.not_isSome_iff_eq_none.1 fun hsome => ?_
    have hmem : m.1 ∈ ws.map Prod.fst := by
      rw [← List.mem_eraseDups, ← Table.keys_ofList]
      exact Table.mem_keys_iff.2 hsome
    obtain ⟨n, hn, hnm⟩ := List.mem_map.1 hmem
    obtain ⟨e, he, hen, -⟩ := hws.exists_left hn
    exact hafter e he (hnm ▸ hen)
  have hlast : Table.get? m.1 (Table.ofList [m]) = some m.2 :=
    (Table.get?_insert m.1 m.1 m.2 []).trans (if_pos rfl)
  refine ⟨m.2, hv, ?_⟩
  rw [Table.get?_ofList_append, ← List.singleton_append, Table.get?_ofList_append, hnone, hlast]
  rfl

/-- Nothing of a converted value is lost if and only if in each mapping in it, at any depth, the
keys have different texts. -/
theorem keeps_iff_distinct (v : Value) (j : Json) (h : v.toJson = .ok j) :
    v.Keeps j ↔
      ∀ entries, (Value.mapping entries).Inside v → (entries.map fun e => keyText e.1).Nodup := by
  show v.Keeps j ↔ v.Distinct
  induction v using Value.induction generalizing j with
  | null =>
    obtain rfl := Except.ok.inj h
    exact iff_of_true rfl fun entries hentries => by cases hentries
  | bool b =>
    obtain rfl := Except.ok.inj h
    exact iff_of_true rfl fun entries hentries => by cases hentries
  | string s =>
    obtain rfl := Except.ok.inj h
    exact iff_of_true rfl fun entries hentries => by cases hentries
  | number n => exact iff_of_true h fun entries hentries => by cases hentries
  | sequence items ih =>
    obtain ⟨js, rfl, hjs⟩ := sequence_toJson_ok h
    have hall := (List.forall₂_and_left items js).2 ⟨ih, hjs⟩
    have hitems : List.Forall₂ (fun v i => v.Keeps i ↔ v.Distinct) items js :=
      hall.imp fun v i ⟨hv, hi⟩ => hv i hi
    rw [keeps_sequence_iff, distinct_sequence_iff, hitems.iff_forall]
  | mapping entries ih =>
    obtain ⟨ms, rfl, hms⟩ := mapping_toJson_ok h
    rw [keeps_mapping_iff, distinct_mapping_iff, nodup_keyTexts_iff hms]
    constructor
    · rintro ⟨hlength, hkept⟩
      -- a text that comes twice would leave fewer members than entries
      refine ⟨Table.nodup_of_length_ofList (hlength.trans hms.length_eq), fun e he => ?_⟩
      obtain ⟨text, i, -, hi, -, hkeeps⟩ := hkept e he
      exact (ih e he i hi).1 hkeeps
    · rintro ⟨hnodup, hdistinct⟩
      rw [Table.ofList_of_nodup hnodup]
      refine ⟨hms.length_eq.symm, fun e he => ?_⟩
      obtain ⟨m, hm, hkey, hi⟩ := hms.exists_right he
      exact ⟨m.1, m.2, hkey, hi, Table.get?_of_mem hnodup hm, (ih e he m.2 hi).2 (hdistinct e he)⟩
  | tagged tag v ih =>
    rw [distinct_tagged_iff]
    exact ih j h

def statuses : Value :=
  .mapping [(.string "response", .sequence [.mapping
    [(.number (.integer 200), .string "ok"), (.bool true, .null), (.string "default", .null)]])]

theorem keeps_iff_distinct_statuses :
    ∃ j, statuses.toJson = .ok j ∧ statuses.Keeps j ∧
      ∀ entries, (Value.mapping entries).Inside statuses →
        (entries.map fun e => keyText e.1).Nodup := by
  have hkeeps : statuses.Keeps (.object [("response", .array [.object
      [("200", .string "ok"), ("true", .null), ("default", .null)]])]) := by
    refine ⟨_, rfl, rfl, ⟨"response", _, rfl, rfl, rfl, ?_⟩, trivial⟩
    refine ⟨_, rfl, _, _, rfl, ?_, rfl⟩
    exact ⟨_, rfl, rfl, ⟨"200", _, rfl, rfl, rfl, rfl⟩, ⟨"true", _, rfl, rfl, rfl, rfl⟩,
      ⟨"default", _, rfl, rfl, rfl, rfl⟩, trivial⟩
  exact ⟨_, rfl, hkeeps, (keeps_iff_distinct statuses _ rfl).1 hkeeps⟩

/-- The number 200 and the text 200 are different keys with the same text. -/
theorem not_keeps_statuses :
    ¬ ∀ (v : Value) (j : Json), v.toJson = .ok j → v.Keeps j := by
  intro h
  obtain ⟨members, hmembers, hlength, -⟩ := h
    (.mapping [(.number (.integer 200), .string "a"), (.string "200", .string "b")])
    (.object [("200", .string "b")]) rfl
  obtain rfl := Json.object.inj hmembers
  cases hlength

end ApiTypes.Yaml
