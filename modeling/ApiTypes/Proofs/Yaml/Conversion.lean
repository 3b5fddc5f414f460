import ApiTypes.Proofs.Json.Drafts
import ApiTypes.Proofs.Lists
import ApiTypes.Route.Source

namespace ApiTypes

namespace Yaml

open Json

mutual

/-- Whether a value has the structure of a document, but for tags around it and around values in
it. -/
def spells : Value → Json → Bool
  | .tagged _ v, j => spells v j
  | .null, .null => true
  | .bool b, .bool b' => b = b'
  | .number (.integer n), .number (.integer n') => n = n'
  | .number (.real x), .number (.real x') => x = x'
  | .string s, .string s' => s = s'
  | .sequence vs, .array items => itemsSpell vs items
  | .mapping entries, .object members => entriesSpell entries members
  | _, _ => false

def itemsSpell : List Value → List Json → Bool
  | [], [] => true
  | v :: vs, j :: items => spells v j && itemsSpell vs items
  | _, _ => false

def entriesSpell : List (Value × Value) → List (String × Json) → Bool
  | [], [] => true
  | (.string key, v) :: entries, (key', j) :: members =>
    key = key' && (spells v j && entriesSpell entries members)
  | _, _ => false

end

mutual

/-- A value with the structure of a document is converted to it. -/
theorem toJson_of_spells :
    ∀ (v : Value) (j : Json), spells v j → isProper j → v.toJson = .ok j
  | .tagged _ v, j, h, hj => toJson_of_spells v j h hj
  | .null, .null, _, _ => rfl
  | .bool b, .bool b', h, _ => by
    obtain rfl : b = b' := of_decide_eq_true h
    rfl
  | .number (.integer n), .number (.integer n'), h, _ => by
    obtain rfl : n = n' := of_decide_eq_true h
    rfl
  | .number (.real x), .number (.real x'), h, hj => by
    obtain rfl : x = x' := of_decide_eq_true h
    exact if_pos hj
  | .string s, .string s', h, _ => by
    obtain rfl : s = s' := of_decide_eq_true h
    rfl
  | .sequence vs, .array items, h, hj => by
    rw [Value.toJson, itemsToJson_of_spell vs items h hj]
    rfl
  | .mapping entries, .object members, h, hj => by
    obtain ⟨hnodup, hmembers⟩ := Bool.and_eq_true_iff.1 hj
    rw [Value.toJson, entriesToJson_of_spell entries members h hmembers]
    show Except.ok (Json.object (Table.ofList members)) = _
    rw [Table.ofList_of_nodup (of_decide_eq_true hnodup)]

theorem itemsToJson_of_spell :
    ∀ (vs : List Value) (items : List Json), itemsSpell vs items → itemsProper items →
      Value.itemsToJson vs = .ok items
  | [], [], _, _ => rfl
  | v :: vs, j :: items, h, hj => by
    obtain ⟨hv, hvs⟩ := Bool.and_eq_true_iff.1 h
    obtain ⟨hj, hitems⟩ := Bool.and_eq_true_iff.1 hj
    rw [Value.itemsToJson, toJson_of_spells v j hv hj, itemsToJson_of_spell vs items hvs hitems]
    rfl

theorem entriesToJson_of_spell :
    ∀ (entries : List (Value × Value)) (members : List (String × Json)),
      entriesSpell entries members → membersProper members →
        Value.entriesToJson entries = .ok members
  | [], [], _, _ => rfl
  | (.string key, v) :: entries, (key', j) :: members, h, hms => by
    obtain ⟨hkey, hrest⟩ := Bool.and_eq_true_iff.1 h
    obtain ⟨hv, hentries⟩ := Bool.and_eq_true_iff.1 hrest
    obtain ⟨hj, hmembers⟩ := Bool.and_eq_true_iff.1 hms
    obtain rfl : key = key' := of_decide_eq_true hkey
    rw [Value.entriesToJson, toJson_of_spells v j hv hj,
      entriesToJson_of_spell entries members hentries hmembers]
    rfl

end

/-- Induction on the values inside a value, where keys of mappings do not count. -/
theorem Value.induction {P : Value → Prop} (null : P .null) (bool : ∀ b, P (.bool b))
    (number : ∀ n, P (.number n)) (string : ∀ s, P (.string s))
    (sequence : ∀ items, (∀ v ∈ items, P v) → P (.sequence items))
    (mapping : ∀ entries, (∀ e ∈ entries, P e.2) → P (.mapping entries))
    (tagged : ∀ tag v, P v → P (.tagged tag v)) (v : Value) : P v := by
  -- on the size, because values stand in lists and in entries
  have ih : ∀ w, sizeOf w < sizeOf v → P w := fun w _ =>
    Value.induction null bool number string sequence mapping tagged w
  cases v with
  | null => exact null
  | bool b => exact bool b
  | number n => exact number n
  | string s => exact string s
  | sequence items =>
    refine sequence items fun w hw => ih w ?_
    have := List.sizeOf_lt_of_mem hw
    simp only [Value.sequence.sizeOf_spec]
    omega
  | mapping entries =>
    refine mapping entries fun e he => ih e.2 ?_
    obtain ⟨key, w⟩ := e
    have := List.sizeOf_lt_of_mem he
    simp only [Value.mapping.sizeOf_spec, Prod.mk.sizeOf_spec] at this ⊢
    omega
  | tagged tag w =>
    refine tagged tag w (ih w ?_)
    simp only [Value.tagged.sizeOf_spec]
    omega
termination_by sizeOf v

/-- The value itself, or a value in it at any depth; keys of mappings do not count. -/
inductive Value.Inside (w : Value) : Value → Prop
  | self : Inside w w
  | item {items : List Value} {v : Value} (hv : v ∈ items) (h : Inside w v) :
      Inside w (.sequence items)
  | entry {entries : List (Value × Value)} {key v : Value} (hv : (key, v) ∈ entries)
      (h : Inside w v) : Inside w (.mapping entries)
  | tagged {tag : String} {v : Value} (h : Inside w v) : Inside w (.tagged tag v)

inductive Value.Keyless : Value → Prop
  | null : Keyless .null
  | sequence (items : List Value) : Keyless (.sequence items)
  | mapping (entries : List (Value × Value)) : Keyless (.mapping entries)
  | tagged (tag : String) (v : Value) : Keyless (.tagged tag v)

theorem keyText_error_iff (key : Value) : (∃ u, keyText key = .error u) ↔ key.Keyless := by
  constructor
  · rintro ⟨u, h⟩
    cases key with
    | null => exact .null
    | sequence items => exact .sequence items
    | mapping entries => exact .mapping entries
    | tagged tag v => exact .tagged tag v
    | _ => cases h
  · rintro (_ | _ | _ | _) <;> exact ⟨_, rfl⟩

def entryToJson (e : Value × Value) : Except Unsupported (String × Json) := do
  return (← keyText e.1, ← e.2.toJson)

theorem itemsToJson_eq (items : List Value) :
    Value.itemsToJson items = items.mapM Value.toJson := by
  induction items with
  | nil => rfl
  | cons v items ih =>
    rw [Value.itemsToJson, List.mapM_cons, ih]

theorem entriesToJson_eq (entries : List (Value × Value)) :
    Value.entriesToJson entries = entries.mapM entryToJson := by
  induction entries with
  | nil => rfl
  | cons e entries ih =>
    obtain ⟨key, v⟩ := e
    rw [Value.entriesToJson, List.mapM_cons, ih]
    unfold entryToJson
    cases keyText key with
    | error u => rfl
    | ok t => cases v.toJson <;> rfl

def Value.Fails (v : Value) : Prop :=
  ∃ u, v.toJson = .error u

theorem fails_sequence_iff (items : List Value) :
    (Value.sequence items).Fails ↔ ∃ v ∈ items, v.Fails := by
  unfold Value.Fails
  rw [Value.toJson, Except.map_error_iff, itemsToJson_eq, List.mapM_error_iff]

theorem entryToJson_error_iff (e : Value × Value) :
    (∃ u, entryToJson e = .error u) ↔ e.1.Keyless ∨ e.2.Fails := by
  unfold entryToJson Value.Fails
  rw [← keyText_error_iff]
  cases keyText e.1 with
  | error u => exact ⟨fun _ => .inl ⟨u, rfl⟩, fun _ => ⟨u, rfl⟩⟩
  | ok t =>
    cases e.2.toJson with
    | error u => exact ⟨fun _ => .inr ⟨u, rfl⟩, fun _ => ⟨u, rfl⟩⟩
    | ok j =>
      constructor
      · rintro ⟨u, h⟩
        cases h
      · rintro (⟨u, h⟩ | ⟨u, h⟩) <;> cases h

theorem fails_mapping_iff (entries : List (Value × Value)) :
    (Value.mapping entries).Fails ↔ ∃ e ∈ entries, e.1.Keyless ∨ e.2.Fails := by
  unfold Value.Fails
  rw [Value.toJson, Except.map_error_iff, entriesToJson_eq, List.mapM_error_iff]
  simp only [entryToJson_error_iff, Value.Fails]

theorem fails_number_iff (n : Number) :
    (Value.number n).Fails ↔ ∃ x : Float, n = .real x ∧ x.isFinite = false := by
  unfold Value.Fails
  rw [Value.toJson]
  cases n with
  | integer n => simp [Number.toJson]
  | real x => cases hx : x.isFinite <;> simp [Number.toJson, hx]

/-- What fails inside a value fails with it. -/
theorem Value.Inside.fails {v w : Value} (h : w.Inside v) (hw : w.Fails) : v.Fails := by
  induction h with
  | self => exact hw
  | item hv _ ih => exact (fails_sequence_iff _).2 ⟨_, hv, ih⟩
  | entry hv _ ih => exact (fails_mapping_iff _).2 ⟨_, hv, .inr ih⟩
  | tagged _ ih => exact ih

def Value.Unplaced (v : Value) : Prop :=
  (∃ x : Float, (Value.number (.real x)).Inside v ∧ x.isFinite = false) ∨
    ∃ entries key w, (Value.mapping entries).Inside v ∧ (key, w) ∈ entries ∧ key.Keyless

theorem Value.Unplaced.mono {v w : Value} (h : v.Unplaced)
    (hmono : ∀ u : Value, u.Inside v → u.Inside w) : w.Unplaced := by
  obtain ⟨x, hx, hfinite⟩ | ⟨entries, key, u, hentries, hmem, hkey⟩ := h
  · exact .inl ⟨x, hmono _ hx, hfinite⟩
  · exact .inr ⟨entries, key, u, hmono _ hentries, hmem, hkey⟩

theorem Value.Fails.unplaced {v : Value} (h : v.Fails) : v.Unplaced := by
  induction v using Value.induction with
  | null | bool | string => obtain ⟨u, h⟩ := h; cases h
  | number n =>
    obtain ⟨x, rfl, hx⟩ := (fails_number_iff n).1 h
    exact .inl ⟨x, .self, hx⟩
  | sequence items ih =>
    obtain ⟨v, hv, hfails⟩ := (fails_sequence_iff items).1 h
    exact (ih v hv hfails).mono fun _ hu => .item hv hu
  | mapping entries ih =>
    obtain ⟨⟨key, v⟩, he, hkey | hfails⟩ := (fails_mapping_iff entries).1 h
    · exact .inr ⟨entries, key, v, .self, he, hkey⟩
    · exact (ih _ he hfails).mono fun _ hu => .entry he hu
  | tagged tag v ih => exact (ih h).mono fun _ hu => .tagged hu

theorem Value.Unplaced.fails {v : Value} (h : v.Unplaced) : v.Fails := by
  obtain ⟨x, hx, hfinite⟩ | ⟨entries, key, w, hentries, hmem, hkey⟩ := h
  · exact hx.fails ((fails_number_iff _).2 ⟨x, rfl, hfinite⟩)
  · exact hentries.fails ((fails_mapping_iff _).2 ⟨_, hmem, .inl hkey⟩)

/-- A value with the structure of a document, perhaps tagged here and there, is converted to this
document; so a file in YAML has the route set of the file in JSON.  A value is not converted exactly
if it has, at some depth, a number that is not finite, or a key that is null, a sequence, a mapping
or tagged. -/
theorem conversion_agrees :
    (∀ (j : Json) (v : Value), isProper j → spells v j → v.toJson = .ok j ∧
      ∀ (path path' text text' : String), Route.isYamlPath path → ¬ Route.isYamlPath path' →
        value? text = some v → Reader.draft? text' = some (.ofJson j) →
          Route.RouteSet.ofFile path text = Route.RouteSet.ofFile path' text') ∧
    ∀ v : Value, (∃ u, v.toJson = .error u) ↔
      (∃ x : Float, (Value.number (.real x)).Inside v ∧ x.isFinite = false) ∨
        ∃ entries key w, (Value.mapping entries).Inside v ∧ (key, w) ∈ entries ∧ key.Keyless := by
  refine ⟨fun j v hj hv => ?_, fun v => ⟨Value.Fails.unplaced, Value.Unplaced.fails⟩⟩
  have hconverted := toJson_of_spells v j hv hj
  refine ⟨hconverted, fun path path' text text' hpath hpath' htext htext' => ?_⟩
  unfold Route.RouteSet.ofFile
  rw [if_pos hpath, if_neg hpath']
  unfold Route.RouteSet.ofYamlText Route.RouteSet.ofJsonText
  rw [htext, htext']
  dsimp only [Option.bind]
  rw [hconverted]

def numbersJson : Json :=
  .object [("routes", .array [.object [("url", .string "/"), ("method", .string "GET"),
    ("schema", .object [("response", .object [("200", .object [("enum", .array [
      .number (.integer (-1)), .number (.integer 18446744073709551615),
      .number (.real 0.5)])])])])]])]

def numbersText : String :=
  "\x7b\"routes\":[\x7b\"url\":\"/\",\"method\":\"GET\",\"schema\":\x7b\"response\":" ++
    "\x7b\"200\":\x7b\"enum\":[-1,18446744073709551615,0.5]\x7d\x7d\x7d\x7d]\x7d"

def taggedText : String :=
  "routes: !list\n- url: !path /\n  method: GET\n  schema:\n    response: !statuses\n" ++
    "      '200': \x7benum: [-1, 18446744073709551615, 0.5]\x7d\n"

theorem conversion_agrees_tagged :
    (∃ v, value? taggedText = some v ∧ spells v numbersJson ∧ v.toJson = .ok numbersJson) ∧
      Route.RouteSet.ofFile "routes.yaml" taggedText =
        Route.RouteSet.ofFile "routes.json" numbersText := by
  have hspells : (value? taggedText).any (spells · numbersJson) = true := by decide +kernel
  have hdraft : Reader.draft? numbersText = some (.ofJson numbersJson) := by rfl
  have hproper : isProper numbersJson = true := by decide
  cases hv : value? taggedText with
  | none =>
    rw [hv] at hspells
    cases hspells
  | some v =>
    rw [hv] at hspells
    obtain ⟨hconverted, hfiles⟩ := conversion_agrees.1 numbersJson v hproper hspells
    exact ⟨⟨v, rfl, hspells, hconverted⟩, hfiles "routes.yaml" "routes.json" taggedText numbersText
      (by decide +kernel) (by decide +kernel) hv hdraft⟩

end Yaml

end ApiTypes
