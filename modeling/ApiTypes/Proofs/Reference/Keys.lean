import ApiTypes.Proofs.Compile.Declared
import ApiTypes.Proofs.Reference.Addresses

namespace ApiTypes.Compile

open TypeScript

variable {c : Context} {ds : List (String × Json)}

/-- Looking up the pointer of a key finds what is defined for the key, and only that. -/
theorem run_target_eq_ok_iff (hroot : c.root.get? "definitions" = some (.object ds))
    (key : String) (d : Json) (s : State) :
    (target c "" (definitionPointer key)).run s = (.ok d, s) ↔ Table.get? key ds = some d := by
  rw [run_target_root, part_root, resolve?_definitionPointer hroot]
  cases Table.get? key ds with
  | none => exact iff_of_false (fun h => nomatch congrArg Prod.fst h) (fun h => nomatch h)
  | some d' =>
    constructor
    · rintro ⟨⟩
      rfl
    · rintro ⟨⟩
      rfl

theorem definitionId?_eq_some_iff (hroot : c.root.get? "definitions" = some (.object ds))
    (key id : String) :
    c.definitionId? (definitionPointer key) = some id ↔ id = key ∧ key ∈ Table.keys ds := by
  rw [definitionId?_definitionPointer hroot]
  by_cases hkey : key ∈ Table.keys ds
  · simp [hkey, eq_comm]
  · simp [hkey]

/-- Whatever characters a key has, the reference that is made for it is one into the root, whose
pointer leads to what is defined for this key, and the key of a definition is read back from the
pointer.  If all definitions are to be declared, this reference is followed for each of them. -/
theorem definition_of_key (c : Context) {ds : List (String × Json)}
    (hroot : c.root.get? "definitions" = some (.object ds)) (key : String) :
    splitReference ("#" ++ definitionPointer key) = ("", definitionPointer key) ∧
    Json.Pointer.resolve? (definitionPointer key) c.root = Table.get? key ds ∧
    (∀ d s, (target c "" (definitionPointer key)).run s = (.ok d, s) ↔
      Table.get? key ds = some d) ∧
    (∀ id, c.definitionId? (definitionPointer key) = some id ↔ id = key ∧ key ∈ Table.keys ds) ∧
    (key ∈ Table.keys ds →
      c.aliasKey? "" (definitionPointer key) = some (targetKey (c.url key) "") ∧
      ∀ name decls, declarations c name = .ok decls → c.options.unreachableDefinitions = true →
        ∃ before t after,
          .followed ("#" ++ definitionPointer key) before (.ok t) after ∈ (c.watch name).2.log ∧
            c.address before.bases ("#" ++ definitionPointer key) =
              ("", definitionPointer key)) := by
  refine ⟨splitReference_pointer _, resolve?_definitionPointer hroot key,
    run_target_eq_ok_iff hroot key, definitionId?_eq_some_iff hroot key, fun hkey =>
      ⟨aliasKey?_pointer hroot hkey, fun name decls hdecls hall => ?_⟩⟩
  apply exists_followed_definition hdecls hall
  rw [definitions?_eq hroot]
  exact hkey

/-- The last key is read as the second one if it is not escaped, and both have the mark between
document and pointer. -/
def markedKeys : List (String × Json) :=
  [("", .bool true), ("/#", .object [("type", .string "string")]),
    ("~1#", .object [("type", .string "number")])]

def marked : Context :=
  .of "/app" { Options.default with unreachableDefinitions := true }
    (.object [("definitions", .object markedKeys)])

theorem definition_of_key_marked :
    marked.root.get? "definitions" = some (.object markedKeys) ∧ "~1#" ∈ Table.keys markedKeys ∧
    splitReference "#/definitions/~01#" = ("", "/definitions/~01#") ∧
    Json.Pointer.resolve? "/definitions/~01#" marked.root =
      some (.object [("type", .string "number")]) ∧
    marked.definitionId? "/definitions/~01#" = some "~1#" ∧
    marked.aliasKey? "" "/definitions/~01#" = some "/app/~1##" ∧
    ∃ before t after,
      .followed "#/definitions/~01#" before (.ok t) after ∈ (marked.watch "Root").2.log := by
  have hroot : marked.root.get? "definitions" = some (.object markedKeys) := rfl
  have hmem : "~1#" ∈ Table.keys markedKeys := by decide
  have hpointer : definitionPointer "~1#" = "/definitions/~01#" := by decide +kernel
  have hsecond : targetKey (marked.url "~1#") "" = "/app/~1##" := by decide +kernel
  have hsome : (declarations marked "Root").toOption.isSome = true := by decide +kernel
  obtain ⟨decls, hdecls⟩ := Except.exists_of_isSome_toOption hsome
  obtain ⟨hsplit, hresolve, -, hread, hdefined⟩ := definition_of_key marked hroot "~1#"
  obtain ⟨halias, hfollowed⟩ := hdefined hmem
  obtain ⟨before, t, after, hlog, -⟩ := hfollowed "Root" decls hdecls rfl
  rw [hpointer] at hsplit hresolve hread halias hlog
  rw [hsecond] at halias
  exact ⟨hroot, hmem, hsplit, hresolve, (hread "~1#").2 ⟨rfl, hmem⟩, halias, before, t, after, hlog⟩

end ApiTypes.Compile
