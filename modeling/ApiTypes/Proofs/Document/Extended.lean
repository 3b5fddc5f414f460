import ApiTypes.Proofs.Compile.Repeats
import ApiTypes.Proofs.Compile.Shape
import ApiTypes.Proofs.Json.Pointer

namespace ApiTypes

namespace Json.Pointer

variable {pointer key : String}

/-- A key without tildes and slashes is written as it is and in no other way. -/
theorem eq_of_unescape {token : List Char} (h : unescape token = key) (htilde : '~' ∉ key.toList)
    (hslash : '/' ∉ key.toList) : token = key.toList := by
  unfold unescape at h
  subst h
  rw [String.toList_ofList] at *
  have houter := Text.replaceAll_eq_self_of_not_mem (List.cons_ne_nil _ _) (by decide) htilde
  rw [houter] at hslash ⊢
  exact (Text.replaceAll_eq_self_of_not_mem (List.cons_ne_nil _ _) (by decide) hslash).symm

theorem eq_of_tokens? (h : tokens? pointer = some [key]) (htilde : '~' ∉ key.toList)
    (hslash : '/' ∉ key.toList) : pointer.toList = '/' :: key.toList := by
  unfold tokens? at h
  split at h
  · cases h
  · next rest hrest =>
    have hmap := Option.some.inj h
    -- there is one token, because there is one key
    obtain ⟨token, htoken⟩ : ∃ token, rest.splitOn '/' = [token] := by
      refine List.length_eq_one_iff.1 ?_
      have hlength := congrArg List.length hmap
      simpa using hlength
    rw [htoken] at hmap
    have hkey : unescape token = key := (List.cons.inj hmap).1
    have hone : rest = token := by
      have hjoin : ['/'].intercalate (rest.splitOn '/') = rest := List.intercalate_splitOn '/'
      rw [htoken] at hjoin
      simpa using hjoin.symm
    rw [hrest, hone, eq_of_unescape hkey htilde hslash]
  · cases h

theorem tokens?_ne_nil (h : pointer ≠ "") : tokens? pointer ≠ some [] := by
  unfold tokens?
  split
  · next hnil => exact absurd (String.toList_eq_nil_iff.1 hnil) h
  · next rest _ =>
    intro hnil
    have hempty := List.map_eq_nil_iff.1 (Option.some.inj hnil)
    exact List.splitOn_ne_nil _ _ hempty
  · simp

end Json.Pointer

namespace Document

def rootMembers (defs nodes : List (String × Json)) : List (String × Json) :=
  Table.insert "definitions" (.object defs) (objectNode (some rootName) (some nodes))

theorem rootMembers_eq (defs nodes : List (String × Json)) :
    rootMembers defs nodes =
      [("title", .string rootName), ("type", .string "object"),
        ("required", .array ((Table.keys nodes).map .string)), ("properties", .object nodes),
        ("additionalProperties", .bool false), ("definitions", .object defs)] := rfl

variable {ignoreHead : Bool} {registry : Naming.Registry} {rs : Route.Routes}

theorem build_eq (rs : Route.Routes) (defs : List (String × Json)) (ignoreHead : Bool)
    (registry : Naming.Registry) :
    (build rs defs ignoreHead registry).1 =
      .object (rootMembers defs (paths ignoreHead registry rs).1) := rfl

theorem keys_paths (hrs : (rs.map Prod.fst).Nodup) :
    Table.keys (paths ignoreHead registry rs).1 = rs.map Prod.fst :=
  keys_of_forall₂ (forall₂_paths hrs)

theorem exists_routeNodes_concat (ignoreHead : Bool) (registry : Naming.Registry)
    (rs : Route.Routes) (e : String × List Route.Record) :
    ∃ node, (routeNodes ignoreHead registry (rs ++ [e])).1 =
      (routeNodes ignoreHead registry rs).1 ++ [(e.1, .object node)] := by
  induction rs generalizing registry with
  | nil => exact ⟨_, rfl⟩
  | cons e' rs ih =>
    obtain ⟨node, hnode⟩ := ih (registry.endpointName e'.1).2
    exact ⟨node, congrArg (List.cons _) hnode⟩

/-- The node of the last path stands behind those of the others. -/
theorem exists_paths_concat {e : String × List Route.Record}
    (h : ((rs ++ [e]).map Prod.fst).Nodup) :
    ∃ node, (paths ignoreHead registry (rs ++ [e])).1 =
      (paths ignoreHead registry rs).1 ++ [(e.1, .object node)] := by
  have hkeys : ∀ rs, (rs.map Prod.fst).Nodup →
      (paths ignoreHead registry rs).1 = (routeNodes ignoreHead registry rs).1 := by
    intro rs hrs
    have hnodup := keys_of_forall₂ (forall₂_routeNodes ignoreHead registry rs) ▸ hrs
    exact Table.ofList_of_nodup hnodup
  have hrs : (rs.map Prod.fst).Nodup := by
    rw [List.map_append] at h
    exact h.of_append_left
  obtain ⟨node, hnode⟩ := exists_routeNodes_concat ignoreHead registry rs e
  exact ⟨node, by rw [hkeys _ h, hkeys _ hrs, hnode]⟩

end Document

namespace Compile

open TypeScript

def HoldsObjects (members : List (String × Json)) : Prop :=
  ∀ key j, Table.get? key members = some j → ∃ ms, j = .object ms

/-- Whether a table of paths says something else as a schema with another path.  Its members are
objects, so only these keywords have a meaning there; `const` comes before all others, and `items`
comes after `additionalProperties`. -/
def Heeded (paths : List String) (path : String) : Prop :=
  "const" ∉ paths ∧ (path = "properties" ∨ path = "additionalProperties" ∨
    path = "const" ∧ "additionalProperties" ∈ paths ∨
    path = "items" ∧ "additionalProperties" ∉ paths)

instance (paths : List String) (path : String) : Decidable (Heeded paths path) :=
  inferInstanceAs (Decidable (_ ∧ (_ ∨ _ ∨ _ ∧ _ ∨ _ ∧ _)))

section table

variable {c : Context} {inner : Json → Action TypeExpr} {members members' : List (String × Json)}

theorem HoldsObjects.bind_eq_none {α : Type} (h : HoldsObjects members) {f : Json → Option α}
    (hf : ∀ ms, f (.object ms) = none) (key : String) :
    (Table.get? key members).bind f = none := by
  cases hget : Table.get? key members with
  | none => rfl
  | some j =>
    obtain ⟨ms, rfl⟩ := h key j hget
    exact hf ms

/-- A schema whose members are all objects. -/
theorem schemaType_of_objects (h : HoldsObjects members) :
    schemaType c inner (.object members) =
      if Table.contains "const" members then return .keyword .unknown
      else if Table.contains "properties" members ∨
        Table.contains "additionalProperties" members then objectType c inner members
      else if Table.contains "items" members then arrayType c inner members
      else return .keyword .unknown := by
  -- keywords that want a text or a list find none among objects
  have hstring := h.bind_eq_none (f := Json.string?) fun _ => rfl
  have harray := h.bind_eq_none (f := Json.array?) fun _ => rfl
  have hunion : ((Table.get? "oneOf" members).or (Table.get? "anyOf" members)).bind Json.array? =
      none := by
    cases hget : Table.get? "oneOf" members with
    | none => exact harray "anyOf"
    | some j =>
      have hone := harray "oneOf"
      rw [hget] at hone
      exact hone
  unfold schemaType memberType
  simp only [hstring, harray, hunion]
  cases hconst : Table.get? "const" members with
  | some j =>
    obtain ⟨ms, rfl⟩ := h _ j hconst
    unfold Table.contains
    rw [hconst]
    rfl
  | none =>
    have hnone : Table.contains "const" members = false := by
      unfold Table.contains
      rw [hconst]
      rfl
    rw [hnone]
    unfold structuralType
    cases htype : Table.get? "type" members with
    | none => rfl
    | some j =>
      obtain ⟨ms, rfl⟩ := h _ j htype
      rfl

theorem objectType_congr (hrequired : requiredNames members = requiredNames members')
    (hproperties : Table.get? "properties" members = Table.get? "properties" members')
    (hadditional : Table.get? "additionalProperties" members =
      Table.get? "additionalProperties" members') :
    objectType c inner members = objectType c inner members' := by
  unfold objectType additionalType properties
  rw [hrequired, hproperties, hadditional]

section concat

variable {nodes node : List (String × Json)} {path : String}

theorem get?_concat (key : String) (nodes : List (String × Json)) (path : String) (j : Json) :
    Table.get? key (nodes ++ [(path, j)]) =
      (Table.get? key nodes).or (if key = path then some j else none) := by
  rw [Table.get?_append, Table.get?_cons]
  rfl

theorem get?_concat_of_ne {key : String} (h : key ≠ path) (j : Json) :
    Table.get? key (nodes ++ [(path, j)]) = Table.get? key nodes := by
  rw [get?_concat, if_neg h, Option.or_none]

theorem HoldsObjects.concat (h : HoldsObjects nodes) :
    HoldsObjects (nodes ++ [(path, .object node)]) := by
  intro key j hget
  rw [get?_concat] at hget
  obtain hget | ⟨-, hget⟩ := Option.or_eq_some_iff.1 hget
  · exact h key j hget
  · split at hget
    · exact ⟨node, (Option.some.inj hget).symm⟩
    · cases hget

theorem contains_concat_of_ne {key : String} (h : key ≠ path) (j : Json) :
    Table.contains key (nodes ++ [(path, j)]) = Table.contains key nodes := by
  unfold Table.contains
  rw [get?_concat_of_ne h]

theorem requiredNames_of_objects (h : HoldsObjects nodes) : requiredNames nodes = [] := by
  unfold requiredNames
  rw [h.bind_eq_none fun _ => rfl]
  rfl

/-- A path that is not heeded leaves what the table says as a schema as it is. -/
theorem schemaType_concat (hobjects : HoldsObjects nodes)
    (hsorted : ∀ key ∈ Table.keys nodes, key < path) (hpath : ¬ Heeded (Table.keys nodes) path)
    (c : Context) (inner : Json → Action TypeExpr) :
    schemaType c inner (.object nodes) =
      schemaType c inner (.object (nodes ++ [(path, .object node)])) := by
  have hlater : ∀ key, path < key → ¬ Table.contains key nodes := fun key hlt hkey =>
    lt_asymm hlt (hsorted key (Table.mem_keys_iff.2 hkey))
  rw [schemaType_of_objects hobjects, schemaType_of_objects hobjects.concat]
  by_cases hconst : Table.contains "const" nodes
  · have hconst' : Table.contains "const" (nodes ++ [(path, .object node)]) := by
      unfold Table.contains at hconst ⊢
      rw [get?_concat, Option.isSome_or, hconst]
      rfl
    rw [if_pos hconst, if_pos hconst']
  simp only [Heeded, Table.mem_keys_iff, not_and, not_or, not_not] at hpath
  obtain ⟨hproperties, hadditional, hpathConst, hpathItems⟩ := hpath hconst
  rw [if_neg hconst]
  by_cases hc : path = "const"
  · -- the other keywords that count come later, so none of them is a path
    subst hc
    have hconst' : Table.contains "const" (nodes ++ [("const", .object node)]) := by
      unfold Table.contains
      rw [get?_concat, Option.isSome_or]
      simp
    have hnone : ¬ (Table.contains "properties" nodes ∨
        Table.contains "additionalProperties" nodes) :=
      not_or.2 ⟨hlater _ (by decide), hpathConst rfl⟩
    rw [if_neg hnone, if_neg (hlater "items" (by decide)), if_pos hconst']
  rw [contains_concat_of_ne (Ne.symm hc), contains_concat_of_ne (Ne.symm hproperties),
    contains_concat_of_ne (Ne.symm hadditional), if_neg hconst]
  have hobject : objectType c inner nodes =
      objectType c inner (nodes ++ [(path, .object node)]) := by
    refine objectType_congr ?_ (get?_concat_of_ne (Ne.symm hproperties) _).symm
      (get?_concat_of_ne (Ne.symm hadditional) _).symm
    rw [requiredNames_of_objects hobjects, requiredNames_of_objects hobjects.concat]
  rw [← hobject]
  by_cases hi : path = "items"
  · have hpresent := Or.inr (a := Table.contains "properties" nodes = true) (hpathItems hi)
    rw [if_pos hpresent, if_pos hpresent]
  · have harray : arrayType c inner nodes =
        arrayType c inner (nodes ++ [(path, .object node)]) := by
      unfold arrayType
      rw [get?_concat_of_ne (Ne.symm hi)]
    rw [contains_concat_of_ne (Ne.symm hi), ← harray]

/-- The table of paths reads alike with a path that is not heeded. -/
theorem readAlike_concat (hobjects : HoldsObjects nodes)
    (hsorted : ∀ key ∈ Table.keys nodes, key < path) (hpath : ¬ Heeded (Table.keys nodes) path) :
    ReadAlike (.object nodes) (.object (nodes ++ [(path, .object node)])) := by
  have htext : ∀ key, (Json.object nodes).text? key =
      (Json.object (nodes ++ [(path, .object node)])).text? key := fun key =>
    (hobjects.bind_eq_none (fun _ => rfl) key).trans
      (hobjects.concat.bind_eq_none (fun _ => rfl) key).symm
  exact ⟨htext "title", htext "description", schemaType_concat hobjects hsorted hpath⟩

end concat

end table

section pointers

open Json.Pointer Document

variable {defs nodes : List (String × Json)}

theorem foldlM_cons_eq_some {token : String} {tokens : List String} {j k : Json} :
    (token :: tokens).foldlM step? j = some k ↔
      ∃ i, step? j token = some i ∧ tokens.foldlM step? i = some k := by
  rw [List.foldlM_cons]
  exact Option.bind_eq_some_iff

/-- A node is under its path as it was. -/
theorem step?_append {token : String} {k : Json} (more : List (String × Json))
    (h : step? (.object nodes) token = some k) :
    step? (.object (nodes ++ more)) token = some k := by
  have hnodes : Table.get? token nodes = some k := h
  show Table.get? token (nodes ++ more) = some k
  rw [Table.get?_append, hnodes]
  rfl

/-- The path at an index is the one that was there. -/
theorem step?_keys_append {token : String} {k : Json} (more : List (String × Json))
    (h : step? (.array ((Table.keys nodes).map .string)) token = some k) :
    step? (.array ((Table.keys (nodes ++ more)).map .string)) token = some k := by
  obtain ⟨n, hn, hget⟩ := Option.bind_eq_some_iff.1 h
  refine Option.bind_eq_some_iff.2 ⟨n, hn, ?_⟩
  have hkeys : (Table.keys (nodes ++ more)).map Json.string =
      (Table.keys nodes).map .string ++ (Table.keys more).map .string := by
    simp [Table.keys]
  obtain ⟨hlt, -⟩ := List.getElem?_eq_some_iff.1 hget
  rw [hkeys, List.getElem?_append_left hlt]
  exact hget

/-- The other members of a document do not depend on its paths. -/
theorem step?_rootMembers_of_ne {token : String} (hrequired : token ≠ "required")
    (hproperties : token ≠ "properties") (nodes nodes' : List (String × Json)) :
    step? (.object (rootMembers defs nodes)) token =
      step? (.object (rootMembers defs nodes')) token := by
  show Table.get? token (rootMembers defs nodes) = Table.get? token (rootMembers defs nodes')
  simp only [rootMembers_eq, Table.get?_cons, hrequired, hproperties, if_false]

/-- What a pointer leads to is still there with more paths, and reads alike unless it is the
table of paths. -/
theorem exists_resolve?_append (more : List (String × Json)) {pointer : String} {j : Json}
    (hpointer : pointer ≠ "")
    (h : resolve? pointer (.object (rootMembers defs nodes)) = some j) :
    ∃ j', resolve? pointer (.object (rootMembers defs (nodes ++ more))) = some j' ∧
      (ReadAlike j j' ∨
        pointer = "/properties" ∧ j = .object nodes ∧ j' = .object (nodes ++ more)) := by
  unfold resolve? at h ⊢
  obtain ⟨tokens, htokens, hfold⟩ := Option.bind_eq_some_iff.1 h
  rw [htokens]
  show ∃ j', tokens.foldlM step? _ = some j' ∧ _
  cases tokens with
  | nil => exact absurd htokens (tokens?_ne_nil hpointer)
  | cons token rest =>
    obtain ⟨i, hi, hrest⟩ := foldlM_cons_eq_some.1 hfold
    simp only [foldlM_cons_eq_some]
    -- only what `required` and `properties` say of the root has changed
    by_cases hrequired : token = "required"
    · subst hrequired
      obtain rfl : Json.array ((Table.keys nodes).map .string) = i := Option.some.inj hi
      cases rest with
      | nil =>
        obtain rfl := Option.some.inj hrest
        exact ⟨_, ⟨_, rfl, rfl⟩, .inl ⟨rfl, rfl, fun _ _ => rfl⟩⟩
      | cons index rest =>
        obtain ⟨k, hk, hlast⟩ := foldlM_cons_eq_some.1 hrest
        have hk' := step?_keys_append more hk
        exact ⟨j, ⟨_, rfl, foldlM_cons_eq_some.2 ⟨k, hk', hlast⟩⟩, .inl (.refl j)⟩
    by_cases hproperties : token = "properties"
    · subst hproperties
      obtain rfl : Json.object nodes = i := Option.some.inj hi
      cases rest with
      | nil =>
        obtain rfl := Option.some.inj hrest
        refine ⟨_, ⟨_, rfl, rfl⟩, .inr ⟨?_, rfl, rfl⟩⟩
        exact String.toList_inj.1 (eq_of_tokens? htokens (by decide) (by decide))
      | cons path rest =>
        obtain ⟨k, hk, hlast⟩ := foldlM_cons_eq_some.1 hrest
        have hk' := step?_append more hk
        exact ⟨j, ⟨_, rfl, foldlM_cons_eq_some.2 ⟨k, hk', hlast⟩⟩, .inl (.refl j)⟩
    · rw [step?_rootMembers_of_ne hrequired hproperties nodes (nodes ++ more)] at hi
      exact ⟨j, ⟨i, hi, hrest⟩, .inl (.refl j)⟩

/-- Contexts whose roots are the same but for further paths. -/
theorem covers_append {c c' : Context} {more : List (String × Json)} {apart : List String}
    (hroot : c.root = .object (rootMembers defs nodes))
    (hroot' : c'.root = .object (rootMembers defs (nodes ++ more)))
    (hoptions : c'.options = c.options) (hcwd : c'.cwd = c.cwd) (hwhole : "" ∈ apart)
    (hpaths : "/properties" ∉ apart → ReadAlike (.object nodes) (.object (nodes ++ more))) :
    c.Covers c' apart where
  options := hoptions
  cwd := hcwd
  definitions := by
    unfold Context.definitions?
    rw [hroot, hroot', rootMembers_eq, rootMembers_eq]
    rfl
  resolve pointer hpointer j hj := by
    have hne : pointer ≠ "" := fun he => hpointer (he ▸ hwhole)
    rw [hroot] at hj
    rw [hroot']
    obtain ⟨j', hj', halike | ⟨rfl, rfl, rfl⟩⟩ := exists_resolve?_append more hne hj
    · exact ⟨j', hj', halike⟩
    · exact ⟨_, hj', hpaths hpointer⟩

end pointers

end Compile

end ApiTypes
