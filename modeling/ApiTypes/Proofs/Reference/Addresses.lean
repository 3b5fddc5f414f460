import ApiTypes.Proofs.Json.Pointer
import ApiTypes.Proofs.Reference.Definitions

namespace ApiTypes.Compile

/-- An id that is put behind the directory with a slash, and comes back from an address. -/
structure PlainId (id : String) : Prop where
  ne : id ≠ ""
  hash : '#' ∉ id.toList
  slash : Text.startsWith ['/'] id.toList = false
  web : Resolver.isWebAddress id = false

section pointers

variable {id : String}

theorem toList_definitionPointer (id : String) :
    (definitionPointer id).toList = "/definitions/".toList ++ (Json.Pointer.escape id).toList :=
  String.toList_append

theorem hash_not_mem_definitionPointer (h : '#' ∉ id.toList) :
    '#' ∉ (definitionPointer id).toList := by
  rw [toList_definitionPointer]
  intro hmem
  rcases List.mem_append.1 hmem with hprefix | hescaped
  · exact absurd hprefix (by decide)
  · exact Json.Pointer.not_mem_escape h (by decide) hescaped

theorem definitionPointer_injective : Function.Injective definitionPointer := by
  intro id id' h
  have hlist := congrArg String.toList h
  rw [toList_definitionPointer, toList_definitionPointer] at hlist
  exact Json.Pointer.escape_injective (String.toList_inj.1 (List.append_cancel_left hlist))

theorem definitionPointer_ne_empty (id : String) : definitionPointer id ≠ "" := by
  intro h
  have hlist := congrArg String.toList h
  rw [toList_definitionPointer] at hlist
  cases hlist

/-- A pointer without a mark of its own is the key's pointer, and the base before it is empty. -/
theorem eq_of_targetKey_eq {base pointer pointer' : String} (h : '#' ∉ pointer'.toList)
    (hkey : targetKey base pointer = targetKey "" pointer') : base = "" ∧ pointer = pointer' := by
  have hlist : base.toList ++ '#' :: pointer.toList = '#' :: pointer'.toList := by
    simpa [targetKey] using congrArg String.toList hkey
  cases hbase : base.toList with
  | nil =>
    rw [hbase] at hlist
    exact ⟨String.toList_eq_nil_iff.1 hbase, String.toList_inj.1 (List.cons.inj hlist).2⟩
  | cons c rest =>
    rw [hbase] at hlist
    obtain ⟨-, hrest⟩ := List.cons.inj hlist
    exact absurd (hrest ▸ by simp) h

/-- Whatever characters an id has, it is one step of the pointer to its definition. -/
theorem tokens?_definitionPointer (id : String) :
    Json.Pointer.tokens? (definitionPointer id) = some ["definitions", id] := by
  have hlist : (definitionPointer id).toList =
      '/' :: ("definitions".toList ++ '/' :: (Json.Pointer.escape id).toList) := by
    rw [toList_definitionPointer]
    rfl
  unfold Json.Pointer.tokens?
  rw [hlist]
  have hname : "definitions".toList.splitOn '/' = ["definitions".toList] :=
    List.splitOn_eq_singleton (by decide)
  have hplain : Json.Pointer.unescape "definitions".toList = "definitions" := by decide
  show some (("definitions".toList ++ '/' :: (Json.Pointer.escape id).toList).splitOn '/' |>.map
    Json.Pointer.unescape) = _
  rw [List.splitOn_append_cons_self, hname, Json.Pointer.splitOn_escape]
  simp only [List.singleton_append, List.map_cons, List.map_nil, hplain,
    Json.Pointer.unescape_escape]

/-- The pointer to a definition leads to it in a document that has it, and nowhere in one that has
only others. -/
theorem resolve?_definitionPointer {root : Json} {ds : List (String × Json)}
    (hroot : root.get? "definitions" = some (.object ds)) (id : String) :
    Json.Pointer.resolve? (definitionPointer id) root = Table.get? id ds := by
  unfold Json.Pointer.resolve?
  rw [tokens?_definitionPointer]
  cases root with
  | object members =>
    have hstep : Json.Pointer.step? (.object members) "definitions" = some (.object ds) := hroot
    show ["definitions", id].foldlM Json.Pointer.step? (Json.object members) = Table.get? id ds
    rw [List.foldlM_cons, hstep]
    exact Option.bind_fun_some (Table.get? id ds)
  | _ => cases hroot

end pointers

/-- The two keys of a target, as far as it has a second one. -/
def Context.IsKey (c : Context) (base pointer key : String) : Prop :=
  targetKey base pointer = key ∨ c.aliasKey? base pointer = some key

instance (c : Context) (base pointer key : String) : Decidable (c.IsKey base pointer key) :=
  inferInstanceAs (Decidable (_ ∨ _))

section keys

variable {c : Context} {ds : List (String × Json)} {id : String}

theorem definitions?_eq (hroot : c.root.get? "definitions" = some (.object ds)) :
    c.definitions? = some ds := by
  unfold Context.definitions?
  rw [hroot]
  rfl

theorem url_of_plain (h : PlainId id) : c.url id = c.cwd ++ "/" ++ id := by
  unfold Context.url
  rw [if_neg (by simp [h.web]), if_neg (by simp [h.slash])]

theorem url_inj {id' : String} (h : PlainId id) (h' : PlainId id') (he : c.url id = c.url id') :
    id = id' := by
  rw [url_of_plain h, url_of_plain h'] at he
  exact String.append_right_inj _ |>.1 he

variable (hroot : c.root.get? "definitions" = some (.object ds))

include hroot

/-- An id is read back from its pointer if it is one of a definition. -/
theorem definitionId?_definitionPointer (id : String) :
    c.definitionId? (definitionPointer id) = if id ∈ Table.keys ds then some id else none := by
  have hafter : Text.after? "/definitions/".toList (definitionPointer id).toList =
      some (Json.Pointer.escape id).toList := by
    rw [toList_definitionPointer, Text.after?_append]
  unfold Context.definitionId?
  rw [definitions?_eq hroot, hafter]
  simp only [Option.bind_eq_bind, Option.bind_some, Json.Pointer.unescape_escape]
  by_cases hid : id ∈ Table.keys ds
  · have hcontains : Table.contains id ds = true := Table.mem_keys_iff.1 hid
    rw [if_pos hid, if_neg]
    simp [Json.Pointer.slash_not_mem_escape, hcontains]
  · rw [if_neg hid, if_pos (.inr fun hcontains => hid (Table.mem_keys_iff.2 hcontains))]

theorem aliasKey?_pointer (hid : id ∈ Table.keys ds) :
    c.aliasKey? "" (definitionPointer id) = some (targetKey (c.url id) "") := by
  unfold Context.aliasKey?
  rw [if_pos rfl, definitionId?_definitionPointer hroot, if_pos hid]
  rfl

/-- The address of a document leads back to a definition if no other one has it. -/
theorem aliasKey?_url (hurl : ∀ id' ∈ Table.keys ds, c.url id' = c.url id → id' = id)
    (hid : id ∈ Table.keys ds) :
    c.aliasKey? (c.url id) "" = some (targetKey "" (definitionPointer id)) := by
  have hfind : ((Table.keys ds).find? fun id' => c.url id' = c.url id) = some id := by
    cases hf : (Table.keys ds).find? fun id' => c.url id' = c.url id with
    | none =>
      have hno := List.find?_eq_none.1 hf id hid
      exact absurd (decide_eq_true rfl) hno
    | some id' =>
      rw [hurl id' (List.mem_of_find?_eq_some hf) (by simpa using List.find?_some hf)]
  unfold Context.aliasKey?
  rw [if_neg url_ne_empty, if_pos rfl, definitions?_eq hroot]
  show ((Table.keys ds).find? fun id' => c.url id' = c.url id).bind _ = _
  rw [hfind]
  rfl

theorem aliasKey?_document (hplain : ∀ id ∈ Table.keys ds, PlainId id) (hid : id ∈ Table.keys ds) :
    c.aliasKey? (c.url id) "" = some (targetKey "" (definitionPointer id)) :=
  aliasKey?_url hroot (fun id' hid' => url_inj (hplain id' hid') (hplain id hid)) hid

/-- A target that has the pointer to a definition for a key has the address of its document, too. -/
theorem document_key_of_pointer_key (hplain : ∀ id ∈ Table.keys ds, PlainId id)
    (hid : id ∈ Table.keys ds) {base pointer : String}
    (h : c.IsKey base pointer (targetKey "" (definitionPointer id))) :
    c.IsKey base pointer (targetKey (c.url id) "") := by
  have hhash := hash_not_mem_definitionPointer (hplain id hid).hash
  -- the pointer's key is the first key of the part of the root, or the second one of the document
  rcases h with hkey | hsecond
  · obtain ⟨rfl, rfl⟩ := eq_of_targetKey_eq hhash hkey
    exact .inr (aliasKey?_pointer hroot hid)
  · unfold Context.aliasKey? at hsecond
    by_cases hbase : base = ""
    · rw [if_pos hbase] at hsecond
      obtain ⟨id', -, hkey⟩ := Option.map_eq_some_iff.1 hsecond
      have hempty := (eq_of_targetKey_eq hhash hkey).2
      exact absurd hempty.symm (definitionPointer_ne_empty id)
    · rw [if_neg hbase] at hsecond
      by_cases hpointer : pointer = ""
      · rw [if_pos hpointer, definitions?_eq hroot] at hsecond
        obtain ⟨_, ⟨⟩, hsecond⟩ := Option.bind_eq_some_iff.1 hsecond
        obtain ⟨id', hfind, hkey⟩ := Option.bind_eq_some_iff.1 hsecond
        have hurl : c.url id' = base := by simpa using List.find?_some hfind
        have hsame := (eq_of_targetKey_eq hhash (Option.some.inj hkey)).2
        have heq := definitionPointer_injective hsame
        left
        rw [hpointer, ← hurl, heq]
      · rw [if_neg hpointer] at hsecond
        cases hsecond

end keys

end ApiTypes.Compile
