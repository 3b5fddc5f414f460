import ApiTypes.Proofs.Compile.Scope
import ApiTypes.Proofs.Compile.Termination
import ApiTypes.Proofs.Reference.Linked

namespace ApiTypes

/-- An object of the document, at any depth, has the reference as its member `$ref`. -/
def Json.RefersTo (doc : Json) (ref : String) : Prop :=
  ∃ members, Json.Within (.object members) doc ∧ Table.get? "$ref" members = some (.string ref)

/-- The resolver in charge of the address fails with the error of its own accord. -/
def Resolvers.Answers (rs : Resolvers) (url : String) (e : Error) : Prop :=
  ∃ r, rs.find? (·.2.accepts url) = some r ∧ r.2.read url = .error e

theorem Resolvers.resolve_eq_error {rs : Resolvers} {url : String} {e : Error}
    (h : rs.resolve url = .error e) :
    (∀ r ∈ rs, r.2.accepts url = false) ∧ e = .noResolver url ∨ rs.Answers url e := by
  unfold Resolvers.resolve at h
  split at h
  · next name r hfind => exact .inr ⟨(name, r), hfind, h⟩
  · next hfind =>
    refine .inl ⟨fun r hr => ?_, (Except.error.inj h).symm⟩
    simpa using List.find?_eq_none.1 hfind r hr

namespace Compile

open TypeScript Json

/-- The addresses of the root and of the documents that references lead to from there. -/
inductive Context.Reached (c : Context) : String → Prop
  | root : c.Reached ""
  | reference {address ref : String} {doc : Json} (h : c.Reached address)
      (hdoc : c.behind address = .ok doc) (href : doc.RefersTo ref) :
      c.Reached (c.address [address] ref).1

/-- How looking up a reference that stands in the document at an address fails. -/
inductive Context.Missed (c : Context) (address ref : String) : Error → Prop
  /-- The pointer after the first `#` leads nowhere in the document that the reference is about. -/
  | pointer {document pointer : String} {doc : Json} (href : ref = document ++ "#" ++ pointer)
      (hdocument : '#' ∉ document.toList)
      (hdoc : c.behind (c.base [address] document) = .ok doc)
      (h : Json.Pointer.resolve? pointer doc = none) :
      c.Missed address ref (.invalidPointer pointer
        (if c.base [address] document = "" then "#" else c.base [address] document))
  /-- No resolver takes the address that the reference maps to. -/
  | refused {document pointer : String} (href : splitReference ref = (document, pointer))
      (hdocument : document ≠ "")
      (h : ∀ r ∈ c.options.resolvers, r.2.accepts (c.url document) = false) :
      c.Missed address ref (.noResolver (c.url document))
  /-- The first resolver that takes the address fails to read it, with an error of its own. -/
  | unread {document pointer : String} {e : Error}
      (href : splitReference ref = (document, pointer)) (hdocument : document ≠ "")
      (h : c.options.resolvers.Answers (c.url document) e) : c.Missed address ref e

namespace Context.Missed

variable {c : Context} {address ref : String}

/-- Unless the resolver in charge says so itself, a missing resolver is one that nobody has
registered. -/
theorem noResolver {url : String} (h : c.Missed address ref (.noResolver url))
    (hown : (splitReference ref).1 ≠ "" →
      ¬ c.options.resolvers.Answers (c.url (splitReference ref).1) (.noResolver url)) :
    ∃ id pointer, splitReference ref = (id, pointer) ∧ id ≠ "" ∧ url = c.url id ∧
      ∀ r ∈ c.options.resolvers, r.2.accepts url = false := by
  cases h with
  | refused href hdocument h => exact ⟨_, _, href, hdocument, rfl, h⟩
  | unread href hdocument h =>
    rw [href] at hown
    exact absurd h (hown hdocument)

/-- Unless the resolver in charge says so itself, an invalid pointer is that of the reference. -/
theorem invalidPointer {pointer document : String}
    (h : c.Missed address ref (.invalidPointer pointer document))
    (hown : (splitReference ref).1 ≠ "" →
      ¬ c.options.resolvers.Answers (c.url (splitReference ref).1)
        (.invalidPointer pointer document)) :
    ∃ id doc, ref = id ++ "#" ++ pointer ∧ '#' ∉ id.toList ∧
      document = (if c.base [address] id = "" then "#" else c.base [address] id) ∧
      c.behind (c.base [address] id) = .ok doc ∧ Json.Pointer.resolve? pointer doc = none := by
  cases h with
  | pointer href hhash hdoc h => exact ⟨_, _, href, hhash, rfl, hdoc, h⟩
  | unread href hdocument h =>
    rw [href] at hown
    exact absurd h (hown hdocument)

end Context.Missed

def Context.Blames (c : Context) (e : Error) : Prop :=
  ∃ address doc ref, c.Reached address ∧ c.behind address = .ok doc ∧ doc.RefersTo ref ∧
    c.Missed address ref e

theorem refersTo_of_text? {schema doc : Json} {ref : String} (hwithin : Within schema doc)
    (h : schema.text? "$ref" = some ref) : doc.RefersTo ref := by
  obtain ⟨members, rfl, hget⟩ := exists_members_of_text? h
  exact ⟨members, hwithin, hget⟩

/-- Without references there is only the root. -/
theorem Context.Reached.eq_root {c : Context} (hroot : ∀ ref, ¬ c.root.RefersTo ref)
    {address : String} (h : c.Reached address) : address = "" := by
  induction h with
  | root => rfl
  | reference _ hdoc href ih =>
    subst ih
    obtain rfl : c.root = _ := Except.ok.inj hdoc
    exact absurd href (hroot _)

theorem not_blames_of_no_references {c : Context} (hroot : ∀ ref, ¬ c.root.RefersTo ref)
    (e : Error) : ¬ c.Blames e := by
  rintro ⟨address, doc, ref, haddress, hdoc, href, -⟩
  obtain rfl := haddress.eq_root hroot
  obtain rfl : c.root = doc := Except.ok.inj hdoc
  exact hroot ref href

theorem resolve?_empty (doc : Json) : Json.Pointer.resolve? "" doc = some doc :=
  rfl

/-- A reference is its document, and behind the first `#` its pointer. -/
theorem eq_of_splitReference {ref document pointer : String}
    (h : splitReference ref = (document, pointer)) (hpointer : pointer ≠ "") :
    ref = document ++ "#" ++ pointer ∧ '#' ∉ document.toList := by
  unfold splitReference at h
  split at h
  · next d p hsplit =>
    obtain ⟨rfl, rfl⟩ := Prod.mk.inj h
    obtain ⟨hlist, hnot⟩ := Text.eq_append_of_splitFirst? hsplit
    refine ⟨String.toList_inj.1 ?_, by simpa using hnot⟩
    simp [hlist]
  · exact absurd (Prod.mk.inj h).2.symm hpointer

/-- Where a reference in a document has no target it is missed in one of the three ways. -/
theorem missed_of_part {c : Context} {address ref : String} {doc : Json} {e : Error}
    (hdoc : c.behind address = .ok doc)
    (h : c.part (c.address [address] ref).1 (c.address [address] ref).2 = .error e) :
    c.Missed address ref e := by
  obtain ⟨document, pointer, hsplit⟩ : ∃ d p, splitReference ref = (d, p) := ⟨_, _, rfl⟩
  unfold Context.address at h
  rw [hsplit] at h
  unfold Context.part at h
  cases hbehind : c.behind (c.base [address] document) with
  | error e' =>
    rw [hbehind] at h
    obtain rfl : e' = e := Except.error.inj h
    -- the document that the reference stands in is there, so it names another one
    have hdocument : document ≠ "" := by
      rintro rfl
      have hsame : c.behind (c.base [address] "") = .ok doc := hdoc
      rw [hbehind] at hsame
      cases hsame
    have hresolve : c.options.resolvers.resolve (c.url document) = .error e' := by
      rw [Context.base, if_neg hdocument, Context.behind, if_neg url_ne_empty] at hbehind
      exact hbehind
    obtain ⟨hnone, rfl⟩ | hanswers := Resolvers.resolve_eq_error hresolve
    · exact .refused hsplit hdocument hnone
    · exact .unread hsplit hdocument hanswers
  | ok target =>
    rw [hbehind] at h
    dsimp only [Except.bind] at h
    cases hresolve : Json.Pointer.resolve? pointer target with
    | some j =>
      rw [hresolve] at h
      cases h
    | none =>
      rw [hresolve] at h
      obtain rfl := Except.error.inj h
      have hpointer : pointer ≠ "" := by
        rintro rfl
        rw [resolve?_empty] at hresolve
        cases hresolve
      obtain ⟨href, hhash⟩ := eq_of_splitReference hsplit hpointer
      exact .pointer href hhash hbehind hresolve

/-- Inside a chain of documents the action ends, or it fails with the error of a reference. -/
def Accounts {α : Type} (c : Context) (chain : List String) (a : Action α) : Prop :=
  ∀ s, s.Inside c chain → Ends a s (fun _ t => t.Inside c chain) c.Blames

section rules

variable {α β : Type} {c : Context} {chain : List String}

theorem ends_congr {a a' : Action α} {s s' : State} {Q : α → State → Prop} {E : Error → Prop}
    (h : a.run s = a'.run s') : Ends a s Q E ↔ Ends a' s' Q E := by
  unfold Ends
  rw [h]

theorem accounts_pure (x : α) : Accounts c chain (pure x) :=
  fun _ hs => hs

theorem Accounts.bind {a : Action β} {f : β → Action α} (h : Accounts c chain a)
    (hf : ∀ x, Accounts c chain (f x)) : Accounts c chain (a >>= f) := by
  intro s hs
  rw [ends_bind]
  exact (h s hs).imp fun x t ht => hf x t ht

def accounting (c : Context) (chain : List String) : Simulation Action Action where
  Rel a _ := Accounts c chain a
  rel_pure := accounts_pure
  rel_bind := Accounts.bind

theorem Accounts.declare {a : Action TypeExpr} (h : Accounts c chain a) (name : String)
    (description : Option String) : Accounts c chain (declare name description a) := by
  intro s hs
  rw [ends_declare]
  have hopened : State.Inside c chain { s with slots := s.slots ++ [none] } := ⟨hs.bases, hs.reads⟩
  exact (h _ hopened).imp fun _ _ ht => ⟨ht.bases, ht.reads⟩

theorem Accounts.within {base : String} {a : Action α} (h : Accounts c (entered base chain) a) :
    Accounts c chain (within base a) := by
  intro s hs
  unfold Compile.within
  unfold entered at h
  by_cases hbase : base = ""
  · rw [if_pos hbase] at h ⊢
    exact h s hs
  · rw [if_neg hbase] at h ⊢
    rw [ends_inside]
    have hentered : State.Inside c (base :: chain) { s with bases := base :: s.bases } :=
      ⟨congrArg (base :: ·) hs.bases, hs.reads⟩
    exact (h _ hentered).imp fun _ t ht => ⟨congrArg List.tail ht.bases, ht.reads⟩

end rules

section layers

variable {c : Context} {chain : List String} {inner : Json → Action TypeExpr}

/-- The schema stands in the innermost document of a chain, to which references lead. -/
def Context.Finds (c : Context) (chain : List String) (schema : Json) : Prop :=
  c.Reached (chain.headD "") ∧ c.Holds chain schema

variable (hinner : ∀ chain schema, c.Finds chain schema → Accounts c chain (inner schema))

include hinner

/-- A target that is there is compiled in the document it stands in. -/
theorem accounts_namedTarget {base pointer : String}
    (hmissed : ∀ e, c.part base pointer = .error e → c.Blames e)
    (hfound : ∀ schema, c.part base pointer = .ok schema → c.Finds (entered base chain) schema) :
    Accounts c chain (namedTarget c inner base pointer) := by
  intro s hs
  rw [ends_congr (run_namedTarget c inner base pointer s)]
  -- a name that is known is answered at once; otherwise the target is looked up, which can fail,
  -- and declared, where only the schemas inside it can fail
  cases s.known? c base pointer with
  | some name => exact hs
  | none =>
    obtain ⟨documents, hreads, hrun⟩ := run_target hs.reads base pointer
    dsimp only
    cases hpart : c.part base pointer with
    | error e =>
      rw [hpart] at hrun
      unfold Ends firstTarget
      rw [run_bind_error hrun]
      exact hmissed e hpart
    | ok schema =>
      rw [hpart] at hrun
      rw [ends_congr (run_firstTarget hrun)]
      generalize freshName _ _ = name
      have hgiven : State.Inside c chain (State.given c { s with documents } base pointer name) :=
        ⟨hs.bases, hreads⟩
      unfold declaredTarget
      split
      · exact ((hinner _ schema (hfound schema hpart)).declare name _).within _ hgiven
      · exact hgiven

/-- A reference in the innermost document accounts for its errors. -/
theorem accounts_reference {ref : String} {doc : Json} (hreached : c.Reached (chain.headD ""))
    (hdoc : c.behind (chain.headD "") = .ok doc) (href : doc.RefersTo ref) :
    Accounts c chain (reference c inner ref) := by
  have haddress : c.address chain ref = c.address [chain.headD ""] ref := rfl
  have hentered : (entered (c.address chain ref).1 chain).headD "" = (c.address chain ref).1 :=
    headD_entered headD_of_base
  intro s hs
  rw [ends_congr (run_reference_eq c inner ref s), hs.bases]
  refine accounts_namedTarget hinner (fun e he => ?_) (fun schema hschema => ?_) s hs
  · rw [haddress] at he
    exact ⟨_, doc, ref, hreached, hdoc, href, missed_of_part hdoc he⟩
  · refine ⟨?_, holds_of_part hschema⟩
    rw [hentered, haddress]
    exact hreached.reference hdoc href

/-- A definition of the root is there. -/
theorem accounts_definition {id : String} (h : id ∈ Table.keys (c.definitions?.getD [])) :
    Accounts c [] (reference c inner ("#" ++ definitionPointer id)) := by
  obtain ⟨ds, hroot, -, hid⟩ := exists_definitions_of_mem h
  obtain ⟨d, hd⟩ := Option.isSome_iff_exists.1 (Table.mem_keys_iff.1 hid)
  have hpart : c.part "" (definitionPointer id) = .ok d := by
    rw [part_root, resolve?_definitionPointer hroot, hd]
  have haddress : c.address [] ("#" ++ definitionPointer id) = ("", definitionPointer id) :=
    address_local c [] (definitionPointer id)
  intro s hs
  rw [ends_congr (run_reference_eq c inner _ s), hs.bases, haddress]
  refine accounts_namedTarget hinner (fun e he => ?_) (fun schema hschema => ?_) s hs
  · rw [hpart] at he
    cases he
  · exact ⟨.root, exists_within_of_part hschema⟩

/-- A layer inside a document accounts for its errors. -/
theorem simulates_accounting :
    Simulates (accounting c chain) (c.Finds chain) (.of c inner) (.of c inner) where
  inherited := by
    rintro j k ⟨hreached, doc, hdoc, hwithin⟩ hpart
    exact ⟨hreached, doc, hdoc, (Within.self.part hpart).trans hwithin⟩
  reference := by
    rintro j ref ⟨hreached, doc, hdoc, hwithin⟩ href
    exact accounts_reference hinner hreached hdoc (refersTo_of_text? hwithin href)
  titled title j hj := by
    refine Accounts.bind (fun s hs => ?_) fun name => (hinner chain j hj).declare name _
    exact (ends_uniqueName title).2 ⟨hs.bases, hs.reads⟩
  inner j hj := hinner chain j hj

end layers

theorem accounts_bodyTypeThen (c : Context) (bound : Nat) (chain : List String) (schema : Json)
    (h : c.Finds chain schema) :
    Accounts c chain (bodyTypeThen c (fun _ => pure (.keyword .unknown)) bound schema) := by
  -- on the bound, because what a schema leads to is compiled with one less
  induction bound generalizing chain schema with
  | zero => exact accounts_pure _
  | succ bound ih =>
    unfold bodyTypeThen
    rw [← Walk.schemaType_of]
    exact (simulates_accounting ih).schemaType h

theorem accounts_programBy (c : Context) (name : String) :
    Accounts c [] (programBy c
      (bodyTypeThen c (fun _ => pure (.keyword .unknown)) c.bound) name) := by
  have hbody := accounts_bodyTypeThen c c.bound
  have hroot : Accounts c [] (rootBy c
      (bodyTypeThen c (fun _ => pure (.keyword .unknown)) c.bound) name) := by
    intro s hs
    unfold rootBy
    simp only [ends_bind, ends_uniqueName, ends_modify]
    exact (hbody [] c.root ⟨.root, holds_root c⟩).declare _ _ _ ⟨hs.bases, hs.reads⟩
  refine hroot.bind fun _ => ?_
  split
  · have hall : (accounting c []).Rel
        (allDefinitionsBy c (bodyTypeThen c (fun _ => pure (.keyword .unknown)) c.bound))
        (allDefinitionsBy c (bodyTypeThen c (fun _ => pure (.keyword .unknown)) c.bound)) :=
      (accounting c []).rel_forM fun id hid =>
        (accounts_definition hbody hid).bind fun _ => accounts_pure _
    exact hall
  · exact accounts_pure _

/-- A compilation that fails has met a reference that is to blame. -/
theorem blames_of_declarations {c : Context} {name : String} {e : Error}
    (h : declarations c name = .error e) : c.Blames e := by
  -- the layers are not used up, so what comes after them may be anything without errors
  rw [← declarationsBy_bodyTypeThen c fun _ => pure (.keyword .unknown)] at h
  have hprogram := accounts_programBy c name State.empty ⟨rfl, reads_empty c⟩
  unfold declarationsBy at h
  unfold Ends at hprogram
  split at h
  · cases h
  · next e' s hrun =>
    rw [hrun] at hprogram
    exact Except.error.inj h ▸ hprogram

/-- Every error is that of a reference in the root, or in a document that references lead to from
there.  So without a reference in the root there is a text, also where all definitions are declared:
those are found under their keys.  An error that the resolver in charge does not make itself says
what has happened: no resolver takes the address of the reference, or its pointer leads nowhere. -/
theorem failures_caused (workDir name : String) (o : Options) (schema : Json) :
    ((∀ ref, ¬ schema.RefersTo ref) → ∃ text, schemaText workDir o name schema = .ok text) ∧
    ∀ e, schemaText workDir o name schema = .error e →
      ∃ address doc ref, (Context.of workDir o schema).Reached address ∧
        (address = "" ∧ doc = schema ∨ o.resolvers.resolve address = .ok doc) ∧
        doc.RefersTo ref ∧ (Context.of workDir o schema).Missed address ref e ∧
        (((splitReference ref).1 ≠ "" → ¬ o.resolvers.Answers
            ((Context.of workDir o schema).url (splitReference ref).1) e) →
          (∀ url, e = .noResolver url → ∃ id pointer, splitReference ref = (id, pointer) ∧
            id ≠ "" ∧ url = (Context.of workDir o schema).url id ∧
            ∀ r ∈ o.resolvers, r.2.accepts url = false) ∧
          ∀ pointer document, e = .invalidPointer pointer document →
            ∃ id doc', ref = id ++ "#" ++ pointer ∧ '#' ∉ id.toList ∧
              document = (if (Context.of workDir o schema).base [address] id = "" then "#"
                else (Context.of workDir o schema).base [address] id) ∧
              (Context.of workDir o schema).behind
                ((Context.of workDir o schema).base [address] id) = .ok doc' ∧
              Json.Pointer.resolve? pointer doc' = none) := by
  -- the text is made without errors once the declarations are there
  have hblames : ∀ e, schemaText workDir o name schema = .error e →
      (Context.of workDir o schema).Blames e := by
    intro e he
    unfold schemaText at he
    cases hds : declarations (.of workDir o schema) name with
    | error e' =>
      rw [hds] at he
      obtain rfl : e' = e := Except.error.inj he
      exact blames_of_declarations hds
    | ok ds =>
      rw [hds] at he
      dsimp only [bind, Except.bind] at he
      split at he <;> cases he
  constructor
  · intro hnone
    cases htext : schemaText workDir o name schema with
    | ok text => exact ⟨text, rfl⟩
    | error e => exact absurd (hblames e htext) (not_blames_of_no_references hnone e)
  · intro e he
    obtain ⟨address, doc, ref, haddress, hdoc, href, hmissed⟩ := hblames e he
    refine ⟨address, doc, ref, haddress, ?_, href, hmissed, fun hown => ⟨?_, ?_⟩⟩
    · unfold Context.behind at hdoc
      split at hdoc
      · next hempty => exact .inl ⟨hempty, (Except.ok.inj hdoc).symm⟩
      · exact .inr hdoc
    · rintro url rfl
      exact hmissed.noResolver hown
    · rintro pointer document rfl
      exact hmissed.invalidPointer hown

theorem mem_membersReferences {members : List (String × Json)} {ref : String}
    (h : ("$ref", .string ref) ∈ members) : ref ∈ membersReferences members := by
  induction members with
  | nil => cases h
  | cons p members ih =>
    obtain ⟨key, j⟩ := p
    rw [membersReferences, List.mem_append]
    obtain h | h := List.mem_cons.1 h
    · obtain ⟨rfl, rfl⟩ := Prod.mk.inj h
      exact .inl (List.mem_append_left _ List.mem_cons_self)
    · exact .inr (ih h)

theorem mem_references_of_refersTo {doc : Json} {ref : String} (h : doc.RefersTo ref) :
    ref ∈ references doc := by
  obtain ⟨members, hwithin, hget⟩ := h
  exact references_subset_of_within hwithin (mem_membersReferences (Table.mem_of_get? hget))

def lostOptions : Options :=
  Options.default.forDefinitions "/app"
    [("a", .object [("items", .object [("$ref", .string "#/nowhere")])])]

def lostRoot : Json :=
  .object [("$ref", .string "a#")]

def senselessRoot : Json :=
  .object [("title", .bool true), ("properties", .object [
      ("a", .object [("type", .array [.string "object", .null]), ("required", .string "a"),
        ("properties", .array [])]),
      ("b", .object [("items", .number (.integer 1)), ("additionalProperties", .null)])]),
    ("definitions", .object [("a/b", .object [("$ref", .null), ("oneOf", .object [])])])]

theorem failures_caused_lost :
    (∃ text, schemaText "/" { Options.default with unreachableDefinitions := true } "Root"
      senselessRoot = .ok text) ∧
    schemaText "/app" lostOptions "Root" lostRoot = .error (.invalidPointer "/nowhere" "/app/a") ∧
    ∃ (address : String) (doc : Json) (ref : String), doc.RefersTo ref ∧
      (Context.of "/app" lostOptions lostRoot).Missed address ref
        (.invalidPointer "/nowhere" "/app/a") ∧
      ∃ id doc', ref = id ++ "#" ++ "/nowhere" ∧ Json.Pointer.resolve? "/nowhere" doc' = none := by
  have hfails : schemaText "/app" lostOptions "Root" lostRoot =
      .error (.invalidPointer "/nowhere" "/app/a") := by
    decide +kernel
  have hnone : ∀ ref, ¬ senselessRoot.RefersTo ref := by
    intro ref href
    have hmem := mem_references_of_refersTo href
    rw [show references senselessRoot = [] by decide +kernel] at hmem
    cases hmem
  -- the resolver for definitions only ever says that there is no definition
  have hown : ∀ url, ¬ lostOptions.resolvers.Answers url (.invalidPointer "/nowhere" "/app/a") := by
    rintro url ⟨r, hr, hread⟩
    obtain rfl := List.mem_singleton.1 (List.mem_of_find?_eq_some hr)
    dsimp only [Resolver.ofDefinitions] at hread
    split at hread <;> cases hread
  obtain ⟨address, doc, ref, -, -, href, hmissed, hsays⟩ :=
    (failures_caused "/app" "Root" lostOptions lostRoot).2 _ hfails
  obtain ⟨-, hpointer⟩ := hsays fun _ => hown _
  obtain ⟨id, doc', heq, -, -, -, hresolve⟩ := hpointer _ _ rfl
  exact ⟨(failures_caused "/" "Root" _ senselessRoot).1 hnone, hfails, address, doc, ref, href,
    hmissed, id, doc', heq, hresolve⟩

def answering (error : String → Error) : Options :=
  { Options.default with resolvers := [("own", .failing (fun _ => true) error)] }

def serving (url : String) : Options :=
  { Options.default with
    cwd := some "/app"
    resolvers := [("own", .constant (· == url) (.object [("type", .string "string")]))] }

/-- A resolver may itself say that there is none, or that a pointer is invalid; and the directory
and an id that begins with a slash are joined without another one. -/
theorem not_failures_caused :
    (¬ ∀ (workDir name url : String) (o : Options) (schema : Json),
      schemaText workDir o name schema = .error (.noResolver url) →
      ∀ r ∈ o.resolvers, r.2.accepts url = false) ∧
    (¬ ∀ (workDir name pointer document : String) (o : Options) (schema : Json),
      schemaText workDir o name schema = .error (.invalidPointer pointer document) →
      ∃ doc, (document = "#" ∧ doc = schema ∨ o.resolvers.resolve document = .ok doc) ∧
        Json.Pointer.resolve? pointer doc = none) ∧
    ¬ ∀ (workDir name id cwd url : String) (o : Options), o.cwd = some cwd →
      schemaText workDir o name (.object [("$ref", .string (id ++ "#"))]) =
        .error (.noResolver url) →
      ∀ r ∈ o.resolvers, r.2.accepts (cwd ++ "/" ++ id) = false := by
  refine ⟨fun hall => ?_, fun hall => ?_, fun hall => ?_⟩
  · -- the resolver takes the address and says that nobody does
    have hfails : schemaText "/app" (answering .noResolver) "Root" lostRoot =
        .error (.noResolver "/app/a") := by
      decide +kernel
    cases hall _ _ _ _ _ hfails _ List.mem_cons_self
  · -- the resolver has no document at all
    have hfails : schemaText "/app" (answering (.invalidPointer "")) "Root" lostRoot =
        .error (.invalidPointer "" "/app/a") := by
      decide +kernel
    obtain ⟨doc, -, hresolve⟩ := hall _ _ _ _ _ _ hfails
    cases hresolve
  · -- the id brings its own slash, so there is only one behind the directory
    have hfails : schemaText "/" (serving "/app//nested/id") "Root"
        (.object [("$ref", .string ("/nested/id" ++ "#"))]) =
        .error (.noResolver "/app/nested/id") := by
      decide +kernel
    have hrefused := hall _ _ "/nested/id" "/app" _ _ rfl hfails _ List.mem_cons_self
    revert hrefused
    decide

end Compile

end ApiTypes
