import ApiTypes.Proofs.Compile.Documents

namespace ApiTypes

namespace Text

theorem replaceFirst_append (old new s : List Char) :
    replaceFirst old new (old ++ s) = new ++ s := by
  unfold replaceFirst
  rw [after?_append]

theorem splitFirst?_append {c : Char} {s : List Char} (h : c ∉ s) (t : List Char) :
    splitFirst? c (s ++ c :: t) = some (s, t) := by
  induction s with
  | nil => simp [splitFirst?]
  | cons d s ih =>
    simp only [List.mem_cons, not_or] at h
    simp [splitFirst?, Ne.symm h.1, ih h.2]

/-- A text is cut at the first place of a character in one way. -/
theorem eq_of_append_cons {c : Char} {s s' t t' : List Char} (hs : c ∉ s) (hs' : c ∉ s')
    (h : s ++ c :: t = s' ++ c :: t') : s = s' ∧ t = t' := by
  have hsplit := congrArg (splitFirst? c) h
  rw [splitFirst?_append hs, splitFirst?_append hs'] at hsplit
  exact Prod.mk.inj (Option.some.inj hsplit)

end Text

namespace Resolver

variable {ds : List (String × Json)} {id : String} {d : Json}

theorem idOf_append (cwd id : String) : idOf cwd (cwd ++ id) = id := by
  simp [idOf, Text.replaceFirst_append]

theorem lookup?_of_get? (h : Table.get? id ds = some d) : lookup? ds id = some d := by
  simp [lookup?, h]

/-- The id with a slash in front comes before the id itself. -/
theorem lookup?_slash (h : Table.get? id ds = some d) :
    lookup? ds ("/" ++ id) = some ((Table.get? ("/" ++ id) ds).getD d) := by
  have hrest : Text.after? ['/'] ("/" ++ id).toList = some id.toList := by
    simp [Text.after?]
  unfold lookup?
  cases Table.get? ("/" ++ id) ds with
  | some j => rfl
  | none =>
    rw [hrest]
    simpa using h

end Resolver

namespace Compile

def Context.shared (workDir : String) (o : Options) (ds : List (String × Json)) (root : Json) :
    Context :=
  .of workDir (o.forDefinitions workDir ds) root

theorem splitReference_document {id : String} (h : '#' ∉ id.toList) :
    splitReference (id ++ "#") = (id, "") := by
  have hsplit : Text.splitFirst? '#' (id ++ "#").toList = some (id.toList, []) := by
    simpa using Text.splitFirst?_append h []
  rw [splitReference, hsplit]
  simp

section shared

variable {workDir : String} {o : Options} {ds : List (String × Json)} {root : Json} {s : State}
variable {id : String} {d : Json}

theorem resolve_shared (hown : o.resolvers = []) {url : String}
    (hurl : Resolver.isWebAddress url = false) {j : Json}
    (h : Resolver.lookup? ds (Resolver.idOf (o.directory workDir) url) = some j) :
    (Context.shared workDir o ds root).options.resolvers.resolve url = .ok j := by
  have hresolvers : (Context.shared workDir o ds root).options.resolvers =
      [(Options.definitionsResolver, .ofDefinitions (o.directory workDir) ds)] := by
    simp [Context.shared, Context.of, Options.forDefinitions, hown]
  simp [hresolvers, Resolvers.resolve, Resolver.ofDefinitions, hurl, h]

/-- What is left of the address of an id without the directory that was configured. -/
theorem idOf_url {c : Context} {dir : String} (hid : Resolver.isWebAddress id = false)
    (hdir : c.cwd = dir ∨ dir = c.cwd ++ "/" ∧ Text.startsWith ['/'] id.toList = false) :
    Resolver.idOf dir (c.url id) =
      if Text.startsWith ['/'] id.toList = false ∧ c.cwd = dir then "/" ++ id else id := by
  unfold Context.url
  rw [if_neg (by simp [hid])]
  by_cases hslash : Text.startsWith ['/'] id.toList = true
  · have hdir : c.cwd = dir := by simpa [hslash] using hdir
    simp [hslash, hdir, Resolver.idOf_append]
  · -- the slash put in between is left over, unless the directory was configured with it
    by_cases hcwd : c.cwd = dir
    · simp [hslash, hcwd, String.append_assoc, Resolver.idOf_append]
    · obtain ⟨rfl, -⟩ := hdir.resolve_left hcwd
      simp [hslash, hcwd, Resolver.idOf_append]

theorem url_ne_empty {c : Context} : c.url id ≠ "" := by
  unfold Context.url
  split
  · next hweb =>
    rintro rfl
    exact absurd hweb (by decide)
  · split
    · next hslash =>
      -- an id with a slash in front is not empty
      intro h
      obtain rfl : id = "" := (String.append_eq_empty_iff.1 h).2
      exact absurd hslash (by decide)
    · simp

/-- A reference to a definition leads to it, if the directory has no slash at its end, or one and
the id none in front; it is read so in every state that a compilation can be in.  Where neither has
a slash, an id with a slash in front comes first. -/
theorem document_of_definition (workDir : String) (o : Options) (ds : List (String × Json))
    (root : Json) (c : Context) (hc : c = .shared workDir o ds root) (hown : o.resolvers = [])
    (hd : Table.get? id ds = some d) (hne : id ≠ "") (hhash : '#' ∉ id.toList)
    (hurl : Resolver.isWebAddress (c.url id) = false)
    (hdir : c.cwd = o.directory workDir ∨
      o.directory workDir = c.cwd ++ "/" ∧ Text.startsWith ['/'] id.toList = false) :
    ∃ j, j = (if Text.startsWith ['/'] id.toList = false ∧ c.cwd = o.directory workDir then
        (Table.get? ("/" ++ id) ds).getD d else d) ∧
      splitReference (id ++ "#") = (id, "") ∧
      (∀ bases, c.options.resolvers.resolve (c.base bases id) = .ok j) ∧
      ∀ s, s.Reads c →
        Ends (document c (c.base s.bases id)) s (fun j' _ => j' = j) fun _ => False := by
  refine ⟨_, rfl, splitReference_document hhash, ?_⟩
  -- a web address would be its own url
  have hid : Resolver.isWebAddress id = false := by
    by_contra hweb
    have hself : c.url id = id := if_pos (by simpa using hweb)
    rw [hself] at hurl
    exact hweb hurl
  have hbase : ∀ bases, c.base bases id = c.url id := fun _ => if_neg hne
  have hread : ∀ bases, c.options.resolvers.resolve (c.base bases id) = .ok
      (if Text.startsWith ['/'] id.toList = false ∧ c.cwd = o.directory workDir then
        (Table.get? ("/" ++ id) ds).getD d else d) := by
    intro bases
    rw [hbase]
    subst hc
    apply resolve_shared hown hurl
    rw [idOf_url hid hdir]
    split
    · exact Resolver.lookup?_slash hd
    · exact Resolver.lookup?_of_get? hd
  refine ⟨hread, fun s hs => (ends_document hs).mono ?_ ?_⟩
  · rintro j' _ ⟨-, hj'⟩
    exact Except.ok.inj ((hj' (by rw [hbase]; exact url_ne_empty)).symm.trans (hread s.bases))
  · rintro e ⟨-, he⟩
    cases he.symm.trans (hread s.bases)

/-- Two ids that differ in a slash in front, registered together. -/
def slashed : List (String × Json) :=
  [("info", .object [("type", .string "string")]), ("/info", .object [("type", .string "number")])]

theorem document_of_definition_slashed :
    ∃ c, c = Context.shared "/app" .default slashed .null ∧
      splitReference ("info" ++ "#") = ("info", "") ∧
      c.options.resolvers.resolve (c.base [] "info") =
        .ok (.object [("type", .string "number")]) := by
  have hurl : Resolver.isWebAddress
      ((Context.shared "/app" .default slashed .null).url "info") = false := by
    decide +kernel
  have hcwd : (Context.shared "/app" .default slashed .null).cwd = "/app" := by
    decide +kernel
  obtain ⟨j, hj, hsplit, hread, -⟩ := document_of_definition "/app" .default slashed .null _ rfl rfl
    (show Table.get? "info" slashed = some (.object [("type", .string "string")]) from rfl)
    (by decide) (by decide) hurl (.inl hcwd)
  rw [if_pos ⟨by decide, hcwd⟩] at hj
  exact ⟨_, rfl, hsplit, (hread []).trans (congrArg _ hj)⟩

/-- Not every reference to a definition reads it. -/
theorem not_document_of_definition : ¬ ∀ (workDir : String) (o : Options)
    (ds : List (String × Json)) (root : Json) (id : String) (d : Json), o.resolvers = [] →
      Table.get? id ds = some d → id ≠ "" → '#' ∉ id.toList →
      Resolver.isWebAddress id = false →
      (Context.shared workDir o ds root).options.resolvers.resolve
        ((Context.shared workDir o ds root).url id) = .ok d := by
  intro h
  have hid : Resolver.isWebAddress "info" = false := by decide
  have hfirst := h "/app" .default slashed .null "info" (.object [("type", .string "string")]) rfl
    rfl (by decide) (by decide) hid
  have hcwd : (Context.shared "/app" .default slashed .null).cwd = "/app" := by
    decide +kernel
  have hurl : Resolver.isWebAddress
      ((Context.shared "/app" .default slashed .null).url "info") = false := by
    decide +kernel
  -- taking the directory out leaves the slash, and `/info` is registered, too
  have hrest := idOf_url hid (.inl hcwd)
  rw [if_pos ⟨by decide, hcwd⟩] at hrest
  have hother : Resolver.lookup? slashed (Resolver.idOf "/app"
      ((Context.shared "/app" .default slashed .null).url "info")) =
      some (.object [("type", .string "number")]) := by
    rw [hrest]
    rfl
  have hsecond : (Context.shared "/app" .default slashed .null).options.resolvers.resolve
      ((Context.shared "/app" .default slashed .null).url "info") =
      .ok (.object [("type", .string "number")]) :=
    resolve_shared rfl hurl hother
  have heq := Except.ok.inj (hfirst.symm.trans hsecond)
  simp at heq

end shared

end Compile

end ApiTypes
