import ApiTypes.Output.Extract

namespace ApiTypes.Style

def candidates (dir : String) : List (String × String) :=
  (Path.ancestors dir).flatMap fun above => fileNames.map fun name => (name, Path.join above name)

/-- The paths up to the first file that holds a style. -/
def probedIn (read : String → Option String) : List (String × String) → List String
  | [] => []
  | (name, path) :: rest =>
    path :: if ((read path).bind (ofFile? name)).isSome then [] else probedIn read rest

def probed (read : String → Option String) (workDir : String) (o : Options) : List String :=
  if o.formats ∧ o.style.isNone then probedIn read (candidates (o.directory workDir)) else []

variable {read read' : String → Option String}

theorem find?_eq (read : String → Option String) (dir : String) :
    find? (m := Id) read dir =
      (candidates dir).findSome? fun (name, path) => (read path).bind (ofFile? name) := by
  have hid : ∀ {α β : Type} (xs : List α) (f : α → Option β),
      xs.findSomeM? (m := Id) f = xs.findSome? f :=
    fun xs f => List.findSomeM?_pure
  have hfind : find? (m := Id) read dir = (Path.ancestors dir).findSome? fun above =>
      fileNames.findSome? fun name => (read (Path.join above name)).bind (ofFile? name) := by
    unfold find?
    rw [hid]
    rfl
  rw [hfind]
  unfold candidates
  induction Path.ancestors dir with
  | nil => rfl
  | cons above rest ih =>
    rw [List.flatMap_cons, List.findSome?_append, List.findSome?_map, List.findSome?_cons, ih]
    show _ = Option.or (fileNames.findSome? fun name =>
      (read (Path.join above name)).bind (ofFile? name)) _
    cases fileNames.findSome? fun name => (read (Path.join above name)).bind (ofFile? name) with
    | some style => rfl
    | none => rfl

theorem findSome?_eq_of_probedIn {files : List (String × String)}
    (h : ∀ p ∈ probedIn read files, read' p = read p) :
    (files.findSome? fun (name, path) => (read' path).bind (ofFile? name)) =
      files.findSome? fun (name, path) => (read path).bind (ofFile? name) := by
  induction files with
  | nil => rfl
  | cons file rest ih =>
    obtain ⟨name, path⟩ := file
    unfold probedIn at h
    obtain ⟨hpath, hrest⟩ := List.forall_mem_cons.1 h
    rw [List.findSome?_cons, List.findSome?_cons]
    dsimp only
    rw [hpath]
    -- the search ends with this file, or the rest was looked at as well
    cases hstyle : (read path).bind (ofFile? name) with
    | some style => rfl
    | none =>
      rw [hstyle] at hrest
      exact ih hrest

/-- The style is the same wherever the same is read at the paths that are looked at. -/
theorem resolve_eq_of_probed {workDir : String} {o : Options}
    (h : ∀ p ∈ probed read workDir o, read' p = read p) :
    resolve (m := Id) read' workDir o = resolve (m := Id) read workDir o := by
  unfold resolve
  split
  · next hformats =>
    cases hstyle : o.style with
    | some style => rfl
    | none =>
      unfold probed at h
      rw [if_pos ⟨hformats, by rw [hstyle]; rfl⟩] at h
      have hfind : find? (m := Id) read' (o.directory workDir) =
          find? (m := Id) read (o.directory workDir) := by
        rw [find?_eq, find?_eq]
        exact findSome?_eq_of_probedIn h
      exact congrArg (fun s : Option Style => some (s.getD default)) hfind
  · rfl

/-- The same is rendered wherever the same is read while the style is looked for. -/
theorem render_eq_of_probed {workDir : String} {rs : Route.Routes} {ds : List (String × Json)}
    {settings : Output.Settings}
    (h : ∀ p ∈ probed read workDir settings.options, read' p = read p) :
    Output.render (m := Id) read' workDir rs ds settings =
      Output.render (m := Id) read workDir rs ds settings := by
  unfold Output.render
  split
  · rfl
  · rw [resolve_eq_of_probed h]

end ApiTypes.Style
