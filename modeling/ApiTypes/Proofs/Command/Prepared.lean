import ApiTypes.Proofs.Files.Saving
import ApiTypes.Proofs.Output.Banner
import ApiTypes.Proofs.Style.Search

namespace ApiTypes.Command

open Files

section prepared

variable (d : Disk) (workDir : String) (o : GenerateOptions)

def configPath : String :=
  o.config.getD (Path.join workDir Config.fileName)

def settings : Except Failure Output.Settings :=
  match Id.run (Config.discover d.view workDir o.config) with
  | .error e => .error (.config e)
  | .ok config => override o config.settings

/-- The document and the texts of the outputs, or the result of a run that has nothing to save. -/
def prepared : Except Result (Compile.Compiled × List (Output.File × String)) :=
  match settings d workDir o with
  | .error f => .error (.failed f)
  | .ok s =>
    if ¬ s.enabled then .error (.ok "Generation is disabled in the config file\n")
    else if s.outputs.isEmpty ∧ o.schemaOut.isNone then .error (.failed .noOutputs)
    else
      match Id.run (readInput d.view o.input) with
      | .error f => .error (.failed f)
      | .ok (rs, ds) =>
        (Id.run (Output.render d.view.read? workDir rs ds s)).mapError fun e =>
          .failed (.generation e)

def targets : List String :=
  match settings d workDir o with
  | .error _ => []
  | .ok s => s.outputs.map Output.File.path ++ o.schemaOut.toList

/-- The files that tell what is to be saved. -/
def sources : List String :=
  configPath workDir o :: o.input ::
    match settings d workDir o with
    | .error _ => []
    | .ok s => Style.probed d.view.read? workDir s.options

end prepared

def expected (schemaOut : Option String)
    (r : Compile.Compiled × List (Output.File × String)) : List (String × String) :=
  (r.2.map fun (o, text) => (o.path, text)) ++
    (schemaOut.map fun path => (path, documentText r.1.schema)).toList

section expected

variable {d d' : Disk} {workDir : String} {o : GenerateOptions}
variable {r : Compile.Compiled × List (Output.File × String)}

theorem documentText_ne_empty (j : Json) : documentText j ≠ "" := by
  intro h
  have hlist := congrArg String.toList h
  unfold documentText at hlist
  rw [String.toList_append] at hlist
  simp at hlist

/-- Where something is prepared it is rendered from the routes and with the settings of the run. -/
theorem exists_render_of_prepared (h : prepared d workDir o = .ok r) :
    ∃ s rs ds, settings d workDir o = .ok s ∧ s.enabled = true ∧
      ¬ (s.outputs.isEmpty ∧ o.schemaOut.isNone) ∧
      Id.run (readInput d.view o.input) = .ok (rs, ds) ∧
      Id.run (Output.render d.view.read? workDir rs ds s) = .ok r := by
  unfold prepared at h
  -- every step that can fail has gone well
  cases hs : settings d workDir o with
  | error f =>
    rw [hs] at h
    cases h
  | ok s =>
    rw [hs] at h
    dsimp only at h
    split at h
    · cases h
    · next henabled =>
      split at h
      · cases h
      · next houtputs =>
        cases hinput : Id.run (readInput d.view o.input) with
        | error f =>
          rw [hinput] at h
          cases h
        | ok parts =>
          obtain ⟨rs, ds⟩ := parts
          rw [hinput] at h
          dsimp only at h
          cases hrender : Id.run (Output.render d.view.read? workDir rs ds s) with
          | error e =>
            rw [hrender] at h
            cases h
          | ok r' =>
            rw [hrender] at h
            obtain rfl := Except.ok.inj h
            exact ⟨s, rs, ds, rfl, by simpa using henabled, houtputs, rfl, hrender⟩

/-- Nothing that is to be saved is empty. -/
theorem ne_empty_of_expected (h : prepared d workDir o = .ok r) :
    ∀ f ∈ expected o.schemaOut r, f.2 ≠ "" := by
  obtain ⟨s, rs, ds, -, -, -, -, hrender⟩ := exists_render_of_prepared h
  intro f hf
  rcases List.mem_append.1 hf with hf | hf
  · obtain ⟨p, hp, rfl⟩ := List.mem_map.1 hf
    obtain ⟨o, -, -, hne⟩ := (Output.forall₂_of_render hrender).exists_left hp
    exact hne
  · obtain ⟨path, -, rfl⟩ := Option.map_eq_some_iff.1 (Option.mem_toList.1 hf)
    exact documentText_ne_empty _

theorem map_expected (h : prepared d workDir o = .ok r) :
    (expected o.schemaOut r).map Prod.fst = targets d workDir o := by
  obtain ⟨s, rs, ds, hs, -, -, -, hrender⟩ := exists_render_of_prepared h
  have hpaths : r.2.map (fun p => p.1.path) = s.outputs.map Output.File.path := by
    rw [← Output.map_fst_of_render hrender, List.map_map]
    rfl
  unfold expected targets
  rw [hs, List.map_append, List.map_map]
  dsimp only
  rw [← hpaths]
  cases o.schemaOut <;> rfl

end expected

section same

variable {d d' : Disk} {workDir : String} {o : GenerateOptions}

theorem view_read_ok_iff {path text : String} :
    d.view.read path = .ok text ↔ (d.read path).toOption = some text := by
  show (d.read path).mapError Fault.reason = .ok text ↔ _
  cases d.read path with
  | error e => simp [Except.mapError, Except.toOption]
  | ok t => simp [Except.mapError, Except.toOption]

/-- A file that can be read is read alike on a disk where the same stands in it. -/
theorem view_read_eq {path text : String} (h : d.view.read path = .ok text)
    (hsame : (d'.read path).toOption = (d.read path).toOption) :
    d'.view.read path = d.view.read path := by
  rw [h]
  exact view_read_ok_iff.2 (hsame.trans (view_read_ok_iff.1 h))

theorem run_config_read (d : Disk) (path : String) :
    Id.run (Config.read d.view path) = match d.view.read path with
      | .error reason => .error (.unreadable path reason)
      | .ok text => (Config.ofText? text).elim (.error (.malformed path)) .ok := rfl

theorem config_read_eq {path : String} {config : Config}
    (h : Id.run (Config.read d.view path) = .ok config)
    (hsame : (d'.read path).toOption = (d.read path).toOption) :
    Id.run (Config.read d'.view path) = .ok config := by
  rw [run_config_read] at h ⊢
  cases hr : d.view.read path with
  | error reason =>
    rw [hr] at h
    cases h
  | ok text =>
    rw [view_read_eq hr hsame, ← h]

theorem discover_eq {config : Config} (h : Id.run (Config.discover d.view workDir o.config) =
      .ok config)
    (hsame : (d'.read (configPath workDir o)).toOption =
      (d.read (configPath workDir o)).toOption) :
    Id.run (Config.discover d'.view workDir o.config) = .ok config := by
  unfold configPath at hsame
  cases hconfig : o.config with
  | some path =>
    rw [hconfig] at h hsame
    exact config_read_eq h hsame
  | none =>
    rw [hconfig] at h hsame
    rw [Option.getD_none] at hsame
    -- the file at the standard place is read if there is one
    have hdiscover : ∀ d : Disk, Id.run (Config.discover d.view workDir none) =
        if d.isFile (Path.join workDir Config.fileName) then
          Id.run (Config.read d.view (Path.join workDir Config.fileName))
        else .ok .default := by
      intro d
      show Id.run (if d.isFile (Path.join workDir Config.fileName) then _ else _) = _
      split <;> rfl
    rw [hdiscover] at h ⊢
    have hfile : d'.isFile (Path.join workDir Config.fileName) =
        d.isFile (Path.join workDir Config.fileName) := by
      rw [isFile_eq, isFile_eq, hsame]
    rw [hfile]
    by_cases hfound : d.isFile (Path.join workDir Config.fileName) = true
    · rw [if_pos hfound] at h ⊢
      exact config_read_eq h hsame
    · rw [if_neg hfound] at h ⊢
      exact h

theorem settings_eq {s : Output.Settings} (h : settings d workDir o = .ok s)
    (hsame : (d'.read (configPath workDir o)).toOption =
      (d.read (configPath workDir o)).toOption) : settings d' workDir o = .ok s := by
  unfold settings at h ⊢
  cases hconfig : Id.run (Config.discover d.view workDir o.config) with
  | error e =>
    rw [hconfig] at h
    cases h
  | ok config =>
    rw [hconfig] at h
    rw [discover_eq hconfig hsame]
    exact h

theorem run_readInput (d : Disk) (path : String) :
    Id.run (readInput d.view path) = match d.view.read path with
      | .error reason => .error (.input (.unreadable path reason))
      | .ok text => match (Route.RouteSet.ofFile path text).mapError (.malformed path) with
        | .error e => .error (.input e)
        | .ok set => set.parts.mapError .definitions := by
  unfold readInput Route.RouteSet.read
  show Id.run (match (match d.view.read path with
    | .error reason => .error (.unreadable path reason)
    | .ok text => (Route.RouteSet.ofFile path text).mapError (.malformed path) :
      Except Route.ReadError Route.RouteSet) with
    | .error e => _
    | .ok set => _) = _
  cases d.view.read path with
  | error reason => rfl
  | ok text =>
    dsimp only
    cases (Route.RouteSet.ofFile path text).mapError (Route.ReadError.malformed path) <;> rfl

theorem readInput_eq {path : String} {parts : Route.Routes × List (String × Json)}
    (h : Id.run (readInput d.view path) = .ok parts)
    (hsame : (d'.read path).toOption = (d.read path).toOption) :
    Id.run (readInput d'.view path) = .ok parts := by
  rw [run_readInput] at h ⊢
  cases hr : d.view.read path with
  | error reason =>
    rw [hr] at h
    cases h
  | ok text =>
    rw [hr] at h
    rw [view_read_eq hr hsame, hr]
    exact h

/-- The same is prepared wherever the same is read from the files that tell what to save. -/
theorem prepared_eq {r : Compile.Compiled × List (Output.File × String)}
    (h : prepared d workDir o = .ok r)
    (hsame : ∀ p ∈ sources d workDir o, (d'.read p).toOption = (d.read p).toOption) :
    prepared d' workDir o = .ok r := by
  obtain ⟨s, rs, ds, hs, henabled, houtputs, hinput, hrender⟩ := exists_render_of_prepared h
  unfold sources at hsame
  rw [hs] at hsame
  -- all that was read is among the sources, so each step finds on the other disk what it found here
  have hs' : settings d' workDir o = .ok s := settings_eq hs (hsame _ List.mem_cons_self)
  have hinput' : Id.run (readInput d'.view o.input) = .ok (rs, ds) :=
    readInput_eq hinput (hsame _ (by simp))
  have hrender' : Id.run (Output.render d'.view.read? workDir rs ds s) = .ok r := by
    rw [← hrender]
    apply Style.render_eq_of_probed
    intro p hp
    rw [read?_view, read?_view]
    exact hsame p (by simp [hp])
  unfold prepared
  rw [hs']
  dsimp only
  rw [if_neg (by simp [henabled]), if_neg houtputs, hinput']
  dsimp only
  rw [hrender']
  rfl

end same

end ApiTypes.Command
