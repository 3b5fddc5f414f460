import ApiTypes.Proofs.Command.Prepared

namespace ApiTypes.Command

open Files

section check

variable {d : Disk} {workDir : String} {o : GenerateOptions}

theorem report?_eq_none_iff {label current new : String} :
    Diff.report? label current new = none ↔ current = new := by
  unfold Diff.report?
  split
  · next h => simp [h]
  · next h => simp [h]

theorem changes_eq_none_iff {path text : String} (hne : text ≠ "") :
    Id.run (changes d.view path text) = none ↔ (d.read path).toOption = some text := by
  have hchanges : Id.run (changes d.view path text) =
      Diff.report? path ((d.read path).toOption.getD "") text := by
    rw [← read?_view]
    rfl
  rw [hchanges, report?_eq_none_iff]
  cases (d.read path).toOption with
  | none => simpa using Ne.symm hne
  | some current => simp

/-- A check reports the files whose texts are others, if there are any. -/
theorem run_check_view {rs : Route.Routes} {ds : List (String × Json)} {s : Output.Settings}
    {schemaOut : Option String} {r : Compile.Compiled × List (Output.File × String)}
    (hrender : Id.run (Output.render d.view.read? workDir rs ds s) = .ok r) :
    Id.run (check d.view workDir rs ds s schemaOut) =
      match ((expected schemaOut r).map fun f => Id.run (changes d.view f.1 f.2)).filterMap id with
      | [] => .ok "All generated files are up to date\n"
      | outdated => ⟨String.join outdated, some (.outdated outdated.length)⟩ := by
  unfold check
  rw [Id.run_bind, hrender]
  obtain ⟨compiled, texts⟩ := r
  dsimp only
  rw [Id.run_bind, List.idRun_mapM]
  unfold expected
  dsimp only
  generalize List.filterMap id _ = outdated
  cases outdated <;> rfl

/-- A check succeeds if every file holds its text. -/
theorem check_view_failure {rs : Route.Routes} {ds : List (String × Json)} {s : Output.Settings}
    {schemaOut : Option String} {r : Compile.Compiled × List (Output.File × String)}
    (hrender : Id.run (Output.render d.view.read? workDir rs ds s) = .ok r)
    (hne : ∀ f ∈ expected schemaOut r, f.2 ≠ "") :
    (Id.run (check d.view workDir rs ds s schemaOut)).failure = none ↔
      ∀ f ∈ expected schemaOut r, (d.read f.1).toOption = some f.2 := by
  rw [run_check_view hrender]
  constructor
  · intro h f hf
    have hnone : ((expected schemaOut r).map fun f => Id.run (changes d.view f.1 f.2)).filterMap
        id = [] := by
      split at h
      · assumption
      · cases h
    rw [List.filterMap_eq_nil_iff] at hnone
    exact (changes_eq_none_iff (hne f hf)).1 (hnone _ (List.mem_map_of_mem hf))
  · intro h
    have hnone : ((expected schemaOut r).map fun f => Id.run (changes d.view f.1 f.2)).filterMap
        id = [] := by
      rw [List.filterMap_eq_nil_iff]
      intro report hreport
      obtain ⟨f, hf, rfl⟩ := List.mem_map.1 hreport
      exact (changes_eq_none_iff (hne f hf)).2 (h f hf)
    rw [hnone]
    rfl

end check

section runs

variable {schedule : Schedule} {d : Disk} {workDir : String} {o : GenerateOptions}
  {calls : List Call}

/-- A run up to the point where it checks or writes. -/
theorem run_generate :
    (generate Disk.access.noting schedule workDir o).run (d, calls) =
      match settings d workDir o with
      | .error f => (.failed f, d, calls)
      | .ok s =>
        if ¬ s.enabled then (.ok "Generation is disabled in the config file\n", d, calls)
        else if s.outputs.isEmpty ∧ o.schemaOut.isNone then (.failed .noOutputs, d, calls)
        else
          match Id.run (readInput d.view o.input) with
          | .error f => (.failed f, d, calls)
          | .ok (rs, ds) =>
            if o.check then (check Disk.access.noting workDir rs ds s o.schemaOut).run (d, calls)
            else
              (write Disk.access.noting schedule workDir rs ds s o.schemaOut).run (d, calls) := by
  unfold generate settings
  -- what only looks can be taken to the disk that stands still
  rw [((looks_view d).config_discover workDir o.config).run_bind]
  cases Id.run (Config.discover d.view workDir o.config) with
  | error e => rfl
  | ok config =>
    dsimp only
    cases override o config.settings with
    | error f => rfl
    | ok s =>
      dsimp only
      split
      · rfl
      · split
        · rfl
        · rw [((looks_view d).readInput o.input).run_bind]
          cases Id.run (readInput d.view o.input) with
          | error f => rfl
          | ok parts =>
            dsimp only
            split <;> rfl

def stored (schedule : Schedule) (workDir : String) (schemaOut : Option String)
    (r : Compile.Compiled × List (Output.File × String)) (σ : Disk × List Call) :
    Result × Disk × List Call :=
  match (saveAll Disk.access.noting schedule workDir
      (r.2.map fun (o, text) => (o.path, text))).run σ with
  | (.error e, σ) => (.failed (.generation e), σ)
  | (.ok outcomes, σ) =>
    let report := Output.Report.of (r.2.map fun p => p.1.path) outcomes
    match schemaOut with
    | none => (.ok (reportText report), σ)
    | some path =>
      match (save Disk.access.noting workDir path (documentText r.1.schema)).run σ with
      | (.error e, σ) => (.failed (.generation e), σ)
      | (.ok outcome, σ) => (.ok (reportText (addOutcome path report outcome)), σ)

section modes

variable {rs : Route.Routes} {ds : List (String × Json)} {s : Output.Settings}
variable {r : Compile.Compiled × List (Output.File × String)}

theorem run_check (schemaOut : Option String) :
    (check Disk.access.noting workDir rs ds s schemaOut).run (d, calls) =
      (Id.run (check d.view workDir rs ds s schemaOut), d, calls) :=
  (looks_view d).check workDir rs ds s schemaOut calls

theorem run_check_error {e : Error}
    (hrender : Id.run (Output.render d.view.read? workDir rs ds s) = .error e)
    (schemaOut : Option String) :
    (check Disk.access.noting workDir rs ds s schemaOut).run (d, calls) =
      (.failed (.generation e), d, calls) := by
  rw [run_check]
  unfold check
  rw [Id.run_bind, hrender]
  rfl

/-- A run over any access that only looks at the disk until it saves. -/
theorem run_extractIn {A : Access (StateM (Disk × List Call))} (L : Looks (OnlyLooks d) A d.view)
    (henabled : s.enabled = true) (accept : Option (Json → Except String Unit)) :
    (Output.extractIn A schedule workDir rs ds s accept).run (d, calls) =
      match Id.run (Output.render d.view.read? workDir rs ds s) with
      | .error e => (⟨.error e, none⟩, d, calls)
      | .ok r =>
        match accept.elim (.ok ()) fun f => f r.1.schema with
        | .error reason => (⟨.error (.rejected reason), accept.map fun _ => r.1.schema⟩, d, calls)
        | .ok _ =>
          let saved := (saveAll A schedule workDir
            (r.2.map fun (o, text) => (o.path, text))).run (d, calls)
          (⟨saved.1.map (Output.Report.of (r.2.map fun p => p.1.path)),
            accept.map fun _ => r.1.schema⟩, saved.2) := by
  unfold Output.extractIn
  rw [if_pos henabled, (L.render workDir rs ds s).run_bind]
  cases Id.run (Output.render d.view.read? workDir rs ds s) with
  | error e => rfl
  | ok r =>
    obtain ⟨compiled, texts⟩ := r
    dsimp only
    cases accept.elim (.ok ()) fun f => f compiled.schema with
    | error reason => rfl
    | ok _ =>
      rw [List.map_map]
      rfl

theorem run_write_error {e : Error} (henabled : s.enabled = true)
    (hrender : Id.run (Output.render d.view.read? workDir rs ds s) = .error e)
    (schemaOut : Option String) :
    (write Disk.access.noting schedule workDir rs ds s schemaOut).run (d, calls) =
      (.failed (.generation e), d, calls) := by
  unfold write
  rw [StateT.run_bind, run_extractIn (looks_view d) henabled, hrender]
  rfl

theorem run_write (henabled : s.enabled = true)
    (hrender : Id.run (Output.render d.view.read? workDir rs ds s) = .ok r)
    (schemaOut : Option String) :
    (write Disk.access.noting schedule workDir rs ds s schemaOut).run (d, calls) =
      stored schedule workDir schemaOut r (d, calls) := by
  unfold write stored
  rw [StateT.run_bind, run_extractIn (looks_view d) henabled, hrender]
  generalize hsaved : (saveAll Disk.access.noting schedule workDir
    (r.2.map fun (o, text) => (o.path, text))).run (d, calls) = saved
  obtain ⟨outcomes, σ⟩ := saved
  -- the document is saved behind the outputs, and only if none of them failed
  cases schemaOut with
  | none =>
    dsimp only [Option.map_none, Option.elim_none]
    rw [hsaved]
    cases outcomes <;> rfl
  | some path =>
    dsimp only [Option.map_some, Option.elim_some]
    rw [hsaved]
    cases outcomes with
    | error e => rfl
    | ok outcomes =>
      show (save Disk.access.noting workDir path (documentText r.1.schema) >>= _).run σ = _
      rw [StateT.run_bind]
      dsimp only
      obtain ⟨outcome, σ'⟩ := (save Disk.access.noting workDir path
        (documentText r.1.schema)).run σ
      cases outcome <;> rfl

end modes

/-- A run that has nothing to save has its result, and leaves the disk as it is. -/
theorem run_generate_of_error {result : Result} (h : prepared d workDir o = .error result) :
    (generate Disk.access.noting schedule workDir o).run (d, calls) = (result, d, calls) := by
  rw [run_generate]
  unfold prepared at h
  cases hs : settings d workDir o with
  | error f =>
    rw [hs] at h
    obtain rfl := Except.error.inj h
    rfl
  | ok s =>
    rw [hs] at h
    dsimp only at h ⊢
    split at h
    · next hoff =>
      obtain rfl := Except.error.inj h
      rw [if_pos hoff]
    · next hon =>
      rw [if_neg hon]
      split at h
      · next hnone =>
        obtain rfl := Except.error.inj h
        rw [if_pos hnone]
      · next hsome =>
        rw [if_neg hsome]
        cases hinput : Id.run (readInput d.view o.input) with
        | error f =>
          rw [hinput] at h
          obtain rfl := Except.error.inj h
          rfl
        | ok parts =>
          obtain ⟨rs, ds⟩ := parts
          rw [hinput] at h
          dsimp only at h ⊢
          cases hrender : Id.run (Output.render d.view.read? workDir rs ds s) with
          | ok r =>
            rw [hrender] at h
            cases h
          | error e =>
            rw [hrender] at h
            obtain rfl := Except.error.inj h
            -- checking and writing both begin with the texts that were not to be had
            split
            · exact run_check_error hrender o.schemaOut
            · exact run_write_error (by simpa using hon) hrender o.schemaOut

/-- A run that has something to save goes on to check or to write. -/
theorem exists_run_generate {r : Compile.Compiled × List (Output.File × String)}
    (h : prepared d workDir o = .ok r) (calls : List Call) :
    ∃ s rs ds, s.enabled = true ∧ Id.run (Output.render d.view.read? workDir rs ds s) = .ok r ∧
      (generate Disk.access.noting schedule workDir o).run (d, calls) =
        if o.check then (check Disk.access.noting workDir rs ds s o.schemaOut).run (d, calls)
        else (write Disk.access.noting schedule workDir rs ds s o.schemaOut).run (d, calls) := by
  obtain ⟨s, rs, ds, hs, henabled, houtputs, hinput, hrender⟩ := exists_render_of_prepared h
  refine ⟨s, rs, ds, henabled, hrender, ?_⟩
  rw [run_generate, hs]
  dsimp only
  rw [if_neg (not_not_intro henabled), if_neg houtputs, hinput]

/-- A check leaves the disk as it is.  It has no failure if nothing is to be saved, or if every file
holds its text. -/
theorem run_generate_check :
    ((generate Disk.access.noting schedule workDir { o with check := true }).run (d, calls)).2 =
        (d, calls) ∧
      (((generate Disk.access.noting schedule workDir { o with check := true }).run
          (d, calls)).1.failure = none ↔
        match prepared d workDir o with
        | .error result => result.failure = none
        | .ok r => ∀ f ∈ expected o.schemaOut r, (d.read f.1).toOption = some f.2) := by
  have hsame : prepared d workDir { o with check := true } = prepared d workDir o := rfl
  cases h : prepared d workDir o with
  | error result =>
    rw [run_generate_of_error (hsame.trans h)]
    exact ⟨rfl, Iff.rfl⟩
  | ok r =>
    obtain ⟨s, rs, ds, -, hrender, hrun⟩ := exists_run_generate (hsame.trans h) calls
    rw [hrun, if_pos rfl, run_check]
    exact ⟨rfl, check_view_failure hrender (ne_empty_of_expected h)⟩

theorem run_generate_write {r : Compile.Compiled × List (Output.File × String)}
    (h : prepared d workDir o = .ok r) :
    (generate Disk.access.noting schedule workDir { o with check := false }).run (d, calls) =
      stored schedule workDir o.schemaOut r (d, calls) := by
  have hsame : prepared d workDir { o with check := false } = prepared d workDir o := rfl
  obtain ⟨s, rs, ds, henabled, hrender, hrun⟩ :=
    exists_run_generate (hsame.trans h) calls
  rw [hrun, if_neg Bool.false_ne_true]
  exact run_write henabled hrender o.schemaOut

end runs

section saving

variable {schedule : Schedule} {d : Disk} {workDir : String} {schemaOut : Option String}
  {calls : List Call}
variable {r : Compile.Compiled × List (Output.File × String)} {ts : List Task}

theorem expected_none : expected none r = r.2.map fun (o, text) => (o.path, text) := by
  unfold expected
  simp

theorem expected_some (path : String) : expected (some path) r =
    (r.2.map fun (o, text) => (o.path, text)) ++ [(path, documentText r.1.schema)] := rfl

/-- Where every file holds its text already nothing is done. -/
theorem stored_current (hts : Tasks workDir (expected schemaOut r) ts)
    (h : ∀ t ∈ ts, t.current d = true) (calls : List Call) :
    (stored schedule workDir schemaOut r (d, calls)).1.failure = none ∧
      (stored schedule workDir schemaOut r (d, calls)).2 = (d, calls) := by
  unfold stored
  cases schemaOut with
  | none =>
    rw [expected_none] at hts
    rw [run_saveAll_current (s := (d, calls)) schedule hts h]
    exact ⟨rfl, rfl⟩
  | some path =>
    rw [expected_some] at hts
    -- the last task is that of the document
    obtain ⟨us, vs, rfl, hus, hvs⟩ := hts.exists_append
    obtain ⟨t, rfl, ht⟩ : ∃ t, vs = [t] ∧
        Task.of workDir path (documentText r.1.schema) = .ok t := by
      cases hvs with
      | cons ht hnil =>
        cases hnil with
        | nil => exact ⟨_, rfl, ht⟩
    have hcurrent : ∀ u ∈ us, u.current d = true := fun u hu => h u (List.mem_append_left _ hu)
    rw [run_saveAll_current (s := (d, calls)) schedule hus hcurrent]
    dsimp only
    rw [run_save_current ht (h t (by simp))]
    exact ⟨rfl, rfl⟩

theorem not_mem_of_written {calls : List Call} (h : calls.filterMap Call.written? = [])
    (path : String) : Call.write path ∉ calls := by
  intro hmem
  have hnone := List.filterMap_eq_nil_iff.1 h _ hmem
  cases hnone

/-- What is saved without a failure: every text that its file did not hold is written. -/
theorem saved_of_stored (h : (stored schedule workDir schemaOut r (d, calls)).1.failure = none) :
    ∃ ts, Tasks workDir (expected schemaOut r) ts ∧
      Saved ts (d, calls) (stored schedule workDir schemaOut r (d, calls)).2 ∧
      ((stored schedule workDir schemaOut r (d, calls)).2.2.filterMap Call.written? = [] →
        ∀ t ∈ ts, t.current d = true) := by
  unfold stored at h ⊢
  cases hall : (saveAll Disk.access.noting schedule workDir
      (r.2.map fun (o, text) => (o.path, text))).run (d, calls) with
  | mk outcomes σ =>
    rw [hall] at h
    cases outcomes with
    | error e => cases h
    | ok outcomes =>
      dsimp only at h ⊢
      obtain ⟨ts, told, hts, rfl, hsaved⟩ := allSaved_of_saveAll hall
      cases schemaOut with
      | none =>
        rw [expected_none]
        refine ⟨ts, hts, hsaved.saved, fun hno => ?_⟩
        exact (hsaved.still fun t _ => not_mem_of_written hno t.path).2
      | some path =>
        dsimp only at h ⊢
        cases hone : (save Disk.access.noting workDir path (documentText r.1.schema)).run σ with
        | mk outcome σ' =>
          rw [hone] at h
          cases outcome with
          | error e => cases h
          | ok outcome =>
            obtain ⟨t, ht, hsaved', hwrite⟩ := saved_of_save hone
            rw [expected_some]
            refine ⟨ts ++ [t], List.rel_append hts (.cons ht .nil),
              hsaved.saved.append hsaved', fun hno => ?_⟩
            have hno' := not_mem_of_written hno
            -- nothing was written before either, so the disk is the one from the start
            obtain ⟨rfl, hcurrent⟩ := hsaved.still fun t _ hp => hno' t.path (hsaved'.calls hp)
            intro u hu
            rcases List.mem_append.1 hu with hu | hu
            · exact hcurrent u hu
            · obtain rfl := List.mem_singleton.1 hu
              exact hwrite.resolve_right (hno' u.path)

end saving

end ApiTypes.Command
