import ApiTypes.Proofs.Command.Runs
import ApiTypes.Proofs.Files.Absolute

namespace ApiTypes.Command

open Files

section runs

variable (schedule : Schedule) (d : Disk) (workDir : String) (o : GenerateOptions)

def checked : Result × Disk :=
  (generate Disk.access schedule workDir { o with check := true }).run d

def generated : Result × Disk :=
  (generate Disk.access schedule workDir { o with check := false }).run d

def written : List String :=
  ((generate Disk.access.noting schedule workDir { o with check := false }).run
    (d, [])).2.2.filterMap Call.written?

end runs

def saveTargets (d : Disk) (workDir : String) (o : GenerateOptions) : List String :=
  (targets d workDir o).filterMap (Path.absolute? workDir)

/-- Whether saving leaves everything to be read that was saved, and everything that tells what is to
be saved: the targets are different files and none of the sources, and no source comes to lead
somewhere else. -/
structure Undisturbed (d d' : Disk) (workDir : String) (o : GenerateOptions) : Prop where
  coherent : ∀ path ∈ targets d workDir o, d'.Coherent workDir path
  distinct : (saveTargets d workDir o).Pairwise fun a b => ¬ d'.Same a b
  settled : ∀ p ∈ sources d workDir o, d.Settled p
  apart : ∀ p ∈ sources d workDir o, ∀ a ∈ saveTargets d workDir o, ¬ d'.Same a p

section tasks

variable {d : Disk} {workDir : String}

/-- A task is current if the text stands at its path. -/
theorem current_iff_of_coherent {path text : String} {t : Task}
    (h : Task.of workDir path text = .ok t) (hc : d.Coherent workDir path) :
    t.current d = true ↔ (d.read path).toOption = some text := by
  obtain ⟨ha, rfl⟩ := absolute_of_task h
  rw [hc t.path ha]
  unfold Task.current
  exact beq_iff_eq

theorem path_ne_empty {path text : String} (h : (d.read path).toOption = some text) :
    path ≠ "" := by
  rintro rfl
  cases h

end tasks

section agreement

variable {schedule : Schedule} {d : Disk} {workDir : String} {o : GenerateOptions}

/-- Writing calls down tells what happens without it. -/
theorem run_generate_eq (schedule : Schedule) (d : Disk) (workDir : String)
    (o : GenerateOptions) :
    (generate Disk.access schedule workDir o).run d =
      (((generate Disk.access.noting schedule workDir o).run (d, [])).1,
        ((generate Disk.access.noting schedule workDir o).run (d, [])).2.1) := by
  obtain ⟨hresult, hdisk⟩ := (acts_noting Disk.access).generate schedule workDir o d []
  rw [hresult, hdisk]
  rfl

/-- A check changes nothing. -/
theorem checked_snd (schedule : Schedule) (d : Disk) (workDir : String) (o : GenerateOptions) :
    (checked schedule d workDir o).2 = d := by
  unfold checked
  rw [run_generate_eq]
  dsimp only
  rw [run_generate_check.1]

theorem checked_failure :
    (checked schedule d workDir o).1.failure = none ↔
      match prepared d workDir o with
      | .error result => result.failure = none
      | .ok r => ∀ f ∈ expected o.schemaOut r, (d.read f.1).toOption = some f.2 := by
  unfold checked
  rw [run_generate_eq]
  exact run_generate_check.2

/-- A check has no failure exactly if generating has none and writes nothing. -/
theorem checked_failure_iff
    (hcoherent : ∀ path ∈ targets d workDir o, d.Coherent workDir path) :
    (checked schedule d workDir o).1.failure = none ↔
      (generated schedule d workDir o).1.failure = none ∧ written schedule d workDir o = [] := by
  rw [checked_failure]
  unfold generated written
  rw [run_generate_eq]
  -- a run that cannot prepare its texts fails in both cases, before anything is written
  cases h : prepared d workDir o with
  | error result =>
    have hsame : prepared d workDir { o with check := false } = .error result := h
    rw [run_generate_of_error hsame]
    exact ⟨fun hr => ⟨hr, rfl⟩, fun hr => hr.1⟩
  | ok r =>
    rw [run_generate_write h]
    have hc : ∀ f ∈ expected o.schemaOut r, d.Coherent workDir f.1 := by
      intro f hf
      apply hcoherent
      rw [← map_expected h]
      exact List.mem_map_of_mem hf
    constructor
    · intro hheld
      obtain ⟨ts, hts⟩ := exists_tasks_of_ne workDir fun f hf => path_ne_empty (hheld f hf)
      have hcurrent : ∀ t ∈ ts, t.current d = true := by
        intro t ht
        obtain ⟨f, hf, hof⟩ := hts.exists_left ht
        exact (current_iff_of_coherent hof (hc f hf)).2 (hheld f hf)
      obtain ⟨hfailure, hstate⟩ := stored_current hts hcurrent []
      rw [hstate]
      exact ⟨hfailure, rfl⟩
    · -- what is not written although nothing fails was there already
      rintro ⟨hfailure, hwritten⟩
      obtain ⟨ts, hts, -, hcurrent⟩ := saved_of_stored hfailure
      intro f hf
      obtain ⟨t, ht, hof⟩ := hts.exists_right hf
      exact (current_iff_of_coherent hof (hc f hf)).1 (hcurrent hwritten t ht)

/-- Nothing is left to change once everything is generated. -/
theorem checked_generated (hd : d.WellFormed)
    (hok : (generated schedule d workDir o).1.failure = none)
    (hu : Undisturbed d (generated schedule d workDir o).2 workDir o) :
    (checked schedule (generated schedule d workDir o).2 workDir o).1.failure = none := by
  rw [checked_failure]
  unfold generated at hok hu ⊢
  rw [run_generate_eq] at hok hu ⊢
  cases h : prepared d workDir o with
  | error result =>
    have hsame : prepared d workDir { o with check := false } = .error result := h
    rw [run_generate_of_error hsame] at hok ⊢
    dsimp only at hok ⊢
    rw [h]
    exact hok
  | ok r =>
    rw [run_generate_write h] at hok hu ⊢
    obtain ⟨ts, hts, hsaved, -⟩ := saved_of_stored hok
    have hpaths : ts.map Task.path = saveTargets d workDir o := by
      rw [map_path_of_tasks hts, map_expected h]
      rfl
    -- the second run reads the same sources, so it prepares the same texts
    have hsources : ∀ p ∈ sources d workDir o,
        ((stored schedule workDir o.schemaOut r (d, [])).2.1.read p).toOption =
          (d.read p).toOption := by
      intro p hp
      apply hsaved.read_eq hd (hu.settled p hp)
      exact fun t ht => hu.apart p hp t.path (hpaths ▸ List.mem_map_of_mem ht)
    rw [prepared_eq h hsources]
    intro f hf
    obtain ⟨t, ht, hof⟩ := hts.exists_right hf
    have hdistinct := hu.distinct
    rw [← hpaths, List.pairwise_map] at hdistinct
    have hmem : f.1 ∈ targets d workDir o := by
      rw [← map_expected h]
      exact List.mem_map_of_mem hf
    exact (current_iff_of_coherent hof (hu.coherent f.1 hmem)).1 (hsaved.current hdistinct t ht)

/-- A check changes nothing; it has no failure exactly if generating has none and writes nothing,
and it has none once everything is generated, in whatever order. -/
theorem check_agrees (schedule : Schedule) (d : Disk) (workDir : String) (o : GenerateOptions) :
    (checked schedule d workDir o).2 = d ∧
      ((∀ path ∈ targets d workDir o, d.Coherent workDir path) →
        ((checked schedule d workDir o).1.failure = none ↔
          (generated schedule d workDir o).1.failure = none ∧ written schedule d workDir o = [])) ∧
      (d.WellFormed → (generated schedule d workDir o).1.failure = none →
        Undisturbed d (generated schedule d workDir o).2 workDir o →
        (checked schedule (generated schedule d workDir o).2 workDir o).1.failure = none) :=
  ⟨checked_snd schedule d workDir o, checked_failure_iff, checked_generated⟩

/-- An application without routes, with a style file beside the place for its outputs. -/
def application (options : String) : Disk where
  workDir := []
  entries := [(["routes.json"], .file "\x7b\"routes\":[]\x7d"), (["b"], .directory),
    (["b", ".prettierrc"], .file "\x7b\"semi\":false\x7d"),
    (["routetypes.toml"], .file ("[compilerOptions]\n" ++ options))]

def unformatted : Disk := application "bannerComment = '//'\nformat = false\n"

def generateAll (outputs : List String) (schemaOut : Option String) : GenerateOptions where
  input := "routes.json"
  config := none
  ignoreHead := false
  outputs := outputs
  targets := []
  schemaOut := schemaOut
  check := false

def nested : GenerateOptions :=
  generateAll ["a/c.ts"] (some "schema.json")

/-- The same can be read at paths that do not end in a dot as at their absolute forms. -/
theorem coherent_of_names {d d' : Disk} {o : GenerateOptions}
    (hdir : d'.place "/" = .ok d'.workDir)
    (hnames : ∀ path ∈ targets d "/" o, Disk.fault? path = none ∧
      (∀ a ∈ Path.absolute? "/" path, Disk.fault? a = none) ∧
      (Path.segments path).getLast? ≠ some ".") :
    ∀ path ∈ targets d "/" o, d'.Coherent "/" path := by
  intro path hpath
  obtain ⟨hfault, habsolute, hdot⟩ := hnames path hpath
  exact Disk.coherent_of_getLast? hdir (by decide) hfault habsolute hdot

theorem check_agrees_nested :
    (checked .sequential unformatted "/" nested).2 = unformatted ∧
      ((checked .sequential unformatted "/" nested).1.failure = none ↔
        (generated .sequential unformatted "/" nested).1.failure = none ∧
          written .sequential unformatted "/" nested = []) ∧
      (checked .sequential (generated .sequential unformatted "/" nested).2 "/"
        nested).1.failure = none := by
  obtain ⟨hsame, hiff, hafter⟩ := check_agrees .sequential unformatted "/" nested
  have hnames : ∀ path ∈ targets unformatted "/" nested, Disk.fault? path = none ∧
      (∀ a ∈ Path.absolute? "/" path, Disk.fault? a = none) ∧
      (Path.segments path).getLast? ≠ some "." := by
    decide +kernel
  have hok : (generated .sequential unformatted "/" nested).1.failure.isNone = true := by
    decide +kernel
  have hd : unformatted.WellFormed := Disk.wellFormed_of_entries (by decide +kernel)
  have hu : Undisturbed unformatted (generated .sequential unformatted "/" nested).2 "/" nested :=
    { coherent := coherent_of_names (by decide +kernel) hnames
      distinct := by decide +kernel
      settled := by decide +kernel
      apart := by decide +kernel }
  exact ⟨hsame, hiff (coherent_of_names rfl hnames), hafter hd (Option.isNone_iff_eq_none.1 hok) hu⟩

def dotted : GenerateOptions :=
  generateAll ["c.ts/."] none

/-- A run with two paths for one file. -/
def doubled : GenerateOptions :=
  generateAll ["c.ts"] (some "a/../c.ts")

def making : GenerateOptions :=
  generateAll ["a/c.ts"] none

/-- An application that looks for a style on a way through the directory that is made. -/
def roundabout : Disk := application "bannerComment = \"a;\\n\"\ncwd = '/a/../b'\n"

theorem checked_dotted :
    (checked .lockstep (generated .lockstep unformatted "/" dotted).2 "/"
      dotted).1.failure.isSome = true ∧
    (generated .lockstep (generated .lockstep unformatted "/" dotted).2 "/"
      dotted).1.failure.isNone = true ∧
    written .lockstep (generated .lockstep unformatted "/" dotted).2 "/" dotted = [] := by
  decide +kernel

theorem checked_doubled :
    (generated .lockstep unformatted "/" doubled).1.failure.isNone = true ∧
    ((saveTargets unformatted "/" doubled).Pairwise fun a b => ¬ Path.same a b) ∧
    (∀ p ∈ sources unformatted "/" doubled, unformatted.Settled p) ∧
    (∀ p ∈ sources unformatted "/" doubled, ∀ a ∈ saveTargets unformatted "/" doubled,
      ¬ (generated .lockstep unformatted "/" doubled).2.Same a p) ∧
    (checked .lockstep (generated .lockstep unformatted "/" doubled).2 "/"
      doubled).1.failure.isSome = true := by
  decide +kernel

theorem checked_roundabout :
    (generated .lockstep roundabout "/" making).1.failure.isNone = true ∧
    ((saveTargets roundabout "/" making).Pairwise fun a b =>
      ¬ (generated .lockstep roundabout "/" making).2.Same a b) ∧
    (∀ p ∈ sources roundabout "/" making, ∀ a ∈ saveTargets roundabout "/" making,
      ¬ (generated .lockstep roundabout "/" making).2.Same a p) ∧
    (checked .lockstep (generated .lockstep roundabout "/" making).2 "/"
      making).1.failure.isSome = true := by
  decide +kernel

/-- A check finds no directory at a path that ends in a dot, but generating leaves out the dot and
finds the file; a text is lost if its file is saved again at another path; and once a directory is
made another style may be found. -/
theorem not_check_agrees :
    (¬ ∀ (d : Disk) (workDir : String) (o : GenerateOptions), d.WellFormed →
      ((checked .lockstep d workDir o).1.failure = none ↔
        (generated .lockstep d workDir o).1.failure = none ∧
          written .lockstep d workDir o = [])) ∧
    (¬ ∀ (d : Disk) (workDir : String) (o : GenerateOptions), d.WellFormed →
      (generated .lockstep d workDir o).1.failure = none →
      (∀ path ∈ targets d workDir o, (generated .lockstep d workDir o).2.Coherent workDir path) →
      ((saveTargets d workDir o).Pairwise fun a b => ¬ Path.same a b) →
      (∀ p ∈ sources d workDir o, d.Settled p) →
      (∀ p ∈ sources d workDir o, ∀ a ∈ saveTargets d workDir o,
        ¬ (generated .lockstep d workDir o).2.Same a p) →
      (checked .lockstep (generated .lockstep d workDir o).2 workDir o).1.failure = none) ∧
    ¬ ∀ (d : Disk) (workDir : String) (o : GenerateOptions), d.WellFormed →
      (generated .lockstep d workDir o).1.failure = none →
      (∀ path ∈ targets d workDir o, (generated .lockstep d workDir o).2.Coherent workDir path) →
      ((saveTargets d workDir o).Pairwise fun a b =>
        ¬ (generated .lockstep d workDir o).2.Same a b) →
      (∀ p ∈ sources d workDir o, ∀ a ∈ saveTargets d workDir o,
        ¬ (generated .lockstep d workDir o).2.Same a p) →
      (checked .lockstep (generated .lockstep d workDir o).2 workDir o).1.failure = none := by
  refine ⟨fun hall => ?_, fun hall => ?_, fun hall => ?_⟩
  · -- the check reads the path with its dot, and the save the file itself
    obtain ⟨hchecked, hok, hwritten⟩ := checked_dotted
    have hd : (generated .lockstep unformatted "/" dotted).2.WellFormed :=
      Disk.wellFormed_of_entries (by decide +kernel)
    have hnone := (hall _ "/" dotted hd).2 ⟨Option.isNone_iff_eq_none.1 hok, hwritten⟩
    rw [hnone] at hchecked
    cases hchecked
  · -- two paths of one file keep only the text that is written last
    obtain ⟨hok, hdistinct, hsettled, hapart, hchecked⟩ := checked_doubled
    have hd : unformatted.WellFormed := Disk.wellFormed_of_entries (by decide +kernel)
    have hcoherent : ∀ path ∈ targets unformatted "/" doubled,
        (generated .lockstep unformatted "/" doubled).2.Coherent "/" path :=
      coherent_of_names (by decide +kernel) (by decide +kernel)
    have hnone := hall unformatted "/" doubled hd (Option.isNone_iff_eq_none.1 hok) hcoherent
      hdistinct hsettled hapart
    rw [hnone] at hchecked
    cases hchecked
  · -- the directory that the run makes lets the next run find another style
    obtain ⟨hok, hdistinct, hapart, hchecked⟩ := checked_roundabout
    have hd : roundabout.WellFormed := Disk.wellFormed_of_entries (by decide +kernel)
    have hcoherent : ∀ path ∈ targets roundabout "/" making,
        (generated .lockstep roundabout "/" making).2.Coherent "/" path :=
      coherent_of_names (by decide +kernel) (by decide +kernel)
    have hnone := hall roundabout "/" making hd (Option.isNone_iff_eq_none.1 hok) hcoherent
      hdistinct hapart
    rw [hnone] at hchecked
    cases hchecked

end agreement

end ApiTypes.Command
