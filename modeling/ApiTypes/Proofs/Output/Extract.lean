import ApiTypes.Proofs.Command.Runs
import ApiTypes.Proofs.Files.Faults

namespace ApiTypes.Output

open Files

structure Job where
  workDir : String
  routes : Route.Routes
  definitions : List (String × Json)
  settings : Settings
  accept : Option (Json → Except String Unit)

namespace Job

section definitions

variable (j : Job) (schedule : Schedule) (d : Disk)

def run {m : Type → Type} [Monad m] (access : Access m) : m Run :=
  extractIn access schedule j.workDir j.routes j.definitions j.settings j.accept

def extracted : Run × Disk :=
  (j.run schedule Disk.access).run d

/-- The directories that the run makes, and the files that it writes. -/
def changes : List Call :=
  ((j.run schedule Disk.access.noting).run (d, [])).2.2

def faults : List Call :=
  ((j.run schedule Disk.access.faulting).run (d, [])).2.2

/-- The document and the declarations, before they are laid out. -/
def compiled : Except Error Compile.Compiled :=
  (Compile.routes j.workDir j.routes j.definitions j.settings.ignoreHead j.settings.options
    .empty).1

def rendered : Except Error (Compile.Compiled × List (File × String)) :=
  Id.run (render d.view.read? j.workDir j.routes j.definitions j.settings)

def probed : List String :=
  Style.probed d.view.read? j.workDir j.settings.options

def targets : List String :=
  j.settings.outputs.filterMap fun o => Path.absolute? j.workDir o.path

def holds (f : File × String) : Bool :=
  (Path.absolute? j.workDir f.1.path).any fun a => (d.read a).toOption == some f.2

def report (texts : List (File × String)) : Report where
  written := (texts.filter fun f => !j.holds d f).map fun f => f.1.path
  unchanged := (texts.filter (j.holds d)).map fun f => f.1.path

end definitions

/-- What a run leaves behind that has saved all texts, and the outcomes that it reports in the order
of the outputs. -/
structure Saves (j : Job) (schedule : Schedule) (d : Disk) (compiled : Compile.Compiled)
    (texts : List (File × String)) (outcomes : List Outcome) : Prop where
  outputs : texts.map Prod.fst = j.settings.outputs
  result : (j.extracted schedule d).1 =
    ⟨.ok (.of (j.settings.outputs.map File.path) (outcomes.map some)),
      j.accept.map fun _ => compiled.schema⟩
  read : ∀ f ∈ texts, ∀ a, Path.absolute? j.workDir f.1.path = some a →
    (j.extracted schedule d).2.read a = .ok f.2
  others : ∀ q text, (∀ a ∈ j.targets, (j.extracted schedule d).2.place a ≠ .ok q) →
    (d.get? q = some (.file text) ↔ (j.extracted schedule d).2.get? q = some (.file text))
  length : outcomes.length = texts.length
  /-- While the saves run, only a way that leads back up can come to lead to a file. -/
  told : d.WellFormed → List.Forall₂ (fun f o =>
    (∀ a, Path.absolute? j.workDir f.1.path = some a → d.Settled a) →
      (o = .unchanged ↔ j.holds d f = true)) texts outcomes
  settled : d.WellFormed → (∀ a ∈ j.targets, d.Settled a) →
    (j.extracted schedule d).1.result = .ok (j.report d texts)

section runs

variable {j : Job} {schedule : Schedule} {d : Disk} {compiled : Compile.Compiled}
variable {texts : List (File × String)} {ts : List Task}

abbrev files (texts : List (File × String)) : List (String × String) :=
  texts.map fun (o, text) => (o.path, text)

theorem extracted_eq (j : Job) (schedule : Schedule) (d : Disk) :
    j.extracted schedule d = (((j.run schedule Disk.access.noting).run (d, [])).1,
      ((j.run schedule Disk.access.noting).run (d, [])).2.1) := by
  obtain ⟨hrun, hdisk⟩ := (acts_noting Disk.access).extractIn schedule j.workDir j.routes
    j.definitions j.settings j.accept d []
  exact Prod.ext hrun.symm hdisk.symm

theorem extracted_of_disabled (h : j.settings.enabled = false) (schedule : Schedule) (d : Disk) :
    j.extracted schedule d = (⟨.ok .empty, none⟩, d) := by
  unfold extracted run extractIn
  rw [if_neg (by simp [h])]
  rfl

theorem rendered_of_error {e : Error} (h : j.compiled = .error e) (d : Disk) :
    j.rendered d = .error e := by
  unfold compiled at h
  unfold rendered render
  rw [h]
  rfl

theorem extracted_of_error (henabled : j.settings.enabled = true) {e : Error}
    (h : j.rendered d = .error e) (schedule : Schedule) :
    j.extracted schedule d = (⟨.error e, none⟩, d) := by
  unfold rendered at h
  rw [extracted_eq, run, Command.run_extractIn (looks_view d) henabled, h]

theorem extracted_of_rejected (henabled : j.settings.enabled = true)
    (h : j.rendered d = .ok (compiled, texts)) {f : Json → Except String Unit} {reason : String}
    (haccept : j.accept = some f) (hreject : f compiled.schema = .error reason)
    (schedule : Schedule) :
    j.extracted schedule d = (⟨.error (.rejected reason), some compiled.schema⟩, d) := by
  unfold rendered at h
  rw [extracted_eq, run, Command.run_extractIn (looks_view d) henabled, h]
  dsimp only
  rw [haccept, Option.elim_some, hreject]
  rfl

/-- A run that is accepted saves the texts and reports on them. -/
theorem run_of_accepted {A : Access (StateM (Disk × List Call))}
    (L : Looks (OnlyLooks d) A d.view) (henabled : j.settings.enabled = true)
    (h : j.rendered d = .ok (compiled, texts))
    (haccept : ∀ f, j.accept = some f → f compiled.schema = .ok ()) (schedule : Schedule)
    (calls : List Call) :
    (j.run schedule A).run (d, calls) =
      (⟨((saveAll A schedule j.workDir (files texts)).run (d, calls)).1.map
          (Report.of (texts.map fun p => p.1.path)), j.accept.map fun _ => compiled.schema⟩,
        ((saveAll A schedule j.workDir (files texts)).run (d, calls)).2) := by
  unfold rendered at h
  have hverdict : (j.accept.elim (.ok ()) fun f => f compiled.schema) = .ok () := by
    cases hf : j.accept with
    | none => rfl
    | some f => exact haccept f hf
  rw [run, Command.run_extractIn L henabled, h]
  dsimp only
  rw [hverdict]

/-- If no call fails the saves have results, whatever is written down. -/
theorem exists_outcomes (henabled : j.settings.enabled = true)
    (h : j.rendered d = .ok (compiled, texts))
    (haccept : ∀ f, j.accept = some f → f compiled.schema = .ok ())
    (hts : Tasks j.workDir (files texts) ts) (hfaults : j.faults schedule d = []) :
    ∃ outcomes, ((saveAll Disk.access.noting schedule j.workDir (files texts)).run (d, [])).1 =
      .ok outcomes := by
  unfold faults at hfaults
  rw [run_of_accepted (looks_faulting d) henabled h haccept] at hfaults
  obtain ⟨new, hnew, hok⟩ := faultless_saveAll Disk.access schedule hts d []
  obtain ⟨outcomes, houtcomes⟩ := hok (hnew.symm.trans hfaults)
  have hfaulting :=
    ((acts_faulting Disk.access).saveAll schedule j.workDir (files texts) d []).1
  have hnoting := ((acts_noting Disk.access).saveAll schedule j.workDir (files texts) d []).1
  exact ⟨outcomes, hnoting.trans (hfaulting.symm.trans houtcomes)⟩

/-- The outputs have absolute paths, at which their texts are to be saved. -/
theorem exists_tasks_of_rendered (h : j.rendered d = .ok (compiled, texts))
    (hpaths : ∀ o ∈ j.settings.outputs, o.path ≠ "") : ∃ ts, Tasks j.workDir (files texts) ts := by
  have houtputs : texts.map Prod.fst = j.settings.outputs := map_fst_of_render h
  apply exists_tasks_of_ne
  intro f hf
  obtain ⟨p, hp, rfl⟩ := List.mem_map.1 hf
  exact hpaths p.1 (houtputs ▸ List.mem_map_of_mem hp)

theorem map_path_of_rendered (h : j.rendered d = .ok (compiled, texts)) :
    (texts.map fun p => p.1.path) = j.settings.outputs.map File.path := by
  have houtputs : texts.map Prod.fst = j.settings.outputs := map_fst_of_render h
  rw [← houtputs, List.map_map]
  rfl

theorem map_path_eq_targets (h : j.rendered d = .ok (compiled, texts))
    (hts : Tasks j.workDir (files texts) ts) : ts.map Task.path = j.targets := by
  have houtputs : texts.map Prod.fst = j.settings.outputs := map_fst_of_render h
  rw [map_path_of_tasks hts]
  unfold targets files
  rw [← houtputs, List.map_map, List.filterMap_map, List.filterMap_map]
  rfl

theorem holds_eq {f : File × String} {t : Task} (ht : Task.of j.workDir f.1.path f.2 = .ok t) :
    j.holds d f = t.current d := by
  obtain ⟨habsolute, htext⟩ := absolute_of_task ht
  unfold holds Task.current
  rw [habsolute, Option.any_some, htext]

/-- Where each output is unchanged if its file held the text, the report is made of the files as
they were. -/
theorem report_eq {outcomes : List Outcome}
    (h : List.Forall₂ (fun f o => o = .unchanged ↔ j.holds d f = true) texts outcomes) :
    Report.of (texts.map fun p => p.1.path) (outcomes.map some) = j.report d texts := by
  unfold Report.of report
  dsimp only
  induction h with
  | nil => rfl
  | @cons f o texts outcomes ho _ ih =>
    obtain ⟨hwritten, hunchanged⟩ := Report.mk.inj ih
    rw [List.map_cons, List.map_cons, List.zip_cons_cons, List.filter_cons, List.filter_cons,
      List.filter_cons, List.filter_cons]
    cases o with
    | unchanged => simp [ho.1 rfl, hwritten, hunchanged]
    | written =>
      have hnot : j.holds d f = false := by simpa using ho
      simp [hnot, hwritten, hunchanged]

/-- Where all files hold their texts all outputs are reported unchanged. -/
theorem report_of_current (h : j.rendered d = .ok (compiled, texts))
    (hts : Tasks j.workDir (files texts) ts) (hcurrent : ∀ t ∈ ts, t.current d = true) :
    Report.of (texts.map fun p => p.1.path) (ts.map fun _ => some .unchanged) =
      ⟨[], j.settings.outputs.map File.path⟩ := by
  -- a task is current exactly if the output holds its text
  have hholds : ∀ f ∈ texts, j.holds d f = true := by
    intro f hf
    have hmem : (f.1.path, f.2) ∈ files texts := List.mem_map_of_mem hf
    obtain ⟨t, ht, hof⟩ := hts.exists_right hmem
    exact (holds_eq hof).trans (hcurrent t ht)
  have hlength : ts.length = texts.length := by
    rw [← hts.length_eq, List.length_map]
  have htold : List.Forall₂ (fun f o => o = .unchanged ↔ j.holds d f = true) texts
      (ts.map fun _ => Outcome.unchanged) := by
    refine List.forall₂_iff_get.2 ⟨by simp [hlength], fun i hi hi' => ?_⟩
    simpa using hholds _ (List.getElem_mem hi)
  have hreport := report_eq htold
  rw [List.map_map] at hreport
  rw [← map_path_of_rendered h]
  refine hreport.trans ?_
  rw [report, List.filter_eq_self.2 hholds,
    List.filter_eq_nil_iff.2 fun f hf => by simp [hholds f hf]]
  rfl

/-- Without faults all texts are saved. -/
theorem exists_allSaved (henabled : j.settings.enabled = true)
    (h : j.rendered d = .ok (compiled, texts))
    (haccept : ∀ f, j.accept = some f → f compiled.schema = .ok ())
    (hpaths : ∀ o ∈ j.settings.outputs, o.path ≠ "") (hfaults : j.faults schedule d = []) :
    ∃ ts outcomes calls, Tasks j.workDir (files texts) ts ∧
      j.extracted schedule d =
        (⟨.ok (.of (texts.map fun p => p.1.path) (outcomes.map some)),
          j.accept.map fun _ => compiled.schema⟩, (j.extracted schedule d).2) ∧
      AllSaved ts outcomes (d, []) ((j.extracted schedule d).2, calls) := by
  obtain ⟨ts₀, hts₀⟩ := exists_tasks_of_rendered h hpaths
  obtain ⟨told, htold⟩ := exists_outcomes henabled h haccept hts₀ hfaults
  have hextracted := extracted_eq j schedule d
  rw [run_of_accepted (looks_view d) henabled h haccept] at hextracted
  rw [hextracted]
  generalize hrun : (saveAll Disk.access.noting schedule j.workDir (files texts)).run (d, []) = r
  rw [hrun] at htold
  obtain ⟨result, d', calls⟩ := r
  obtain rfl : result = .ok told := htold
  obtain ⟨ts, outcomes, hts, rfl, hsaved⟩ := allSaved_of_saveAll hrun
  exact ⟨ts, outcomes, calls, hts, rfl, hsaved⟩

/-- What the tasks tell is told of the outputs. -/
theorem told_of_tasks {outcomes : List Outcome} (hts : Tasks j.workDir (files texts) ts)
    (h : List.Forall₂ (fun t o => d.Settled t.path → (o = .unchanged ↔ t.current d = true))
      ts outcomes) :
    List.Forall₂ (fun f o => (∀ a, Path.absolute? j.workDir f.1.path = some a → d.Settled a) →
      (o = .unchanged ↔ j.holds d f = true)) texts outcomes := by
  have htexts := (List.forall₂_map_left_iff.1 hts).flip
  refine htexts.join h fun t f o ht htold hsettled => ?_
  rw [holds_eq ht]
  exact htold (hsettled t.path (absolute_of_task ht).1)

/-- What was saved stays to be read if the outputs are different files. -/
theorem saves_of_accepted (henabled : j.settings.enabled = true)
    (h : j.rendered d = .ok (compiled, texts))
    (haccept : ∀ f, j.accept = some f → f compiled.schema = .ok ())
    (hpaths : ∀ o ∈ j.settings.outputs, o.path ≠ "") (hfaults : j.faults schedule d = [])
    (hdistinct : j.targets.Pairwise fun a b => ¬ (j.extracted schedule d).2.Same a b) :
    ∃ outcomes, j.Saves schedule d compiled texts outcomes := by
  obtain ⟨ts, outcomes, calls, hts, hextracted, hsaved⟩ :=
    exists_allSaved henabled h haccept hpaths hfaults
  have htargets := map_path_eq_targets h hts
  have hlength : ts.length = texts.length := by
    rw [← hts.length_eq, List.length_map]
  rw [← htargets, List.pairwise_map] at hdistinct
  have htold : d.WellFormed → List.Forall₂ (fun f o =>
      (∀ a, Path.absolute? j.workDir f.1.path = some a → d.Settled a) →
        (o = .unchanged ↔ j.holds d f = true)) texts outcomes :=
    fun hd => told_of_tasks hts (hsaved.told hd hdistinct)
  refine ⟨outcomes, {
    outputs := map_fst_of_render h
    result := by rw [hextracted, map_path_of_rendered h]
    read := ?_
    others := ?_
    length := hsaved.length.trans hlength
    told := htold
    settled := ?_ }⟩
  · intro f hf a ha
    have hmem : (f.1.path, f.2) ∈ files texts := List.mem_map_of_mem hf
    obtain ⟨t, ht, hof⟩ := hts.exists_right hmem
    obtain ⟨habsolute, htext⟩ := absolute_of_task hof
    obtain rfl : t.path = a := Option.some.inj (habsolute.symm.trans ha)
    exact htext ▸ hsaved.saved.read hdistinct t ht
  · intro q text hq
    -- a file that is at no target is at no place that was written
    obtain ⟨written, hg, hplaces⟩ := hsaved.saved.grows
    apply hg.file
    intro hmem
    obtain ⟨t, ht, hplace⟩ := hplaces q hmem
    exact hq t.path (htargets ▸ List.mem_map_of_mem ht) hplace
  · intro hd hsettled
    have hall : ∀ f ∈ texts, ∀ a, Path.absolute? j.workDir f.1.path = some a → d.Settled a := by
      intro f hf a ha
      have houtputs : texts.map Prod.fst = j.settings.outputs := map_fst_of_render h
      have hf : f.1 ∈ j.settings.outputs := houtputs ▸ List.mem_map_of_mem hf
      exact hsettled a (List.mem_filterMap.2 ⟨f.1, hf, ha⟩)
    have hholds : List.Forall₂ (fun f o => o = .unchanged ↔ j.holds d f = true) texts outcomes :=
      ((List.forall₂_and_left _ _).2 ⟨hall, htold hd⟩).imp fun f o hf => hf.2 hf.1
    rw [hextracted, ← report_eq hholds]

/-- A second run finds nothing to do if it finds the same style. -/
theorem extracted_again (henabled : j.settings.enabled = true)
    (h : j.rendered d = .ok (compiled, texts))
    (haccept : ∀ f, j.accept = some f → f compiled.schema = .ok ())
    (hpaths : ∀ o ∈ j.settings.outputs, o.path ≠ "") (hfaults : j.faults schedule d = [])
    (hdistinct : j.targets.Pairwise fun a b => ¬ (j.extracted schedule d).2.Same a b)
    (hd : d.WellFormed) (hsettled : ∀ p ∈ j.probed d, d.Settled p)
    (hapart : ∀ p ∈ j.probed d, ∀ a ∈ j.targets, ¬ (j.extracted schedule d).2.Same a p)
    (later : Schedule) :
    j.extracted later (j.extracted schedule d).2 =
        (⟨.ok ⟨[], j.settings.outputs.map File.path⟩, j.accept.map fun _ => compiled.schema⟩,
          (j.extracted schedule d).2) ∧
      j.changes later (j.extracted schedule d).2 = [] := by
  obtain ⟨ts, _, calls, hts, -, hsaved⟩ := exists_allSaved henabled h haccept hpaths hfaults
  have htargets := map_path_eq_targets h hts
  revert hdistinct hapart hsaved
  generalize (j.extracted schedule d).2 = d'
  intro hdistinct hapart hsaved
  -- the style files that were looked at lead where they did, and none of them was written
  have hrendered : j.rendered d' = .ok (compiled, texts) := by
    rw [← h]
    apply Style.render_eq_of_probed
    intro p hp
    rw [read?_view, read?_view]
    apply hsaved.saved.read_eq hd (hsettled p hp)
    exact fun t ht => hapart p hp t.path (htargets ▸ List.mem_map_of_mem ht)
  have hcurrent : ∀ t ∈ ts, t.current d' = true := by
    rw [← htargets, List.pairwise_map] at hdistinct
    exact hsaved.saved.current hdistinct
  have hrun : (j.run later Disk.access.noting).run (d', []) =
      (⟨.ok ⟨[], j.settings.outputs.map File.path⟩, j.accept.map fun _ => compiled.schema⟩,
        d', []) := by
    rw [run_of_accepted (looks_view d') henabled hrendered haccept,
      run_saveAll_current (s := (d', [])) later hts hcurrent,
      ← report_of_current hrendered hts hcurrent]
    rfl
  rw [extracted_eq, changes, hrun]
  exact ⟨rfl, rfl⟩

/-- A run saves nothing unless everything is rendered and accepted.  Then, if no call fails and the
outputs are different files, all outputs hold their texts and are reported once, whatever order the
saves take their steps in; and a second run changes nothing, unless the first one has changed which
style files are found. -/
theorem extract_all_or_nothing (j : Job) (schedule : Schedule) (d : Disk) :
    (j.settings.enabled = false → j.extracted schedule d = (⟨.ok .empty, none⟩, d)) ∧
    (j.settings.enabled = true →
      (∀ e, j.compiled = .error e → j.rendered d = .error e) ∧
      (∀ e, j.rendered d = .error e → j.extracted schedule d = (⟨.error e, none⟩, d)) ∧
      ∀ compiled texts, j.rendered d = .ok (compiled, texts) →
        (∀ f reason, j.accept = some f → f compiled.schema = .error reason →
          j.extracted schedule d = (⟨.error (.rejected reason), some compiled.schema⟩, d)) ∧
        ((∀ f, j.accept = some f → f compiled.schema = .ok ()) →
          (∀ o ∈ j.settings.outputs, o.path ≠ "") → j.faults schedule d = [] →
          (j.targets.Pairwise fun a b => ¬ (j.extracted schedule d).2.Same a b) →
          (∃ outcomes, j.Saves schedule d compiled texts outcomes) ∧
          (d.WellFormed → (∀ p ∈ j.probed d, d.Settled p) →
            (∀ p ∈ j.probed d, ∀ a ∈ j.targets, ¬ (j.extracted schedule d).2.Same a p) →
            ∀ later : Schedule,
              j.extracted later (j.extracted schedule d).2 =
                (⟨.ok ⟨[], j.settings.outputs.map File.path⟩,
                  j.accept.map fun _ => compiled.schema⟩, (j.extracted schedule d).2) ∧
              j.changes later (j.extracted schedule d).2 = []))) := by
  refine ⟨fun hoff => extracted_of_disabled hoff schedule d, fun henabled =>
    ⟨fun e he => rendered_of_error he d, fun e he => extracted_of_error henabled he schedule,
      fun compiled texts h => ⟨fun f reason haccept hreject => ?_, ?_⟩⟩⟩
  · exact extracted_of_rejected henabled h haccept hreject schedule
  intro haccept hpaths hfaults hdistinct
  exact ⟨saves_of_accepted henabled h haccept hpaths hfaults hdistinct,
    extracted_again henabled h haccept hpaths hfaults hdistinct⟩

def unrouted (outputs : List File) (options : Options) : Job where
  workDir := "/"
  routes := []
  definitions := []
  settings := { enabled := true, ignoreHead := false, outputs, options }
  accept := none

def styled : Disk where
  workDir := []
  entries := [(["b"], .directory), (["b", ".prettierrc"], .file "\x7b\"semi\":false\x7d")]

def accepted : Job :=
  { unrouted [⟨"a/c.ts", .clientTypes⟩, ⟨"d.ts", .clientTypes⟩] { Options.default with
      bannerComment := some "//\n"
      cwd := some "/b" } with
    accept := some fun _ => .ok () }

theorem extract_all_or_nothing_accepted : ∃ compiled texts,
    accepted.rendered styled = .ok (compiled, texts) ∧
      (∃ outcomes, accepted.Saves .sequential styled compiled texts outcomes) ∧
      accepted.extracted .lockstep (accepted.extracted .sequential styled).2 =
        (⟨.ok ⟨[], ["a/c.ts", "d.ts"]⟩, some compiled.schema⟩,
          (accepted.extracted .sequential styled).2) ∧
      accepted.changes .lockstep (accepted.extracted .sequential styled).2 = [] := by
  have hsome : (accepted.rendered styled).toOption.isSome = true := by decide +kernel
  obtain ⟨⟨compiled, texts⟩, h⟩ := Except.exists_of_isSome_toOption hsome
  have haccept : ∀ f, accepted.accept = some f → f compiled.schema = .ok () := by
    rintro _ ⟨⟩
    rfl
  have hfaults : (accepted.faults .sequential styled).isEmpty = true := by decide +kernel
  obtain ⟨-, hon⟩ := extract_all_or_nothing accepted .sequential styled
  obtain ⟨-, -, hrendered⟩ := hon rfl
  obtain ⟨-, hsaves⟩ := hrendered compiled texts h
  obtain ⟨hsaves, hagain⟩ :=
    hsaves haccept (by decide) (List.isEmpty_iff.1 hfaults) (by decide +kernel)
  obtain ⟨hsecond, hnone⟩ := hagain (Disk.wellFormed_of_entries (by decide +kernel))
    (by decide +kernel) (by decide +kernel) .lockstep
  exact ⟨compiled, texts, h, hsaves, hsecond, hnone⟩

/-- A run that goes on to save its outputs, at different absolute paths, and can save them all. -/
structure Proceeds (j : Job) (schedule : Schedule) (d : Disk) : Prop where
  wellFormed : d.WellFormed
  enabled : j.settings.enabled = true
  compiled : j.compiled.toOption.isSome
  accept : j.accept = none
  paths : ∀ o ∈ j.settings.outputs, o.path ≠ ""
  distinct : j.targets.Pairwise fun a b => ¬ Path.same a b
  faults : j.faults schedule d = []

/-- A run with a style that no text can be indented in. -/
def wide : Job :=
  unrouted [⟨"c.ts", .clientTypes⟩] { Options.default with
    bannerComment := some "//\n"
    style := some { Style.default with tabWidth := 9223372036854775808 } }

def doubled : Job :=
  unrouted [⟨"c.ts", .clientTypes⟩, ⟨"a/../c.ts", .serverTypes⟩] { Options.default with
    bannerComment := some "//\n"
    format := some false }

/-- A run that looks for a style on a way through the directory that it makes. -/
def roundabout : Job :=
  unrouted [⟨"a/c.ts", .clientTypes⟩] { Options.default with
    bannerComment := some "export \x7b\x7d;\n"
    cwd := some "/a/../b" }

def through : Job :=
  unrouted [⟨"a/d.ts", .clientTypes⟩, ⟨"a/../c.ts", .clientTypes⟩] { Options.default with
    bannerComment := some "//\n"
    format := some false }

def upToDate : Disk where
  workDir := []
  entries := [(["c.ts"], .file "//\nexport interface API \x7b\x7d\n")]

theorem proceeds_unrouted {outputs : List File} {options : Options} {schedule : Schedule}
    {d : Disk} (hd : d.WellFormed) (hcompiled : (unrouted outputs options).compiled.toOption.isSome)
    (hpaths : ∀ o ∈ outputs, o.path ≠ "")
    (hdistinct : (unrouted outputs options).targets.Pairwise fun a b => ¬ Path.same a b)
    (hfaults : ((unrouted outputs options).faults schedule d).isEmpty) :
    (unrouted outputs options).Proceeds schedule d where
  wellFormed := hd
  enabled := rfl
  compiled := hcompiled
  accept := rfl
  paths := hpaths
  distinct := hdistinct
  faults := List.isEmpty_iff.1 hfaults

/-- A run that can save everything may fail because a text cannot be laid out; outputs at different
paths may be one file; a run may change which style file is found; and an output may be found up to
date only once another save has made the directory that its path leads through. -/
theorem not_extract_all_or_nothing :
    (¬ ∀ (j : Job) (d : Disk), j.Proceeds .lockstep d →
      ∃ report, (j.extracted .lockstep d).1.result = .ok report) ∧
    (¬ ∀ (j : Job) (d : Disk) (r : Compile.Compiled × List (File × String)),
      j.Proceeds .lockstep d → j.rendered d = .ok r →
      ∀ f ∈ r.2, j.holds (j.extracted .lockstep d).2 f = true) ∧
    (¬ ∀ (j : Job) (d : Disk), j.Proceeds .lockstep d →
      (∃ report, (j.extracted .lockstep d).1.result = .ok report) →
      (∀ p ∈ j.probed d ++ j.probed (j.extracted .lockstep d).2, ∀ a ∈ j.targets,
        ¬ (j.extracted .lockstep d).2.Same a p) →
      j.changes .lockstep (j.extracted .lockstep d).2 = []) ∧
    ¬ ∀ (j : Job) (d : Disk) (r : Compile.Compiled × List (File × String)),
      j.Proceeds .sequential d → j.rendered d = .ok r →
      (j.targets.Pairwise fun a b => ¬ (j.extracted .sequential d).2.Same a b) →
      (j.extracted .sequential d).1.result = .ok (j.report d r.2) := by
  have hstyled : styled.WellFormed := Disk.wellFormed_of_entries (by decide +kernel)
  refine ⟨fun hall => ?_, fun hall => ?_, fun hall => ?_, fun hall => ?_⟩
  · have hwide : wide.Proceeds .lockstep styled := proceeds_unrouted hstyled (by decide +kernel)
      (by decide) (by decide +kernel) (by decide +kernel)
    obtain ⟨report, hok⟩ := hall wide styled hwide
    have hfailed : (wide.extracted .lockstep styled).1.result.toOption.isNone = true := by
      decide +kernel
    rw [hok] at hfailed
    cases hfailed
  · have hdoubled : doubled.Proceeds .lockstep styled := proceeds_unrouted hstyled
      (by decide +kernel) (by decide) (by decide +kernel) (by decide +kernel)
    have hlost : (doubled.rendered styled).toOption.any (fun r =>
        !r.2.all (doubled.holds (doubled.extracted .lockstep styled).2)) = true := by
      decide +kernel
    have hsome : (doubled.rendered styled).toOption.isSome = true := by decide +kernel
    obtain ⟨r, hr⟩ := Except.exists_of_isSome_toOption hsome
    have hholds := List.all_eq_true.2 (hall doubled styled r hdoubled hr)
    simp [hr, Except.toOption, hholds] at hlost
  · have hroundabout : roundabout.Proceeds .lockstep styled := proceeds_unrouted hstyled
      (by decide +kernel) (by decide) (by decide +kernel) (by decide +kernel)
    have hok : (roundabout.extracted .lockstep styled).1.result.toOption.isSome = true := by
      decide +kernel
    have hchanges : (roundabout.changes .lockstep
        (roundabout.extracted .lockstep styled).2).isEmpty = false := by
      decide +kernel
    have hdone := Except.exists_of_isSome_toOption hok
    rw [hall roundabout styled hroundabout hdone (by decide +kernel)] at hchanges
    cases hchanges
  · have hupToDate : upToDate.WellFormed := Disk.wellFormed_of_entries (by decide +kernel)
    have hthrough : through.Proceeds .sequential upToDate := proceeds_unrouted hupToDate
      (by decide +kernel) (by decide) (by decide +kernel) (by decide +kernel)
    have hsome : (through.rendered upToDate).toOption.isSome = true := by decide +kernel
    obtain ⟨r, hr⟩ := Except.exists_of_isSome_toOption hsome
    have hresult := hall through upToDate r hthrough hr (by decide +kernel)
    -- the last file was not found before `a` was made
    have hother : (through.rendered upToDate).toOption.any (fun r =>
        (through.extracted .sequential upToDate).1.result.toOption !=
          some (through.report upToDate r.2)) = true := by
      decide +kernel
    simp [hr, hresult, Except.toOption] at hother

end runs

end Job

end ApiTypes.Output
