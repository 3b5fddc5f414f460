import ApiTypes.Proofs.Files.Absolute
import ApiTypes.Proofs.Files.Interleaving

namespace ApiTypes.Files

open Memory

/-- Saves texts at paths one after the other, also after failures. -/
def saveInOrder {m : Type → Type} [Monad m] (access : Access m) (workDir : String)
    (files : List (String × String)) : m (List (Except Error Outcome)) :=
  files.mapM fun (path, text) => save access workDir path text

def lastSaved? (path : String) (saves : List ((String × String) × Except Error Outcome)) :
    Option String :=
  (saves.reverse.find? fun ((p, _), r) => Path.same path p && r.isOk).map fun ((_, text), _) => text

namespace Memory

/-- The directory of a path cannot be made. -/
def DeniesParent (m : Memory) (path : String) : Prop :=
  ∃ dir, Path.parent? path = some dir ∧ denied m.deniedDirectories dir

structure SameDenials (m m' : Memory) : Prop where
  reads : m'.deniedReads = m.deniedReads
  directories : m'.deniedDirectories = m.deniedDirectories
  writes : m'.deniedWrites = m.deniedWrites

structure Saves (m : Memory) (path text : String) (r : Except Error Outcome) (m' : Memory) :
    Prop where
  unchanged_iff : r = .ok .unchanged ↔
    denied m.deniedReads path = false ∧ text? m.files path = some text
  quiet : r = .ok .unchanged → m'.files = m.files ∧ m'.calls = m.calls ++ [.read path]
  written_iff : r = .ok .written ↔
    r ≠ .ok .unchanged ∧ ¬ m.DeniesParent path ∧ denied m.deniedWrites path = false
  holds : r = .ok .written → text? m'.files path = some text
  /-- The error names the directory that cannot be made, or else the file. -/
  failed : ∀ e, r = .error e → m'.files = m.files ∧
    ((∃ dir, Path.parent? path = some dir ∧ denied m.deniedDirectories dir = true ∧
        e = .access dir "denied") ∨
      ¬ m.DeniesParent path ∧ denied m.deniedWrites path = true ∧ e = .access path "denied")
  others : ∀ p, ¬ Path.same p path = true → text? m'.files p = text? m.files p
  denials : m.SameDenials m'

theorem SameDenials.trans {m m' m'' : Memory} (h : m.SameDenials m') (h' : m'.SameDenials m'') :
    m.SameDenials m'' :=
  ⟨h'.reads.trans h.reads, h'.directories.trans h.directories, h'.writes.trans h.writes⟩

variable {m m' : Memory} {path text : String} {r : Except Error Outcome}

/-- The file holds the text behind a save that did not fail, and is as before behind one that
did. -/
theorem Saves.text? (h : m.Saves path text r m') (p : String) :
    text? m'.files p =
      if (Path.same p path && r.isOk) = true then some text else text? m.files p := by
  by_cases hp : Path.same p path = true
  · have hsame : ∀ files, Memory.text? files p = Memory.text? files path := fun files => by
      unfold Memory.text? Path.same
      rw [same_iff.1 hp]
    rw [hp, Bool.true_and, hsame, hsame]
    match r, h with
    | .ok .unchanged, h => rw [(h.quiet rfl).1, (h.unchanged_iff.1 rfl).2]; rfl
    | .ok .written, h => rw [h.holds rfl]; rfl
    | .error e, h => rw [(h.failed e rfl).1]; rfl
  · rw [h.others p hp, if_neg (by simp [hp])]

/-- Behind the read a save makes the directory, and behind that it writes the file. -/
theorem run_save_of_not_current {t : Task} {m : Memory}
    (h : ¬ (denied m.deniedReads t.path = false ∧ Memory.text? m.files t.path = some t.text)) :
    (t.save access).run m =
      (do
        match ← t.makeParent access with
        | .error e => return .error e
        | .ok _ => return (← t.put access).map fun _ => .written :
          StateM Memory (Except Error Outcome)).run (m.log (.read t.path)) := by
  have hcurrent : (!denied m.deniedReads t.path && Memory.text? m.files t.path == some t.text) =
      false := by
    rw [← Bool.not_eq_true, Bool.and_eq_true, Bool.not_eq_true', beq_iff_eq]
    exact h
  unfold Task.save
  rw [run_bind, run_isCurrent, hcurrent]
  rfl

theorem exists_unmade {t : Task} {m : Memory} (h : m.DeniesParent t.path) :
    ∃ dir calls, (Path.parent? t.path = some dir ∧ denied m.deniedDirectories dir = true) ∧
      (t.makeParent access).run m = (.error (.access dir "denied"), { m with calls }) := by
  obtain ⟨dir, hdir, hdenied⟩ := h
  have hrun : (t.makeParent access).run m =
      (.error (.access dir "denied"), m.log (.makeDirectory dir)) := by
    rw [run_makeParent, hdir]
    dsimp only
    rw [if_pos hdenied]
  exact ⟨dir, _, ⟨hdir, hdenied⟩, hrun⟩

theorem exists_made {t : Task} {m : Memory} (h : ¬ m.DeniesParent t.path) :
    ∃ calls, (t.makeParent access).run m = (.ok (), { m with calls }) := by
  rw [run_makeParent]
  cases hdir : Path.parent? t.path with
  | none => exact ⟨m.calls, rfl⟩
  | some dir =>
    dsimp only
    rw [if_neg fun hdenied => h ⟨dir, hdir, hdenied⟩]
    exact ⟨_, rfl⟩

/-- A save that is denied a call leaves the files as they are. -/
theorem saves_of_denied {e : Error} (calls : List Call)
    (hcurrent : ¬ (denied m.deniedReads path = false ∧ Memory.text? m.files path = some text))
    (hcause : (∃ dir, Path.parent? path = some dir ∧ denied m.deniedDirectories dir = true ∧
        e = .access dir "denied") ∨
      ¬ m.DeniesParent path ∧ denied m.deniedWrites path = true ∧ e = .access path "denied") :
    m.Saves path text (.error e) { m with calls } where
  unchanged_iff := iff_of_false nofun hcurrent
  quiet := nofun
  written_iff := by
    refine iff_of_false nofun fun ⟨_, hparent, hwrites⟩ => ?_
    rcases hcause with ⟨dir, hdir, hdenied, -⟩ | ⟨-, hdenied, -⟩
    · exact hparent ⟨dir, hdir, hdenied⟩
    · rw [hdenied] at hwrites
      cases hwrites
  holds := nofun
  failed := by
    rintro _ ⟨⟩
    exact ⟨rfl, hcause⟩
  others _ _ := rfl
  denials := ⟨rfl, rfl, rfl⟩

/-- A save from any memory, whatever it denies. -/
theorem exists_saves (t : Task) (m : Memory) :
    ∃ r m', (t.save access).run m = (r, m') ∧ m.Saves t.path t.text r m' := by
  -- the save ends at the first of its three calls that settles the matter
  by_cases hcurrent : denied m.deniedReads t.path = false ∧
      Memory.text? m.files t.path = some t.text
  · refine ⟨.ok .unchanged, m.log (.read t.path), ?_, ?_⟩
    · unfold Task.save
      rw [run_bind, run_isCurrent, hcurrent.1, hcurrent.2]
      dsimp only
      rw [if_pos (by simp)]
      rfl
    · exact {
        unchanged_iff := iff_of_true rfl hcurrent
        quiet := fun _ => ⟨rfl, rfl⟩
        written_iff := by simp
        holds := nofun
        failed := nofun
        others := fun _ _ => rfl
        denials := ⟨rfl, rfl, rfl⟩ }
  rw [run_save_of_not_current hcurrent, run_bind]
  by_cases hparent : m.DeniesParent t.path
  · obtain ⟨dir, calls, hdir, hunmade⟩ := exists_unmade (m := m.log (.read t.path)) hparent
    rw [hunmade]
    exact ⟨_, _, rfl, saves_of_denied calls hcurrent (.inl ⟨dir, hdir.1, hdir.2, rfl⟩)⟩
  obtain ⟨calls, hmade⟩ := exists_made (m := m.log (.read t.path)) hparent
  rw [hmade]
  dsimp only [log]
  rw [run_bind, run_put]
  by_cases hdenied : denied m.deniedWrites t.path = true
  · rw [if_pos hdenied]
    exact ⟨_, _, rfl, saves_of_denied _ hcurrent (.inr ⟨hparent, hdenied, rfl⟩)⟩
  · rw [if_neg hdenied]
    refine ⟨_, _, rfl, ?_⟩
    exact {
      unchanged_iff := iff_of_false nofun hcurrent
      quiet := nofun
      written_iff := iff_of_true rfl ⟨nofun, hparent, by simpa using hdenied⟩
      holds := fun _ => (text?_put _ _ _ _).trans (if_pos (same_iff.2 rfl))
      failed := nofun
      others := fun p hp => (text?_put _ _ _ _).trans (if_neg hp)
      denials := ⟨rfl, rfl, rfl⟩ }

end Memory

section order

variable {workDir path text : String} {done : List (String × String)}

/-- A save at a path from the root, which is made at the absolute form of the path. -/
theorem exists_saves_of_isAbsolute (workDir text : String) (m : Memory)
    (h : Path.isAbsolute path = true) :
    ∃ q r m', Path.absolute? workDir path = some q ∧ Path.same q path = true ∧
      (save access workDir path text).run m = (r, m') ∧ m.Saves q text r m' := by
  obtain ⟨q, hq, hcomponents⟩ := Path.exists_absolute? workDir h
  obtain ⟨r, m', hrun, hsaves⟩ := exists_saves ⟨q, text⟩ m
  refine ⟨q, r, m', hq, same_iff.2 hcomponents, ?_, hsaves⟩
  unfold save Task.of
  rw [hq]
  exact hrun

theorem run_saveInOrder_concat (workDir : String) (done : List (String × String))
    (f : String × String) (m : Memory) :
    (saveInOrder access workDir (done ++ [f])).run m =
      let (results, m₁) := (saveInOrder access workDir done).run m
      let (r, m₂) := (save access workDir f.1 f.2).run m₁
      (results ++ [r], m₂) := by
  unfold saveInOrder
  rw [List.mapM_append]
  rfl

theorem lastSaved?_concat {results : List (Except Error Outcome)}
    (hlength : results.length = done.length) (p : String) (f : String × String)
    (r : Except Error Outcome) :
    lastSaved? p ((done ++ [f]).zip (results ++ [r])) =
      if (Path.same p f.1 && r.isOk) = true then some f.2 else lastSaved? p (done.zip results) := by
  obtain ⟨path, text⟩ := f
  unfold lastSaved?
  rw [List.zip_append hlength.symm, List.zip_cons_cons, List.zip_nil_right, List.reverse_append,
    List.reverse_singleton, List.singleton_append, List.find?_cons]
  dsimp only
  cases Path.same p path && r.isOk <;> rfl

/-- After any saves each file holds the text that was last saved in it, or what it held before. -/
theorem exists_run_saveInOrder (hdone : ∀ f ∈ done, Path.isAbsolute f.1 = true)
    (before : Memory) :
    ∃ results m, (saveInOrder access workDir done).run before = (results, m) ∧
      results.length = done.length ∧ before.SameDenials m ∧
      ∀ p, text? m.files p = (lastSaved? p (done.zip results)).or (text? before.files p) := by
  -- by induction from the end, since the last save of a path is the one that counts
  induction done using List.reverseRecOn with
  | nil => exact ⟨[], before, rfl, rfl, ⟨rfl, rfl, rfl⟩, fun _ => rfl⟩
  | append_singleton done f ih =>
    obtain ⟨results, m, hrun, hlength, hdenials, htexts⟩ :=
      ih fun g hg => hdone g (List.mem_append_left [f] hg)
    obtain ⟨q, r, m', -, hq, hsave, hsaves⟩ :=
      exists_saves_of_isAbsolute workDir f.2 m (hdone f (by simp))
    refine ⟨results ++ [r], m', ?_, by simp [hlength], hdenials.trans hsaves.denials, fun p => ?_⟩
    · rw [run_saveInOrder_concat, hrun]
      dsimp only
      rw [hsave]
    · have hsame : Path.same p q = Path.same p f.1 := by
        unfold Path.same
        rw [same_iff.1 hq]
      rw [hsaves.text?, lastSaved?_concat hlength, hsame, htexts]
      split <;> rfl

/-- Saves over a whole run.  Whatever calls are denied, the save behind any others has the result
and the effect that its file and the denials give it, and each file holds the text that was last
saved in it; a text that was saved in a file that can be read is not written again. -/
theorem saves_in_order (workDir text : String) (before : Memory)
    (hdone : ∀ f ∈ done, Path.isAbsolute f.1 = true) (hpath : Path.isAbsolute path = true) :
    ∃ results m q r m', (saveInOrder access workDir done).run before = (results, m) ∧
      (saveInOrder access workDir (done ++ [(path, text)])).run before = (results ++ [r], m') ∧
      results.length = done.length ∧ before.SameDenials m ∧
      (Path.absolute? workDir path = some q ∧ Path.same q path = true) ∧ m.Saves q text r m' ∧
      (∀ p, text? m.files p = (lastSaved? p (done.zip results)).or (text? before.files p)) ∧
      (lastSaved? path (done.zip results) = some text → denied before.deniedReads path = false →
        r = .ok .unchanged ∧ m'.files = m.files ∧ m'.calls = m.calls ++ [.read q]) := by
  obtain ⟨results, m, hrun, hlength, hdenials, htexts⟩ := exists_run_saveInOrder hdone before
  obtain ⟨q, r, m', hq, hsame, hsave, hsaves⟩ := exists_saves_of_isAbsolute workDir text m hpath
  refine ⟨results, m, q, r, m', hrun, ?_, hlength, hdenials, ⟨hq, hsame⟩, hsaves, htexts, ?_⟩
  · rw [run_saveInOrder_concat, hrun]
    dsimp only
    rw [hsave]
  · intro hlast hreadable
    -- the absolute form is the same path, so the file is there and can be read
    have hunchanged : r = .ok .unchanged := by
      apply hsaves.unchanged_iff.2
      unfold denied Memory.text? Path.same at *
      rw [same_iff.1 hsame, hdenials.reads]
      refine ⟨hreadable, ?_⟩
      have htext := htexts path
      rw [hlast] at htext
      exact htext
    exact ⟨hunchanged, hsaves.quiet hunchanged⟩

def guarded : Memory where
  files := [("/app/client.ts", "old"), ("/app/server.ts", "new")]
  deniedReads := ["/app/server.ts"]
  deniedDirectories := ["/locked"]
  deniedWrites := ["/app/routes.ts"]
  calls := []

def attempts : List (String × String) :=
  [("/app/client.ts", "new"), ("/app/server.ts", "new"), ("/locked/client.ts", "new"),
    ("/app/routes.ts", "new"), ("/app//./client.ts", "newer"), ("/app/server.ts", "new")]

def attemptResults : List (Except Error Outcome) :=
  [.ok .written, .ok .written, .error (.access "/locked" "denied"),
    .error (.access "/app/routes.ts" "denied"), .ok .written, .ok .written]

theorem saves_in_order_guarded :
    (∀ f ∈ attempts, Path.isAbsolute f.1 = true) ∧ Path.isAbsolute "/app/client.ts/" = true ∧
    lastSaved? "/app/client.ts/" (attempts.zip attemptResults) = some "newer" ∧
    ∃ m m', (saveInOrder access "/" attempts).run guarded = (attemptResults, m) ∧
      (saveInOrder access "/" (attempts ++ [("/app/client.ts/", "newer")])).run guarded =
        (attemptResults ++ [.ok .unchanged], m') ∧
      m'.files = m.files ∧ m'.calls = m.calls ++ [.read "/app/client.ts/"] ∧
      text? m.files "/app/routes.ts" = none := by
  have hdone : ∀ f ∈ attempts, Path.isAbsolute f.1 = true := by decide +kernel
  have hpath : Path.isAbsolute "/app/client.ts/" = true := by decide +kernel
  have hlast : lastSaved? "/app/client.ts/" (attempts.zip attemptResults) = some "newer" := by
    decide +kernel
  have hresults : ((saveInOrder access "/" attempts).run guarded).1 = attemptResults := by
    decide +kernel
  have habsolute : Path.absolute? "/" "/app/client.ts/" = some "/app/client.ts/" := by
    decide +kernel
  obtain ⟨results, m, q, r, m', hrun, hrun', -, -, ⟨hq, -⟩, -, htexts, hrepeated⟩ :=
    saves_in_order "/" "newer" guarded hdone hpath
  obtain rfl : results = attemptResults := (congrArg Prod.fst hrun).symm.trans hresults
  obtain rfl : q = "/app/client.ts/" := Option.some.inj (hq.symm.trans habsolute)
  obtain ⟨rfl, hfiles, hcalls⟩ := hrepeated hlast (by decide +kernel)
  refine ⟨hdone, hpath, hlast, m, m', hrun, hrun', hfiles, hcalls, ?_⟩
  rw [htexts]
  decide +kernel

end order

end ApiTypes.Files
