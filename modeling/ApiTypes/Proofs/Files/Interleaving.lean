import ApiTypes.Files.Memory
import ApiTypes.Output.Extract
import ApiTypes.Proofs.Files.Rounds

/-!
Saves that take turns.  The files are shared, and each step may be made to fail.  A save changes the
file at its own path only, so saves for different files do not see one another: whatever the order
of their steps is, they end as they do one after the other.
-/

namespace ApiTypes.Files

open Memory

structure Turn where
  place : Nat
  fails : Bool

structure Progress where
  saves : List Saving
  files : List (String × String)

/-- Files in memory where all that a save can call is denied, or nothing is. -/
def Task.memory (t : Task) (fails : Bool) (files : List (String × String)) : Memory :=
  let paths := if fails then t.path :: (Path.parent? t.path).toList else []
  ⟨files, paths, paths, paths, []⟩

def Progress.take (p : Progress) (turn : Turn) : Progress :=
  match p.saves[turn.place]? with
  | some s =>
    let (s', m) := (s.step Memory.access).run (s.task.memory turn.fails p.files)
    ⟨p.saves.set turn.place s', m.files⟩
  | none => p

def Progress.after (p : Progress) (turns : List Turn) : Progress :=
  turns.foldl Progress.take p

def Progress.start (workDir : String) (files before : List (String × String)) : Progress :=
  ⟨files.map fun (path, text) => .start workDir path text, before⟩

def Apart (ts : List Task) : Prop :=
  ts.Pairwise fun t u => ¬ Path.same t.path u.path

def Saving.isOver (s : Saving) : Bool :=
  s.outcome?.isSome || s.failure?.isSome

/-- Saves texts at paths one after the other, up to the first failure. -/
def saveEach {m : Type → Type} [Monad m] (access : Access m) (workDir : String) :
    List (String × String) → m (Except Error (List Outcome))
  | [] => return .ok []
  | (path, text) :: files => do
    match ← save access workDir path text with
    | .error e => return .error e
    | .ok outcome => return (← saveEach access workDir files).map (outcome :: ·)

section memory

variable {path path' text : String} {files : List (String × String)}

theorem same_iff : Path.same path path' = true ↔ Path.components path = Path.components path' :=
  beq_iff_eq

theorem same_comm (path path' : String) : Path.same path path' = Path.same path' path :=
  BEq.comm

theorem text?_cons (path p t : String) (files : List (String × String)) :
    text? ((p, t) :: files) path = if Path.same path p then some t else text? files path := by
  unfold text?
  rw [List.find?_cons]
  by_cases h : Path.same path p = true <;> simp [h]

theorem text?_put (path' path text : String) (files : List (String × String)) :
    text? (put path text files) path' =
      if Path.same path' path then some text else text? files path' := by
  induction files with
  | nil => rw [put, text?_cons]
  | cons f files ih =>
    obtain ⟨p, t⟩ := f
    unfold put
    by_cases h : Path.same path p = true
    · -- what is the same as one of the two is the same as the other
      have hsame : Path.same path' p = Path.same path' path := by
        unfold Path.same
        rw [same_iff.1 h]
      rw [if_pos h, text?_cons, text?_cons, hsame]
      split <;> rfl
    · rw [if_neg h, text?_cons, text?_cons, ih]
      by_cases hp : Path.same path' p = true
      · have hne : ¬ Path.same path' path = true := fun hpath =>
          h (same_iff.2 ((same_iff.1 hpath).symm.trans (same_iff.1 hp)))
        rw [if_pos hp, if_pos hp, if_neg hne]
      · rw [if_neg hp, if_neg hp]

end memory

namespace Memory

variable (t : Task) (m : Memory)

theorem run_makeParent :
    (t.makeParent access).run m =
      match Path.parent? t.path with
      | none => (.ok (), m)
      | some dir =>
        (if denied m.deniedDirectories dir then .error (.access dir "denied") else .ok (),
          m.log (.makeDirectory dir)) := by
  unfold Task.makeParent
  cases Path.parent? t.path with
  | none => rfl
  | some dir =>
    show ((if denied m.deniedDirectories dir then .error "denied" else .ok () :
      Except String Unit).mapError (Error.access dir), m.log (.makeDirectory dir)) = _
    dsimp only
    split <;> rfl

theorem run_put :
    (t.put access).run m =
      if denied m.deniedWrites t.path then
        (.error (.access t.path "denied"), m.log (.write t.path))
      else (.ok (), { m with files := put t.path t.text m.files }.log (.write t.path)) := by
  have hwrite : (access.write t.path t.text).run m =
      if denied m.deniedWrites t.path then (.error "denied", m.log (.write t.path))
      else (.ok (), { m with files := put t.path t.text m.files }.log (.write t.path)) := by
    show (if denied m.deniedWrites t.path then answer (.write t.path) fun _ => .error "denied"
      else do
        modify fun m => { m with files := put t.path t.text m.files }
        answer (.write t.path) fun _ => .ok () : StateM Memory (Except String Unit)).run m = _
    split <;> rfl
  show (((access.write t.path t.text).run m).1.mapError (Error.access t.path),
    ((access.write t.path t.text).run m).2) = _
  rw [hwrite]
  split <;> rfl

theorem run_read (path : String) :
    (access.read path).run m =
      ((text? m.files path).elim (.error "denied") fun text =>
        if denied m.deniedReads path then .error "denied" else .ok text, m.log (.read path)) := by
  show (_, _) = _
  dsimp only
  cases text? m.files path <;> rfl

theorem run_isCurrent :
    (t.isCurrent access).run m =
      (!denied m.deniedReads t.path && text? m.files t.path == some t.text,
        m.log (.read t.path)) := by
  have hrun : (t.isCurrent access).run m =
      (((access.read t.path).run m).1.toOption == some t.text,
        ((access.read t.path).run m).2) := rfl
  rw [hrun, run_read]
  cases text? m.files t.path with
  | none => simp [Except.toOption]
  | some text => cases denied m.deniedReads t.path <;> simp [Except.toOption]

end Memory

/-- What a step does to the stage of a save and to the files, where `fails` says whether the call
that it makes is denied. -/
inductive Step (t : Task) (fails : Bool) (files : List (String × String)) :
    Stage → Stage → List (String × String) → Prop
  | current (h : fails = false) (htext : text? files t.path = some t.text) :
      Step t fails files .reading (.done .unchanged) files
  | different (h : fails = true ∨ text? files t.path ≠ some t.text) :
      Step t fails files .reading .making files
  | made (h : fails = false) : Step t fails files .making .writing files
  | unmade {dir : String} (h : fails = true) (hdir : Path.parent? t.path = some dir) :
      Step t fails files .making (.failed (.access dir "denied")) files
  | written (h : fails = false) :
      Step t fails files .writing (.done .written) (put t.path t.text files)
  | unwritten (h : fails = true) :
      Step t fails files .writing (.failed (.access t.path "denied")) files
  | done (outcome : Outcome) : Step t fails files (.done outcome) (.done outcome) files
  | failed (e : Error) : Step t fails files (.failed e) (.failed e) files

def Saving.isDenied (s : Saving) (m : Memory) : Bool :=
  match s.stage with
  | .reading => denied m.deniedReads s.task.path
  | .making => (Path.parent? s.task.path).any (denied m.deniedDirectories)
  | .writing => denied m.deniedWrites s.task.path
  | .done _ | .failed _ => false

theorem Step.unique {t : Task} {fails : Bool} {files files₁ files₂ : List (String × String)}
    {stage stage₁ stage₂ : Stage} (h₁ : Step t fails files stage stage₁ files₁)
    (h₂ : Step t fails files stage stage₂ files₂) : stage₁ = stage₂ ∧ files₁ = files₂ := by
  cases h₁ <;> cases h₂ <;> simp_all

/-- A step of a save is a step, and it leaves what is denied as it is. -/
theorem step_run (s : Saving) (m : Memory) :
    ∃ stage files calls, (s.step Memory.access).run m =
      (⟨s.task, stage⟩, { m with files, calls }) ∧
        Step s.task (s.isDenied m) m.files s.stage stage files := by
  obtain ⟨t, stage⟩ := s
  -- each stage makes one call, which the memory denies or not
  cases stage with
  | reading =>
    rw [run_step_reading, Memory.run_isCurrent]
    refine ⟨_, _, _, rfl, ?_⟩
    dsimp only
    split
    · next h =>
      obtain ⟨hallowed, htext⟩ := Bool.and_eq_true_iff.1 h
      exact .current (Bool.not_eq_true' _ ▸ hallowed) (beq_iff_eq.1 htext)
    · next h =>
      refine .different ?_
      by_cases hdenied : denied m.deniedReads t.path = true
      · exact .inl hdenied
      · exact .inr fun htext => h (by simp [hdenied, htext])
  | making =>
    rw [run_step_making, Memory.run_makeParent]
    unfold Saving.isDenied
    dsimp only
    cases hdir : Path.parent? t.path with
    | none => exact ⟨_, _, _, rfl, .made rfl⟩
    | some dir =>
      dsimp only [Option.any_some]
      cases hdenied : denied m.deniedDirectories dir with
      | false => exact ⟨_, _, _, rfl, .made rfl⟩
      | true => exact ⟨_, _, _, rfl, .unmade rfl hdir⟩
  | writing =>
    rw [run_step_writing, Memory.run_put]
    unfold Saving.isDenied
    dsimp only
    cases hdenied : denied m.deniedWrites t.path with
    | false => exact ⟨_, _, _, rfl, .written rfl⟩
    | true => exact ⟨_, _, _, rfl, .unwritten rfl⟩
  | done outcome => exact ⟨_, _, _, rfl, .done outcome⟩
  | failed e => exact ⟨_, _, _, rfl, .failed e⟩

theorem isDenied_memory (s : Saving) (files : List (String × String)) :
    s.isDenied (s.task.memory false files) = false := by
  unfold Saving.isDenied
  cases s.stage with
  | making => cases Path.parent? s.task.path <;> rfl
  | _ => rfl

section progress

variable {ts : List Task} {before files : List (String × String)} {p : Progress} {turn : Turn}

/-- What has become of the file of a save: it holds what it did before, or the text. -/
def Saving.Holds (before files : List (String × String)) (s : Saving) : Prop :=
  match s.stage with
  | .done .written => text? files s.task.path = some s.task.text
  | .done .unchanged => text? files s.task.path = text? before s.task.path ∧
      text? before s.task.path = some s.task.text
  | _ => text? files s.task.path = text? before s.task.path

/-- Without failures a save goes on only if its file held another text before. -/
def Saving.Needed (before : List (String × String)) (s : Saving) : Prop :=
  match s.stage with
  | .reading | .done .unchanged => True
  | .failed _ => False
  | .making | .writing | .done .written => text? before s.task.path ≠ some s.task.text

theorem holds_of_step {t : Task} {fails : Bool} {files' : List (String × String)}
    {stage stage' : Stage} (h : Step t fails files stage stage' files')
    (hholds : Saving.Holds before files ⟨t, stage⟩) :
    Saving.Holds before files' ⟨t, stage'⟩ := by
  cases h with
  | current _ htext => exact ⟨hholds, hholds.symm.trans htext⟩
  | different => exact hholds
  | made => exact hholds
  | unmade => exact hholds
  | written =>
    show text? (put t.path t.text files) t.path = some t.text
    rw [text?_put, if_pos (same_iff.2 rfl)]
  | unwritten => exact hholds
  | done => exact hholds
  | failed => exact hholds

theorem needed_of_step {t : Task} {files' : List (String × String)} {stage stage' : Stage}
    (h : Step t false files stage stage' files') (hholds : Saving.Holds before files ⟨t, stage⟩)
    (hneeded : Saving.Needed before ⟨t, stage⟩) : Saving.Needed before ⟨t, stage'⟩ := by
  cases h with
  | current => trivial
  | different h =>
    have htext : text? files t.path ≠ some t.text := h.resolve_left Bool.false_ne_true
    exact fun hbefore => htext (hholds.trans hbefore)
  | made => exact hneeded
  | unmade h => cases h
  | written => exact hneeded
  | unwritten h => cases h
  | done => exact hneeded
  | failed => exact hneeded

/-- A step changes the file at its own path only. -/
theorem text?_of_step {t : Task} {fails : Bool} {files' : List (String × String)}
    {stage stage' : Stage} (h : Step t fails files stage stage' files') {path : String}
    (hpath : ¬ Path.same path t.path = true) : text? files' path = text? files path := by
  cases h with
  | written => rw [text?_put, if_neg hpath]
  | _ => rfl

/-- A save whose file is not changed. -/
theorem Saving.Holds.congr {s : Saving} {files' : List (String × String)}
    (h : s.Holds before files) (hfiles : text? files' s.task.path = text? files s.task.path) :
    s.Holds before files' := by
  unfold Saving.Holds at h ⊢
  rwa [hfiles]

structure Progress.From (p : Progress) (ts : List Task) (before : List (String × String)) :
    Prop where
  tasks : p.saves.map Saving.task = ts
  holds : ∀ s ∈ p.saves, s.Holds before p.files
  others : ∀ path, (∀ t ∈ ts, ¬ Path.same path t.path = true) →
    text? p.files path = text? before path

/-- A turn is a step of one save, and the others stay as they are. -/
theorem exists_take (front : List Saving) (s : Saving) (back : List Saving)
    (files : List (String × String)) (fails : Bool) :
    ∃ stage files', Progress.take ⟨front ++ s :: back, files⟩ ⟨front.length, fails⟩ =
        ⟨front ++ ⟨s.task, stage⟩ :: back, files'⟩ ∧
      Step s.task (s.isDenied (s.task.memory fails files)) files s.stage stage files' := by
  obtain ⟨stage, files', calls, hrun, hstep⟩ := step_run s (s.task.memory fails files)
  refine ⟨stage, files', ?_, hstep⟩
  have hget : (front ++ s :: back)[front.length]? = some s := by simp
  unfold Progress.take
  dsimp only
  rw [hget]
  dsimp only
  rw [hrun]
  simp

theorem take_of_le (h : p.saves.length ≤ turn.place) : p.take turn = p := by
  unfold Progress.take
  rw [List.getElem?_eq_none h]

theorem saves_start {workDir : String} (hts : Tasks workDir files ts)
    (before : List (String × String)) :
    (Progress.start workDir files before).saves = ts.map fun t => ⟨t, .reading⟩ :=
  start_eq hts

theorem from_start {workDir : String} (hts : Tasks workDir files ts)
    (before : List (String × String)) : (Progress.start workDir files before).From ts before where
  tasks := by simp [saves_start hts, Function.comp_def]
  holds s hs := by
    rw [saves_start hts] at hs
    obtain ⟨t, -, rfl⟩ := List.mem_map.1 hs
    exact rfl
  others _ _ := rfl

/-- What the saves have come to stays so in every turn. -/
theorem Progress.From.take (h : p.From ts before) (hapart : Apart ts) (turn : Turn) :
    (p.take turn).From ts before := by
  obtain ⟨saves, files⟩ := p
  obtain ⟨place, fails⟩ := turn
  -- a turn for a place without a save changes nothing
  rcases Nat.lt_or_ge place saves.length with hlt | hle
  · obtain ⟨front, s, back, rfl, rfl⟩ := exists_append_cons hlt
    obtain ⟨stage, files', hp, hstep⟩ := exists_take front s back files fails
    have hs : s ∈ front ++ s :: back := by simp
    have htask : s.task ∈ ts := h.tasks ▸ List.mem_map_of_mem hs
    rw [hp]
    refine { tasks := ?_, holds := fun u hu => ?_, others := fun path hpath => ?_ }
    · rw [← h.tasks, List.map_append, List.map_append]
      rfl
    · rcases mem_middle.1 hu with rfl | hu
      · exact holds_of_step hstep (h.holds s hs)
      · -- the file of another save is another file
        have hpairwise := hapart
        rw [← h.tasks] at hpairwise
        have hne : ¬ Path.same u.task.path s.task.path = true :=
          rel_of_pairwise_append (fun t u hne => by rwa [same_comm]) hpairwise hu
        exact (h.holds u (mem_middle.2 (.inr hu))).congr (text?_of_step hstep hne)
    · exact (text?_of_step hstep (hpath s.task htask)).trans (h.others path hpath)
  · rw [take_of_le hle]
    exact h

theorem Progress.From.after (h : p.From ts before) (hapart : Apart ts) (turns : List Turn) :
    (p.after turns).From ts before := by
  induction turns generalizing p with
  | nil => exact h
  | cons turn turns ih => exact ih (h.take hapart turn)

/-- Without failures every save goes on only as far as it is needed. -/
theorem needed_after (h : p.From ts before) (hapart : Apart ts)
    (hneeded : ∀ s ∈ p.saves, s.Needed before) {turns : List Turn}
    (hturns : ∀ turn ∈ turns, turn.fails = false) :
    ∀ s ∈ (p.after turns).saves, s.Needed before := by
  -- by `From` the file of a save is still as it was before, whatever the others have done meanwhile
  induction turns generalizing p with
  | nil => exact hneeded
  | cons turn turns ih =>
    obtain ⟨hturn, hturns⟩ := List.forall_mem_cons.1 hturns
    refine ih (h.take hapart turn) (fun u hu => ?_) hturns
    obtain ⟨saves, files⟩ := p
    obtain ⟨place, fails⟩ := turn
    obtain rfl : fails = false := hturn
    rcases Nat.lt_or_ge place saves.length with hlt | hle
    · obtain ⟨front, s, back, rfl, rfl⟩ := exists_append_cons hlt
      obtain ⟨stage, files', hp, hstep⟩ := exists_take front s back files false
      rw [isDenied_memory] at hstep
      rw [hp] at hu
      have hs : s ∈ front ++ s :: back := by simp
      rcases mem_middle.1 hu with rfl | hu
      · exact needed_of_step hstep (h.holds s hs) (hneeded s hs)
      · exact hneeded u (mem_middle.2 (.inr hu))
    · have hunmoved : (⟨saves, files⟩ : Progress).take ⟨place, false⟩ = ⟨saves, files⟩ :=
        take_of_le hle
      rw [hunmoved] at hu
      exact hneeded u hu

def Task.outcomeFrom (before : List (String × String)) (t : Task) : Outcome :=
  if text? before t.path = some t.text then .unchanged else .written

theorem failure?_of_needed {s : Saving} (h : s.Needed before) : s.failure? = none := by
  obtain ⟨t, stage⟩ := s
  cases stage with
  | failed e => exact h.elim
  | _ => rfl

/-- A save that is over without a failure has done what it does alone. -/
theorem over_of_needed {s : Saving} (hholds : s.Holds before files) (hneeded : s.Needed before)
    (hover : s.isOver = true) :
    s.outcome? = some (s.task.outcomeFrom before) ∧
      text? files s.task.path = some s.task.text := by
  obtain ⟨t, stage⟩ := s
  unfold Task.outcomeFrom
  cases stage with
  | reading => cases hover
  | making => cases hover
  | writing => cases hover
  | failed e => exact hneeded.elim
  | done outcome =>
    -- it was written because another text was there, or left alone because this one was
    cases outcome with
    | written =>
      rw [if_neg hneeded]
      exact ⟨rfl, hholds⟩
    | unchanged =>
      rw [if_pos hholds.2]
      exact ⟨rfl, hholds.1.trans hholds.2⟩

theorem concluded_of_needed (h : p.From ts before) (hneeded : ∀ s ∈ p.saves, s.Needed before)
    (hover : ∀ s ∈ p.saves, s.isOver = true) :
    concluded p.saves = .ok (ts.map fun t => some (t.outcomeFrom before)) := by
  have hnone : p.saves.findSome? Saving.failure? = none :=
    List.findSome?_eq_none_iff.2 fun s hs => failure?_of_needed (hneeded s hs)
  unfold concluded
  rw [hnone, ← h.tasks, List.map_map]
  refine congrArg _ (List.map_congr_left fun s hs => ?_)
  exact (over_of_needed (h.holds s hs) (hneeded s hs) (hover s hs)).1

end progress

section each

variable {workDir : String} {files : List (String × String)} {ts : List Task}

theorem run_bind {α β : Type} (a : StateM Memory α) (f : α → StateM Memory β) (m : Memory) :
    (a >>= f).run m = (f (a.run m).1).run (a.run m).2 := rfl

def Task.saved (before : List (String × String)) (t : Task) : List (String × String) :=
  if text? before t.path = some t.text then before else Memory.put t.path t.text before

theorem text?_saved_self (t : Task) (before : List (String × String)) :
    text? (t.saved before) t.path = some t.text := by
  unfold Task.saved
  split
  · assumption
  · rw [text?_put, if_pos (same_iff.2 rfl)]

theorem text?_saved {t : Task} {path : String} (before : List (String × String))
    (hpath : ¬ Path.same path t.path = true) :
    text? (t.saved before) path = text? before path := by
  unfold Task.saved
  split
  · rfl
  · rw [text?_put, if_neg hpath]

/-- A save alone, if nothing is denied. -/
theorem run_save (t : Task) (before : List (String × String)) (calls : List Call) :
    ∃ calls', (t.save Memory.access).run ⟨before, [], [], [], calls⟩ =
      (.ok (t.outcomeFrom before), ⟨t.saved before, [], [], [], calls'⟩) := by
  unfold Task.save Task.outcomeFrom Task.saved
  rw [run_bind, Memory.run_isCurrent]
  by_cases htext : text? before t.path = some t.text
  · have hcurrent : (text? before t.path == some t.text) = true := beq_iff_eq.2 htext
    rw [if_pos htext, if_pos htext]
    dsimp only
    rw [hcurrent]
    exact ⟨_, rfl⟩
  · have hcurrent : (text? before t.path == some t.text) = false := beq_eq_false_iff_ne.2 htext
    rw [if_neg htext, if_neg htext]
    dsimp only
    rw [hcurrent, Bool.and_false, if_neg Bool.false_ne_true, run_bind, Memory.run_makeParent]
    cases Path.parent? t.path <;> exact ⟨_, rfl⟩

/-- Saves one after the other, if nothing is denied. -/
theorem run_saveEach (hts : Tasks workDir files ts) (hapart : Apart ts)
    (before : List (String × String)) (calls : List Call) :
    ∃ after calls', (saveEach Memory.access workDir files).run ⟨before, [], [], [], calls⟩ =
      (.ok (ts.map (Task.outcomeFrom before)), ⟨after, [], [], [], calls'⟩) ∧
      (∀ t ∈ ts, text? after t.path = some t.text) ∧
      ∀ path, (∀ t ∈ ts, ¬ Path.same path t.path = true) →
        text? after path = text? before path := by
  induction hts generalizing before calls with
  | nil => exact ⟨before, calls, rfl, by simp, fun _ _ => rfl⟩
  | @cons f t files ts ht _ ih =>
    obtain ⟨path, text⟩ := f
    obtain ⟨hhead, htail⟩ := List.pairwise_cons.1 hapart
    obtain ⟨calls₁, hfirst⟩ := run_save t before calls
    obtain ⟨after, calls', hrest, htexts, hothers⟩ := ih htail (t.saved before) calls₁
    -- the first save changes none of the files of the others
    have houtcomes :
        ts.map (Task.outcomeFrom (t.saved before)) = ts.map (Task.outcomeFrom before) := by
      refine List.map_congr_left fun u hu => ?_
      unfold Task.outcomeFrom
      rw [text?_saved before (by rw [same_comm]; exact hhead u hu)]
    have hsave : save Memory.access workDir path text = t.save Memory.access := by
      unfold save
      rw [ht]
    refine ⟨after, calls', ?_, ?_, fun q hq => ?_⟩
    · unfold saveEach
      rw [run_bind, hsave, hfirst]
      dsimp only
      rw [run_bind, hrest, houtcomes]
      rfl
    · intro u hu
      rcases List.mem_cons.1 hu with rfl | hu
      · exact (hothers u.path hhead).trans (text?_saved_self u before)
      · exact htexts u hu
    · obtain ⟨hself, hq⟩ := List.forall_mem_cons.1 hq
      exact (hothers q hq).trans (text?_saved before hself)

end each

section rounds

structure Memory.Allows (m : Memory) : Prop where
  reads : m.deniedReads = []
  directories : m.deniedDirectories = []
  writes : m.deniedWrites = []

theorem isDenied_of_allows {m : Memory} (h : m.Allows) (s : Saving) : s.isDenied m = false := by
  unfold Saving.isDenied denied
  rw [h.reads, h.directories, h.writes]
  cases s.stage with
  | making => cases Path.parent? s.task.path <;> rfl
  | _ => rfl

theorem denied_self (path : String) (paths : List String) : denied (path :: paths) path = true := by
  simp [denied, same_iff]

/-- Whether a call is denied is all that a turn has to say. -/
theorem isDenied_memory_isDenied (s : Saving) (m : Memory) (files : List (String × String)) :
    s.isDenied (s.task.memory (s.isDenied m) files) = s.isDenied m := by
  cases hdenied : s.isDenied m with
  | false => exact isDenied_memory s files
  | true =>
    obtain ⟨t, stage⟩ := s
    cases stage with
    | reading => exact denied_self _ _
    | making =>
      unfold Saving.isDenied Task.memory at *
      dsimp only at *
      cases hdir : Path.parent? t.path with
      | none => simp [hdir] at hdenied
      | some dir => simp [denied, same_iff]
    | writing => exact denied_self _ _
    | done => cases hdenied
    | failed => cases hdenied

/-- Saves on their way are what turns have made of them. -/
theorem kept_after (p : Progress) (m : Memory) : Kept Memory.access fun saves m' =>
    ∃ turns, p.after turns = ⟨saves, m'.files⟩ ∧
      (m.Allows → m'.Allows ∧ ∀ turn ∈ turns, turn.fails = false) := by
  rintro front s back m₁ ⟨turns, hafter, hallows⟩
  obtain ⟨stage, files', calls, hrun, hstep⟩ := step_run s m₁
  obtain ⟨stage', files'', htake, hstep'⟩ :=
    exists_take front s back m₁.files (s.isDenied m₁)
  -- a turn fails exactly where the memory denies the call, so both take the same step
  rw [isDenied_memory_isDenied] at hstep'
  obtain ⟨rfl, rfl⟩ := hstep.unique hstep'
  rw [hrun]
  refine ⟨turns ++ [⟨front.length, s.isDenied m₁⟩], ?_, fun h => ?_⟩
  · unfold Progress.after at hafter ⊢
    rw [List.foldl_append, hafter]
    exact htake
  · obtain ⟨hm₁, hturns⟩ := hallows h
    refine ⟨⟨hm₁.reads, hm₁.directories, hm₁.writes⟩, List.forall_mem_append.2 ⟨hturns, ?_⟩⟩
    simpa using isDenied_of_allows hm₁ s

end rounds

section interleavings

variable {workDir : String} {files : List (String × String)} {ts : List Task}
variable {before : List (String × String)} {turns : List Turn}

/-- The saves of texts at paths after turns, with the files as they were `before`. -/
def interleaved (workDir : String) (files before : List (String × String)) (turns : List Turn) :
    Progress :=
  (Progress.start workDir files before).after turns

theorem from_interleaved (hts : Tasks workDir files ts) (hapart : Apart ts)
    (before : List (String × String)) (turns : List Turn) :
    (interleaved workDir files before turns).From ts before :=
  (from_start hts before).after hapart turns

theorem Saving.Holds.text? {s : Saving} (h : s.Holds before files) :
    text? files s.task.path = text? before s.task.path ∨
      text? files s.task.path = some s.task.text := by
  obtain ⟨t, stage⟩ := s
  cases stage with
  | done outcome =>
    cases outcome with
    | written => exact .inr h
    | unchanged => exact .inl h.1
  | _ => exact .inl h

theorem text?_interleaved (hts : Tasks workDir files ts) (hapart : Apart ts) {t : Task}
    (ht : t ∈ ts) :
    text? (interleaved workDir files before turns).files t.path = text? before t.path ∨
      text? (interleaved workDir files before turns).files t.path = some t.text := by
  have h := from_interleaved hts hapart before turns
  obtain ⟨s, hs, rfl⟩ := List.mem_map.1 (h.tasks ▸ ht)
  exact (h.holds s hs).text?

theorem needed_interleaved (hts : Tasks workDir files ts) (hapart : Apart ts)
    (before : List (String × String)) (hturns : ∀ turn ∈ turns, turn.fails = false) :
    ∀ s ∈ (interleaved workDir files before turns).saves, s.Needed before := by
  apply needed_after (from_start hts before) hapart _ hturns
  intro s hs
  rw [saves_start hts] at hs
  obtain ⟨t, -, rfl⟩ := List.mem_map.1 hs
  trivial

/-- Saves that are over without failures have ended like the saves one after the other. -/
theorem ends_interleaved (hts : Tasks workDir files ts) (hapart : Apart ts)
    (hturns : ∀ turn ∈ turns, turn.fails = false)
    (hover : ∀ s ∈ (interleaved workDir files before turns).saves, s.isOver) :
    ∃ outcomes m, (saveEach Memory.access workDir files).run ⟨before, [], [], [], []⟩ =
        (.ok outcomes, m) ∧
      concluded (interleaved workDir files before turns).saves = .ok (outcomes.map some) ∧
      ∀ path, text? (interleaved workDir files before turns).files path = text? m.files path := by
  have h := from_interleaved hts hapart before turns
  have hneeded := needed_interleaved hts hapart before hturns
  obtain ⟨after, calls, hrun, htexts, hothers⟩ := run_saveEach hts hapart before []
  refine ⟨_, _, hrun, ?_, fun path => ?_⟩
  · rw [concluded_of_needed h hneeded hover, List.map_map]
    rfl
  · by_cases hpath : ∀ t ∈ ts, ¬ Path.same path t.path = true
    · exact (h.others path hpath).trans (hothers path hpath).symm
    · -- the path is that of a task, whose text is there both times
      obtain ⟨t, ht, hsame⟩ : ∃ t ∈ ts, Path.same path t.path = true := by simpa using hpath
      obtain ⟨s, hs, rfl⟩ := List.mem_map.1 (h.tasks ▸ ht)
      obtain ⟨-, htext⟩ := over_of_needed (h.holds s hs) (hneeded s hs) (hover s hs)
      have hlookup : ∀ fs, text? fs path = text? fs s.task.path := fun fs => by
        unfold Memory.text? Path.same
        rw [same_iff.1 hsame]
      rw [hlookup, hlookup, htext, htexts s.task ht]

/-- Saving all, whatever the schedule is, is one of the ways in which saves take turns. -/
theorem exists_turns_saveAll (schedule : Schedule) (hts : Tasks workDir files ts)
    (hapart : Apart ts) (m : Memory) :
    ∃ turns m', (saveAll Memory.access schedule workDir files).run m =
        (concluded (interleaved workDir files m.files turns).saves, m') ∧
      m'.files = (interleaved workDir files m.files turns).files ∧
      (m.Allows → (∀ turn ∈ turns, turn.fails = false) ∧
        ∀ s ∈ (interleaved workDir files m.files turns).saves, s.isOver) := by
  have hstart : Progress.start workDir files m.files = ⟨ts.map fun t => ⟨t, .reading⟩, m.files⟩ :=
    congrArg (Progress.mk · m.files) (start_eq hts)
  obtain ⟨saves, m', hrun, -, ⟨turns, hafter, hallows⟩, hdone⟩ := exists_run_saveAll schedule
    (kept_after (Progress.start workDir files m.files) m) hts
    ⟨[], hstart, fun h => ⟨h, by simp⟩⟩
  have hinterleaved : interleaved workDir files m.files turns = ⟨saves, m'.files⟩ := hafter
  refine ⟨turns, m', by rw [hrun, hinterleaved], by rw [hinterleaved], fun h => ?_⟩
  obtain ⟨-, hturns⟩ := hallows h
  have hneeded := needed_interleaved hts hapart m.files hturns
  rw [hinterleaved] at hneeded ⊢
  -- without denials no save fails, so the rounds bring all of them to their end
  have hnone : saves.findSome? Saving.failure? = none :=
    List.findSome?_eq_none_iff.2 fun s hs => failure?_of_needed (hneeded s hs)
  refine ⟨hturns, fun s hs => ?_⟩
  obtain ⟨outcome, hstage⟩ := hdone hnone s hs
  rw [Saving.isOver, Saving.outcome?, hstage]
  rfl

/-- Saves for different files do not interfere.  Whatever the order of their steps is, and whichever
of them fail, each file holds what it did before or its text, and no other file changes; without
failures they end like the saves one after the other.  Saving all is one of these orders, whatever
the schedule is. -/
theorem saves_interleaved (hts : Tasks workDir files ts)
    (hapart : ts.Pairwise fun t u => ¬ Path.same t.path u.path)
    (before : List (String × String)) :
    (∀ turns,
      (∀ t ∈ ts, text? (interleaved workDir files before turns).files t.path = text? before t.path ∨
        text? (interleaved workDir files before turns).files t.path = some t.text) ∧
      ∀ path, (∀ t ∈ ts, ¬ Path.same path t.path) →
        text? (interleaved workDir files before turns).files path = text? before path) ∧
    (∀ turns, (∀ turn ∈ turns, turn.fails = false) →
      (∀ s ∈ (interleaved workDir files before turns).saves, s.isOver) →
      ∃ outcomes m, (saveEach Memory.access workDir files).run ⟨before, [], [], [], []⟩ =
          (.ok outcomes, m) ∧
        (concluded (interleaved workDir files before turns).saves).map
            (Output.Report.of (files.map Prod.fst)) =
          .ok (Output.Report.of (files.map Prod.fst) (outcomes.map some)) ∧
        ∀ path, text? (interleaved workDir files before turns).files path = text? m.files path) ∧
    ∀ (schedule : Schedule) (m : Memory), m.files = before → ∃ turns m',
      (saveAll Memory.access schedule workDir files).run m =
        (concluded (interleaved workDir files before turns).saves, m') ∧
      m'.files = (interleaved workDir files before turns).files ∧
      (m.Allows → (∀ turn ∈ turns, turn.fails = false) ∧
        ∀ s ∈ (interleaved workDir files before turns).saves, s.isOver) := by
  refine ⟨fun turns => ⟨fun t ht => text?_interleaved hts hapart ht, ?_⟩, ?_, ?_⟩
  · exact (from_interleaved hts hapart before turns).others
  · intro turns hturns hover
    obtain ⟨outcomes, m, hrun, hconcluded, htexts⟩ := ends_interleaved hts hapart hturns hover
    exact ⟨outcomes, m, hrun, by rw [hconcluded]; rfl, htexts⟩
  · rintro schedule m rfl
    exact exists_turns_saveAll schedule hts hapart m

def twoFiles : List (String × String) := [("client.ts", "a"), ("gen/server.ts", "b")]

def twoTasks : List Task := [⟨"/app/client.ts", "a"⟩, ⟨"/app/gen/server.ts", "b"⟩]

def mixedTurns : List Turn := [⟨1, false⟩, ⟨0, false⟩, ⟨1, false⟩, ⟨0, false⟩, ⟨1, false⟩]

theorem saves_interleaved_mixed : Tasks "/app" twoFiles twoTasks ∧
    ∃ outcomes m, (saveEach Memory.access "/app" twoFiles).run
        ⟨[("/app/client.ts", "a")], [], [], [], []⟩ = (.ok outcomes, m) ∧
      (concluded (interleaved "/app" twoFiles [("/app/client.ts", "a")] mixedTurns).saves).map
          (Output.Report.of (twoFiles.map Prod.fst)) =
        .ok (Output.Report.of (twoFiles.map Prod.fst) (outcomes.map some)) ∧
      ∀ path, text? (interleaved "/app" twoFiles [("/app/client.ts", "a")] mixedTurns).files path =
        text? m.files path := by
  have hts : Tasks "/app" twoFiles twoTasks := .cons rfl (.cons rfl .nil)
  have hapart : twoTasks.Pairwise fun t u => ¬ Path.same t.path u.path := by decide +kernel
  obtain ⟨-, hends, -⟩ := saves_interleaved hts hapart [("/app/client.ts", "a")]
  exact ⟨hts, hends mixedTurns (by decide) (by decide +kernel)⟩

end interleavings

end ApiTypes.Files
