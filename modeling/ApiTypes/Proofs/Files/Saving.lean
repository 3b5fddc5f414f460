import ApiTypes.Proofs.Files.Growth
import ApiTypes.Proofs.Files.Rounds
import ApiTypes.Proofs.Files.View

namespace ApiTypes.Files

open Disk

/-- Whether the file holds the text, as `Task.isCurrent` finds. -/
def Task.current (d : Disk) (t : Task) : Bool :=
  (d.read t.path).toOption == some t.text

theorem Task.current_iff {d : Disk} {t : Task} :
    t.current d = true ↔ d.read t.path = .ok t.text := by
  unfold Task.current
  cases d.read t.path with
  | error e => simp [Except.toOption]
  | ok text => simp [Except.toOption]

/-- What becomes of a disk while texts are saved: files change only where texts are written, and
every text stands in its file in the end if no two of the files are the same. -/
structure Saved (ts : List Task) (s s' : Disk × List Call) : Prop where
  calls : s.2 ⊆ s'.2
  grows : ∃ written, Grows written s.1 s'.1 ∧ ∀ q ∈ written, ∃ t ∈ ts, s'.1.place t.path = .ok q
  read : ts.Pairwise (fun t u => ¬ s'.1.Same t.path u.path) →
    ∀ t ∈ ts, s'.1.read t.path = .ok t.text

section saved

variable {s s' s'' : Disk × List Call} {ts us : List Task}

theorem Saved.of_grows (hg : Grows [] s.1 s'.1) (hcalls : s.2 ⊆ s'.2) : Saved [] s s' where
  calls := hcalls
  grows := ⟨[], hg, by simp⟩
  read := by simp

theorem Saved.of_current (h : ∀ t ∈ ts, t.current s.1 = true) : Saved ts s s where
  calls := fun _ hc => hc
  grows := ⟨[], .refl [] s.1, by simp⟩
  read := fun _ t ht => Task.current_iff.1 (h t ht)

/-- Tasks after tasks. -/
theorem Saved.append (h : Saved ts s s') (h' : Saved us s' s'') : Saved (ts ++ us) s s'' := by
  obtain ⟨written, hg, hplaces⟩ := h.grows
  obtain ⟨written', hg', hplaces'⟩ := h'.grows
  refine { calls := List.Subset.trans h.calls h'.calls, grows := ?_, read := ?_ }
  · refine ⟨written ++ written', (hg.mono (by simp)).trans (hg'.mono (by simp)), ?_⟩
    intro q hq
    rcases List.mem_append.1 hq with hq | hq
    · -- a place stays the place of its path while the disk grows
      obtain ⟨t, ht, hplace⟩ := hplaces q hq
      exact ⟨t, List.mem_append_left us ht, place_of_grows hg' hplace⟩
    · obtain ⟨u, hu, hplace⟩ := hplaces' q hq
      exact ⟨u, List.mem_append_right ts hu, hplace⟩
  · intro hpairwise
    obtain ⟨hts, hus, hboth⟩ := List.pairwise_append.1 hpairwise
    intro t ht
    rcases List.mem_append.1 ht with ht | ht
    · -- the later tasks write elsewhere
      have hts' : ts.Pairwise fun t u => ¬ s'.1.Same t.path u.path :=
        hts.imp fun hne hsame => hne (same_of_grows hg' hsame)
      apply read_ok_of_grows hg' (h.read hts' t ht)
      intro q hq hmem
      obtain ⟨u, hu, hplace⟩ := hplaces' q hmem
      exact hboth t ht u hu ⟨q, hq, hplace⟩
    · exact h'.read hus t ht

theorem Saved.perm (h : Saved ts s s') (hperm : ts.Perm us) : Saved us s s' := by
  obtain ⟨written, hg, hplaces⟩ := h.grows
  refine { calls := h.calls, grows := ⟨written, hg, fun q hq => ?_⟩, read := fun hus t ht => ?_ }
  · obtain ⟨t, ht, hplace⟩ := hplaces q hq
    exact ⟨t, hperm.mem_iff.1 ht, hplace⟩
  · have hts := hus.perm hperm.symm fun hne hsame => hne hsame.symm
    exact h.read hts t (hperm.mem_iff.2 ht)

theorem Saved.current (h : Saved ts s s')
    (hdistinct : ts.Pairwise fun t u => ¬ s'.1.Same t.path u.path) :
    ∀ t ∈ ts, t.current s'.1 = true :=
  fun t ht => Task.current_iff.2 (h.read hdistinct t ht)

/-- What is none of the files of the tasks, and leads where it did, is read as before. -/
theorem Saved.read_eq (h : Saved ts s s') (hs : s.1.WellFormed) {path : String}
    (hsettled : s.1.Settled path) (hapart : ∀ t ∈ ts, ¬ s'.1.Same t.path path) :
    (s'.1.read path).toOption = (s.1.read path).toOption := by
  obtain ⟨written, hg, hplaces⟩ := h.grows
  apply Disk.read_eq_of_grows hs hg hsettled
  intro q hq hmem
  obtain ⟨t, ht, hplace⟩ := hplaces q hmem
  exact hapart t ht ⟨q, hplace, hq⟩

theorem Saved.same (h : Saved ts s s') {path other : String} (hsame : s.1.Same path other) :
    s'.1.Same path other := by
  obtain ⟨written, hg, -⟩ := h.grows
  exact same_of_grows hg hsame

theorem saved_of_write {t : Task} {d' : Disk} (h : s.1.write t.path t.text = .ok d') :
    Saved [t] s (d', s.2 ++ [.write t.path]) := by
  obtain ⟨hread, q, hq, hg⟩ := read_of_write h
  refine { calls := List.subset_append_left _ _, grows := ⟨[q], hg, ?_⟩, read := ?_ }
  · intro p hp
    obtain rfl := List.mem_singleton.1 hp
    exact ⟨t, List.mem_singleton_self t, hq⟩
  · intro _ u hu
    obtain rfl := List.mem_singleton.1 hu
    exact hread

end saved

section runs

variable {d d' : Disk} {calls calls' : List Call} {t : Task}

theorem run_isCurrent (t : Task) (d : Disk) (calls : List Call) :
    (t.isCurrent access.noting).run (d, calls) = (t.current d, (d, calls)) := by
  show ((((d.read t.path).mapError Fault.reason).toOption == some t.text), (d, calls)) = _
  unfold Task.current
  cases d.read t.path <;> rfl

/-- Making the directory of a file changes no file. -/
theorem saved_makeParent (t : Task) (σ : Disk × List Call) :
    Saved [] σ ((t.makeParent access.noting).run σ).2 := by
  unfold Task.makeParent
  cases Path.parent? t.path with
  | none => exact .of_grows (.refl [] σ.1) fun _ h => h
  | some dir => exact .of_grows (grows_makeFrom σ.1 _) fun _ h => List.mem_append_left _ h

theorem run_put (t : Task) (σ : Disk × List Call) :
    (t.put access.noting).run σ = match σ.1.write t.path t.text with
      | .ok d' => (.ok (), (d', σ.2 ++ [.write t.path]))
      | .error e => (.error (.access t.path e.reason), (σ.1, σ.2 ++ [.write t.path])) := by
  have hrun : (access.write t.path t.text).run σ.1 = match σ.1.write t.path t.text with
      | .ok d' => (.ok (), d')
      | .error e => (.error e.reason, σ.1) := rfl
  show (((access.write t.path t.text).run σ.1).1.mapError (Error.access t.path),
    ((access.write t.path t.text).run σ.1).2, σ.2 ++ [Call.write t.path]) = _
  rw [hrun]
  cases σ.1.write t.path t.text <;> rfl

end runs

section steps

variable {t : Task} {s s' : Disk × List Call} {stage stage' : Stage}

inductive Moves (t : Task) (s : Disk × List Call) : Stage → Stage → Disk × List Call → Prop
  | current (h : t.current s.1 = true) : Moves t s .reading (.done .unchanged) s
  | different (h : ¬ t.current s.1 = true) : Moves t s .reading .making s
  | made {s' : Disk × List Call} (h : Saved [] s s') : Moves t s .making .writing s'
  | unmade {s' : Disk × List Call} (h : Saved [] s s') (e : Error) :
      Moves t s .making (.failed e) s'
  | written {s' : Disk × List Call} (h : Saved [t] s s') (hcall : .write t.path ∈ s'.2) :
      Moves t s .writing (.done .written) s'
  | unwritten {s' : Disk × List Call} (h : Saved [] s s') (e : Error) :
      Moves t s .writing (.failed e) s'
  | done (outcome : Outcome) : Moves t s (.done outcome) (.done outcome) s
  | failed (e : Error) : Moves t s (.failed e) (.failed e) s

theorem moves_of_step (x : Saving) (s : Disk × List Call) :
    Moves x.task s x.stage ((x.step access.noting).run s).1.stage
      ((x.step access.noting).run s).2 := by
  obtain ⟨t, stage⟩ := x
  cases stage with
  | reading =>
    rw [run_step_reading, run_isCurrent]
    dsimp only
    split
    · next h => exact .current h
    · next h => exact .different h
  | making =>
    rw [run_step_making]
    have hmaking := saved_makeParent t s
    -- directories may have been made even where the last one cannot be
    cases ((t.makeParent access.noting).run s).1 with
    | ok _ => exact .made hmaking
    | error e => exact .unmade hmaking e
  | writing =>
    rw [run_step_writing, run_put]
    cases hwrite : s.1.write t.path t.text with
    | ok d' => exact .written (saved_of_write hwrite) (by simp)
    | error e =>
      have hsaved : Saved [] s (s.1, s.2 ++ [.write t.path]) :=
        .of_grows (.refl [] s.1) (List.subset_append_left _ _)
      exact .unwritten hsaved _
  | done outcome => exact .done outcome
  | failed e => exact .failed e

def finished (saves : List Saving) : List Task :=
  saves.filterMap fun x => x.outcome?.map fun _ => x.task

theorem finished_append (front back : List Saving) :
    finished (front ++ back) = finished front ++ finished back :=
  List.filterMap_append

/-- A save that takes a step may be done then, and its text is saved. -/
theorem Moves.saved (h : Moves t s stage stage' s') :
    ∃ ts, Saved ts s s' ∧ finished [⟨t, stage'⟩] = finished [⟨t, stage⟩] ++ ts := by
  have hstill : Saved [] s s := .of_current (by simp)
  cases h with
  | current h => exact ⟨[t], .of_current (by simpa using h), rfl⟩
  | different => exact ⟨[], hstill, rfl⟩
  | made h => exact ⟨[], h, rfl⟩
  | unmade h => exact ⟨[], h, rfl⟩
  | written h => exact ⟨[t], h, rfl⟩
  | unwritten h => exact ⟨[], h, rfl⟩
  | done => exact ⟨[], hstill, rfl⟩
  | failed => exact ⟨[], hstill, rfl⟩

/-- Whether a save has gone on as the file on a disk says. -/
def Saving.Told (d : Disk) (x : Saving) : Prop :=
  match x.stage with
  | .done .unchanged => x.task.current d = true
  | .making | .writing | .done .written => ¬ x.task.current d = true
  | .reading | .failed _ => True

theorem Moves.told (h : Moves t s stage stage' s') {d : Disk}
    (hcurrent : stage = .reading → t.current s.1 = t.current d)
    (htold : Saving.Told d ⟨t, stage⟩) : Saving.Told d ⟨t, stage'⟩ := by
  cases h with
  | current h => exact (hcurrent rfl).symm.trans h
  | different h => exact fun hd => h ((hcurrent rfl).trans hd)
  | unmade => trivial
  | unwritten => trivial
  | _ => exact htold

def Saving.isIdle (x : Saving) : Bool :=
  match x.stage with
  | .reading | .done .unchanged => true
  | _ => false

/-- A save that is idle after a step has at most found its text. -/
theorem Moves.idle (h : Moves t s stage stage' s') (hidle : (⟨t, stage'⟩ : Saving).isIdle = true) :
    (⟨t, stage⟩ : Saving).isIdle = true ∧ s' = s ∧
      (stage' = .done .unchanged → stage = .done .unchanged ∨ t.current s.1 = true) := by
  cases h with
  | current h => exact ⟨rfl, rfl, fun _ => .inr h⟩
  | done outcome => exact ⟨hidle, rfl, fun h => .inl h⟩
  | _ => cases hidle

end steps

section came

variable {s₀ s : Disk × List Call} {front back saves : List Saving} {x : Saving}

/-- Saves on their way, whatever steps they have taken in whatever order. -/
structure Came (s₀ : Disk × List Call) (saves : List Saving) (s : Disk × List Call) : Prop where
  saved : Saved (finished saves) s₀ s
  logged : ∀ x ∈ saves, x.stage = .done .written → .write x.task.path ∈ s.2
  still : (∀ x ∈ saves, x.isIdle = true) →
    s = s₀ ∧ ∀ x ∈ saves, x.stage = .done .unchanged → x.task.current s₀.1 = true
  told : s₀.1.WellFormed →
    ((saves.map Saving.task).Pairwise fun t u => ¬ s.1.Same t.path u.path) →
    ∀ x ∈ saves, s₀.1.Settled x.task.path → x.Told s₀.1

theorem came_start (s₀ : Disk × List Call) (ts : List Task) :
    Came s₀ (ts.map fun t => ⟨t, .reading⟩) s₀ where
  saved := by
    have hnone : finished (ts.map fun t => ⟨t, .reading⟩) = [] := by
      rw [finished, List.filterMap_map, List.filterMap_eq_nil_iff]
      exact fun t _ => rfl
    rw [hnone]
    exact .of_current (by simp)
  logged x hx hstage := by
    obtain ⟨t, -, rfl⟩ := List.mem_map.1 hx
    cases hstage
  still _ := by
    refine ⟨rfl, fun x hx hstage => ?_⟩
    obtain ⟨t, -, rfl⟩ := List.mem_map.1 hx
    cases hstage
  told _ _ x hx _ := by
    obtain ⟨t, -, rfl⟩ := List.mem_map.1 hx
    trivial

/-- A file that no other save has written holds its text when it is read exactly if it did before
all of them. -/
theorem Came.current_eq (h : Came s₀ (front ++ x :: back) s) (hs : s₀.1.WellFormed)
    (hdistinct : ((front ++ x :: back).map Saving.task).Pairwise
      fun t u => ¬ s.1.Same t.path u.path)
    (hsettled : s₀.1.Settled x.task.path) (hx : x.stage = .reading) :
    x.task.current s.1 = x.task.current s₀.1 := by
  have hapart : ∀ t ∈ finished (front ++ x :: back), ¬ s.1.Same t.path x.task.path := by
    intro t ht
    obtain ⟨u, hu, hdone⟩ := List.mem_filterMap.1 ht
    obtain ⟨outcome, houtcome, rfl⟩ := Option.map_eq_some_iff.1 hdone
    have hother : u ∈ front ++ back := by
      rcases List.mem_append.1 hu with hu | hu
      · exact List.mem_append_left back hu
      · rcases List.mem_cons.1 hu with rfl | hu
        · simp [Saving.outcome?, hx] at houtcome
        · exact List.mem_append_right front hu
    exact rel_of_pairwise_append (fun _ _ hne hsame => hne hsame.symm) hdistinct hother
  unfold Task.current
  rw [h.saved.read_eq hs hsettled hapart]

theorem finished_middle (front : List Saving) (x : Saving) (back : List Saving) :
    (finished (front ++ x :: back)).Perm (finished [x] ++ finished (front ++ back)) := by
  rw [← finished_append, List.singleton_append]
  exact List.perm_middle.filterMap _

variable {t : Task} {stage stage' : Stage} {s' : Disk × List Call}

/-- Any save may take the next step. -/
theorem Came.step (h : Came s₀ (front ++ ⟨t, stage⟩ :: back) s) (hm : Moves t s stage stage' s') :
    Came s₀ (front ++ ⟨t, stage'⟩ :: back) s' where
  saved := by
    obtain ⟨ts, hsaved, hfinished⟩ := hm.saved
    refine (h.saved.append hsaved).perm ?_
    -- what this step finishes comes behind what was finished, in whatever order
    calc finished (front ++ ⟨t, stage⟩ :: back) ++ ts
        |>.Perm ((finished [⟨t, stage⟩] ++ finished (front ++ back)) ++ ts) :=
          (finished_middle _ _ _).append_right ts
      _ |>.Perm ((finished [⟨t, stage⟩] ++ ts) ++ finished (front ++ back)) := by
          rw [List.append_assoc, List.append_assoc]
          exact List.perm_append_comm.append_left _
      _ |>.Perm (finished (front ++ ⟨t, stage'⟩ :: back)) := by
          rw [← hfinished]
          exact (finished_middle _ _ _).symm
  logged y hy hstage := by
    obtain ⟨ts, hsaved, -⟩ := hm.saved
    rcases mem_middle.1 hy with rfl | hy
    · cases hm with
      | written _ hcall => exact hcall
      | done => exact h.logged _ hy hstage
      | _ => cases hstage
    · exact hsaved.calls (h.logged y (mem_middle.2 (.inr hy)) hstage)
  still hidle := by
    obtain ⟨hbefore, rfl, hself⟩ := hm.idle (hidle ⟨t, stage'⟩ (by simp))
    have hothers : ∀ y ∈ front ++ back, y.isIdle = true := fun y hy =>
      hidle y (mem_middle.2 (.inr hy))
    obtain ⟨hs, hcurrent⟩ := h.still fun y hy => by
      rcases mem_middle.1 hy with rfl | hy
      · exact hbefore
      · exact hothers y hy
    refine ⟨hs, fun y hy hstage => ?_⟩
    rcases mem_middle.1 hy with rfl | hy
    · rcases hself hstage with hstage | hcur
      · exact hcurrent ⟨t, stage⟩ (by simp) hstage
      · exact hs ▸ hcur
    · exact hcurrent y (mem_middle.2 (.inr hy)) hstage
  told hd hdistinct y hy hsettled := by
    obtain ⟨ts, hsaved, -⟩ := hm.saved
    have htasks : (front ++ (⟨t, stage'⟩ : Saving) :: back).map Saving.task =
        (front ++ ⟨t, stage⟩ :: back).map Saving.task := by
      simp
    rw [htasks] at hdistinct
    have hdistinct : ((front ++ ⟨t, stage⟩ :: back).map Saving.task).Pairwise
        fun t u => ¬ s.1.Same t.path u.path :=
      hdistinct.imp fun hne hsame => hne (hsaved.same hsame)
    rcases mem_middle.1 hy with rfl | hy
    · refine hm.told (fun hreading => ?_) (h.told hd hdistinct ⟨t, stage⟩ (by simp) hsettled)
      exact h.current_eq hd hdistinct hsettled hreading
    · exact h.told hd hdistinct y (mem_middle.2 (.inr hy)) hsettled

theorem kept_came (s₀ : Disk × List Call) : Kept access.noting (Came s₀) :=
  fun _ x _ s h => h.step (moves_of_step x s)

end came
section saveAll

variable {schedule : Schedule} {workDir : String} {files : List (String × String)}
variable {ts : List Task} {s s' : Disk × List Call}

/-- What saves have done that did not fail, and what they tell of it. -/
structure AllSaved (ts : List Task) (outcomes : List Outcome) (s s' : Disk × List Call) :
    Prop where
  length : outcomes.length = ts.length
  saved : Saved ts s s'
  still : (∀ t ∈ ts, .write t.path ∉ s'.2) → s' = s ∧ ∀ t ∈ ts, t.current s.1 = true
  told : s.1.WellFormed → (ts.Pairwise fun t u => ¬ s'.1.Same t.path u.path) →
    List.Forall₂ (fun t o => s.1.Settled t.path → (o = .unchanged ↔ t.current s.1 = true))
      ts outcomes

theorem exists_outcomes_of_done {saves : List Saving}
    (h : ∀ x ∈ saves, ∃ outcome, x.stage = .done outcome) :
    ∃ outcomes, List.Forall₂ (fun x o => x.stage = .done o) saves outcomes := by
  induction saves with
  | nil => exact ⟨[], .nil⟩
  | cons x saves ih =>
    obtain ⟨o, hx⟩ := h x List.mem_cons_self
    obtain ⟨outcomes, hsaves⟩ := ih fun y hy => h y (List.mem_cons_of_mem x hy)
    exact ⟨o :: outcomes, .cons hx hsaves⟩

theorem outcome?_of_done {saves : List Saving} {outcomes : List Outcome}
    (h : List.Forall₂ (fun x o => x.stage = .done o) saves outcomes) :
    saves.map Saving.outcome? = outcomes.map some ∧ finished saves = saves.map Saving.task := by
  induction h with
  | nil => exact ⟨rfl, rfl⟩
  | @cons x o saves outcomes hx _ ih =>
    have houtcome : x.outcome? = some o := by rw [Saving.outcome?, hx]
    unfold finished at ih ⊢
    rw [List.map_cons, List.map_cons, List.map_cons, List.filterMap_cons, houtcome, ih.1, ih.2]
    exact ⟨rfl, rfl⟩

/-- Saves that are done have saved their texts. -/
theorem Came.allSaved {saves : List Saving} {outcomes : List Outcome} (h : Came s saves s')
    (hdone : List.Forall₂ (fun x o => x.stage = .done o) saves outcomes) :
    AllSaved (saves.map Saving.task) outcomes s s' where
  length := by rw [List.length_map, hdone.length_eq]
  saved := (outcome?_of_done hdone).2 ▸ h.saved
  still hno := by
    -- a save that is done and has written nothing found its text
    have hunchanged : ∀ x ∈ saves, x.stage = .done .unchanged := fun x hx => by
      obtain ⟨o, -, hstage⟩ := hdone.exists_right hx
      cases o with
      | unchanged => exact hstage
      | written => exact absurd (h.logged x hx hstage) (hno x.task (List.mem_map_of_mem hx))
    have hidle : ∀ x ∈ saves, x.isIdle = true := fun x hx => by
      rw [Saving.isIdle, hunchanged x hx]
    obtain ⟨hs, hcurrent⟩ := h.still hidle
    refine ⟨hs, fun t ht => ?_⟩
    obtain ⟨x, hx, rfl⟩ := List.mem_map.1 ht
    exact hcurrent x hx (hunchanged x hx)
  told hd hdistinct := by
    rw [List.forall₂_map_left_iff]
    refine (List.forall₂_and_left _ _).2 ⟨h.told hd hdistinct, hdone⟩ |>.imp ?_
    rintro x o ⟨htold, hstage⟩ hsettled
    have hx := htold hsettled
    rw [Saving.Told, hstage] at hx
    cases o with
    | unchanged => exact iff_of_true rfl hx
    | written => exact iff_of_false nofun hx

/-- Saves that do not fail, whatever order they take their steps in. -/
theorem allSaved_of_saveAll {told : List (Option Outcome)}
    (h : (saveAll access.noting schedule workDir files).run s = (.ok told, s')) :
    ∃ ts outcomes, Tasks workDir files ts ∧ told = outcomes.map some ∧
      AllSaved ts outcomes s s' := by
  obtain ⟨ts, hts⟩ := exists_tasks_of_saveAll h
  obtain ⟨saves, s'', hrun, rfl, hcame, hdone⟩ :=
    exists_run_saveAll schedule (kept_came s) hts (came_start s ts)
  obtain ⟨hconcluded, rfl⟩ := Prod.mk.inj (hrun.symm.trans h)
  obtain ⟨hnone, rfl⟩ := concluded_eq_ok_iff.1 hconcluded
  obtain ⟨outcomes, houtcomes⟩ := exists_outcomes_of_done (hdone hnone)
  exact ⟨_, outcomes, hts, (outcome?_of_done houtcomes).1, hcame.allSaved houtcomes⟩

/-- Where all files hold their texts no save goes on from reading. -/
theorem kept_idle (s : Disk × List Call) : Kept access.noting fun saves s' =>
    s' = s ∧ ∀ x ∈ saves, x.task.current s.1 = true ∧ x.isIdle = true := by
  rintro front ⟨t, stage⟩ back s' ⟨rfl, hidle⟩
  have hx := hidle ⟨t, stage⟩ (by simp)
  have hstep : ((⟨t, stage⟩ : Saving).step access.noting).run s' =
      (⟨t, .done .unchanged⟩, s') := by
    -- a save that is not done is still reading, and finds its text
    cases stage with
    | reading => rw [run_step_reading, run_isCurrent, if_pos hx.1]
    | done outcome =>
      cases outcome with
      | unchanged => rfl
      | written => cases hx.2
    | _ => cases hx.2
  rw [hstep]
  refine ⟨rfl, fun y hy => ?_⟩
  rcases mem_middle.1 hy with rfl | hy
  · exact ⟨hx.1, rfl⟩
  · exact hidle y (mem_middle.2 (.inr hy))

/-- Texts that all files hold already are left alone. -/
theorem run_saveAll_current (schedule : Schedule) (hts : Tasks workDir files ts)
    (h : ∀ t ∈ ts, t.current s.1 = true) :
    (saveAll access.noting schedule workDir files).run s =
      (.ok (ts.map fun _ => some .unchanged), s) := by
  obtain ⟨saves, s', hrun, rfl, ⟨rfl, hidle⟩, hdone⟩ :=
    exists_run_saveAll schedule (kept_idle s) hts ⟨rfl, by simpa [Saving.isIdle] using h⟩
  have hnone : saves.findSome? Saving.failure? = none := by
    rw [List.findSome?_eq_none_iff]
    intro x hx
    have hx := (hidle x hx).2
    obtain ⟨t, stage⟩ := x
    cases stage with
    | failed e => cases hx
    | _ => rfl
  -- a save that is over and has done nothing tells that nothing has changed
  have hunchanged : ∀ x ∈ saves, x.outcome? = some .unchanged := by
    intro x hx
    obtain ⟨outcome, hstage⟩ := hdone hnone x hx
    have hx := (hidle x hx).2
    rw [Saving.isIdle, hstage] at hx
    cases outcome with
    | unchanged => rw [Saving.outcome?, hstage]
    | written => cases hx
  rw [hrun, concluded_eq_ok_iff.2 ⟨hnone, rfl⟩, List.map_map]
  exact congrArg (fun told => (Except.ok told, s')) (List.map_congr_left hunchanged)

end saveAll

section save

variable {workDir : String} {d : Disk} {calls : List Call}

/-- A text that is not there yet is written below its directory. -/
theorem run_makeParent_put (t : Task) (σ : Disk × List Call) :
    (do
      match ← t.makeParent access.noting with
      | .error e => return .error e
      | .ok _ => return (← t.put access.noting).map fun _ => Outcome.written :
      StateM (Disk × List Call) (Except Error Outcome)).run σ =
    (match ((t.makeParent access.noting).run σ).1 with
      | .error e => return .error e
      | .ok _ => do return (← t.put access.noting).map fun _ => Outcome.written :
      StateM (Disk × List Call) (Except Error Outcome)).run
      ((t.makeParent access.noting).run σ).2 := rfl

theorem run_task_save (t : Task) (d : Disk) (calls : List Call) :
    (t.save access.noting).run (d, calls) =
      if t.current d then (.ok .unchanged, d, calls)
      else
        match (t.makeParent access.noting).run (d, calls) with
        | (.error e, σ) => (.error e, σ)
        | (.ok _, σ) => (((t.put access.noting).run σ).1.map fun _ => .written,
            ((t.put access.noting).run σ).2) := by
  have hrun : (t.save access.noting).run (d, calls) =
      (if ((t.isCurrent access.noting).run (d, calls)).1 then return .ok .unchanged
        else do
          match ← t.makeParent access.noting with
          | .error e => return .error e
          | .ok _ => return (← t.put access.noting).map fun _ => .written :
        StateM (Disk × List Call) (Except Error Outcome)).run
        ((t.isCurrent access.noting).run (d, calls)).2 := rfl
  rw [hrun, run_isCurrent]
  dsimp only
  split
  · rfl
  · rw [run_makeParent_put]
    obtain ⟨r, σ⟩ := (t.makeParent access.noting).run (d, calls)
    cases r <;> rfl

theorem run_save_current {path text : String} {t : Task} (ht : Task.of workDir path text = .ok t)
    (h : t.current d = true) :
    (save access.noting workDir path text).run (d, calls) = (.ok .unchanged, d, calls) := by
  unfold save
  rw [ht]
  dsimp only
  rw [run_task_save, if_pos h]

/-- A text that is saved at a path was there, or it was written. -/
theorem saved_of_save {path text : String} {outcome : Outcome} {σ : Disk × List Call}
    (h : (save access.noting workDir path text).run (d, calls) = (.ok outcome, σ)) :
    ∃ t, Task.of workDir path text = .ok t ∧ Saved [t] (d, calls) σ ∧
      (t.current d = true ∨ Call.write t.path ∈ σ.2) := by
  unfold save at h
  cases ht : Task.of workDir path text with
  | error e =>
    rw [ht] at h
    cases h
  | ok t =>
    rw [ht] at h
    dsimp only at h
    rw [run_task_save] at h
    by_cases hcurrent : t.current d = true
    · rw [if_pos hcurrent] at h
      obtain ⟨-, rfl⟩ := Prod.mk.inj h
      exact ⟨t, rfl, .of_current (by simpa using hcurrent), .inl hcurrent⟩
    · -- the text is written to the disk as it is once the directory was made
      rw [if_neg hcurrent] at h
      have hmaking := saved_makeParent t (d, calls)
      revert h hmaking
      generalize (t.makeParent access.noting).run (d, calls) = r
      intro h hmaking
      obtain ⟨made, σ₁⟩ := r
      cases made with
      | error e => cases h
      | ok _ =>
        dsimp only at h
        rw [run_put] at h
        cases hwrite : σ₁.1.write t.path t.text with
        | error e =>
          rw [hwrite] at h
          cases h
        | ok d₂ =>
          rw [hwrite] at h
          obtain ⟨-, rfl⟩ := Prod.mk.inj h
          exact ⟨t, rfl, hmaking.append (saved_of_write hwrite), .inr (by simp)⟩

end save

end ApiTypes.Files
