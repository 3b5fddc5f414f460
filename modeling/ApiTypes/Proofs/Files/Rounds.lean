import ApiTypes.Files.Access
import ApiTypes.Proofs.Lists

namespace ApiTypes.Files

section steps

variable {α : Type} (A : Access (StateM α)) (t : Task) (σ : α)

theorem run_step_reading :
    ((⟨t, .reading⟩ : Saving).step A).run σ =
      (⟨t, if ((t.isCurrent A).run σ).1 then .done .unchanged else .making⟩,
        ((t.isCurrent A).run σ).2) := rfl

theorem run_step_making :
    ((⟨t, .making⟩ : Saving).step A).run σ =
      (⟨t, match ((t.makeParent A).run σ).1 with
        | .ok _ => .writing
        | .error e => .failed e⟩, ((t.makeParent A).run σ).2) := rfl

theorem run_step_writing :
    ((⟨t, .writing⟩ : Saving).step A).run σ =
      (⟨t, match ((t.put A).run σ).1 with
        | .ok _ => .done .written
        | .error e => .failed e⟩, ((t.put A).run σ).2) := rfl

def Stage.left : Stage → Nat
  | .reading => 3
  | .making => 2
  | .writing => 1
  | .done _ | .failed _ => 0

theorem Stage.left_le (stage : Stage) : stage.left ≤ 3 := by
  cases stage <;> simp [Stage.left]

theorem left_of_step (s : Saving) : ((s.step A).run σ).1.stage.left ≤ s.stage.left - 1 := by
  obtain ⟨t, stage⟩ := s
  cases stage with
  | reading =>
    rw [run_step_reading]
    dsimp only
    split <;> simp [Stage.left]
  | making =>
    rw [run_step_making]
    dsimp only
    split <;> simp [Stage.left]
  | writing =>
    rw [run_step_writing]
    dsimp only
    split <;> simp [Stage.left]
  | done outcome => exact Nat.le_refl 0
  | failed e => exact Nat.le_refl 0

end steps

section rounds

variable {α : Type} (A : Access (StateM α))

theorem exists_append_cons {saves : List Saving} {place : Nat} (h : place < saves.length) :
    ∃ front s back, saves = front ++ s :: back ∧ front.length = place := by
  obtain ⟨front, back, hsaves, hlength, -⟩ := @List.exists_of_set Saving place saves[place] saves h
  exact ⟨front, _, back, hsaves, hlength⟩

theorem mem_middle {front back : List Saving} {s u : Saving} :
    u ∈ front ++ s :: back ↔ u = s ∨ u ∈ front ++ back :=
  List.perm_middle.mem_iff.trans List.mem_cons

/-- The save at a place takes a step, and the others stay as they are. -/
theorem run_stepAt (front : List Saving) (s : Saving) (back : List Saving) (σ : α) :
    (stepAt A (front ++ s :: back) front.length).run σ =
      (front ++ ((s.step A).run σ).1 :: back, ((s.step A).run σ).2) := by
  have hset : ∀ s', (front ++ s :: back).set front.length s' = front ++ s' :: back := by simp
  have hget : (front ++ s :: back)[front.length]? = some s := by simp
  unfold stepAt
  rw [hget]
  show ((front ++ s :: back).set front.length ((s.step A).run σ).1, ((s.step A).run σ).2) = _
  rw [hset]

theorem run_stepAt_of_le {saves : List Saving} {place : Nat} (h : saves.length ≤ place) (σ : α) :
    (stepAt A saves place).run σ = (saves, σ) := by
  unfold stepAt
  rw [List.getElem?_eq_none h]
  rfl

theorem run_foldlM_stepAt_cons (place : Nat) (places : List Nat) (saves : List Saving) (σ : α) :
    ((place :: places).foldlM (stepAt A) saves).run σ =
      (places.foldlM (stepAt A) ((stepAt A saves place).run σ).1).run
        ((stepAt A saves place).run σ).2 := rfl

theorem any_failure? (saves : List Saving) :
    saves.any (·.failure?.isSome) = true ↔ saves.findSome? Saving.failure? ≠ none := by
  rw [List.any_eq_true, ne_eq, List.findSome?_eq_none_iff]
  simp [Option.isSome_iff_ne_none]

theorem run_rounds_of_failed {saves : List Saving} (h : saves.findSome? Saving.failure? ≠ none)
    (rs : List (List Nat)) (σ : α) : (rounds A rs saves).run σ = (saves, σ) := by
  cases rs with
  | nil => rfl
  | cons places rs =>
    unfold rounds
    rw [if_pos ((any_failure? saves).2 h)]
    rfl

theorem run_rounds_cons {saves : List Saving} (h : saves.findSome? Saving.failure? = none)
    (places : List Nat) (rs : List (List Nat)) (σ : α) :
    (rounds A (places :: rs) saves).run σ =
      (rounds A rs ((places.foldlM (stepAt A) saves).run σ).1).run
        ((places.foldlM (stepAt A) saves).run σ).2 := by
  rw [rounds, if_neg fun hany => (any_failure? saves).1 hany h]
  rfl

/-- Whatever save takes a step, it keeps what holds of all saves and the files. -/
def Kept (I : List Saving → α → Prop) : Prop :=
  ∀ front s back σ, I (front ++ s :: back) σ →
    I (front ++ ((s.step A).run σ).1 :: back) ((s.step A).run σ).2

variable {A}

namespace Kept

variable {I : List Saving → α → Prop} {saves : List Saving} {σ : α}

theorem stepAt (hI : Kept A I) (h : I saves σ) (place : Nat) :
    I ((Files.stepAt A saves place).run σ).1 ((Files.stepAt A saves place).run σ).2 := by
  rcases Nat.lt_or_ge place saves.length with hlt | hle
  · obtain ⟨front, s, back, rfl, rfl⟩ := exists_append_cons hlt
    rw [run_stepAt]
    exact hI _ _ _ _ h
  · rwa [run_stepAt_of_le A hle]

theorem foldlM (hI : Kept A I) (h : I saves σ) (places : List Nat) :
    I ((places.foldlM (Files.stepAt A) saves).run σ).1
      ((places.foldlM (Files.stepAt A) saves).run σ).2 := by
  induction places generalizing saves σ with
  | nil => exact h
  | cons place places ih =>
    rw [run_foldlM_stepAt_cons]
    exact ih (hI.stepAt h place)

/-- What every step keeps is kept to the end. -/
theorem rounds (hI : Kept A I) (h : I saves σ) (rs : List (List Nat)) :
    I ((Files.rounds A rs saves).run σ).1 ((Files.rounds A rs saves).run σ).2 := by
  induction rs generalizing saves σ with
  | nil => exact h
  | cons places rs ih =>
    by_cases hnone : saves.findSome? Saving.failure? = none
    · rw [run_rounds_cons A hnone]
      exact ih (hI.foldlM h places)
    · rwa [run_rounds_of_failed A hnone]

end Kept

theorem map_task_rounds (rs : List (List Nat)) (saves : List Saving) (σ : α) :
    ((rounds A rs saves).run σ).1.map Saving.task = saves.map Saving.task := by
  have hkept : Kept A fun saves' _ => saves'.map Saving.task = saves.map Saving.task := by
    intro front s back σ h
    rw [← h, List.map_append, List.map_append]
    rfl
  exact hkept.rounds rfl rs

def leftAt (saves : List Saving) (place : Nat) : Nat :=
  saves[place]?.elim 0 (·.stage.left)

theorem leftAt_le (saves : List Saving) (place : Nat) : leftAt saves place ≤ 3 := by
  unfold leftAt
  cases saves[place]? with
  | none => exact Nat.zero_le 3
  | some s => exact s.stage.left_le

theorem leftAt_stepAt (saves : List Saving) (place i : Nat) (σ : α) :
    leftAt ((stepAt A saves place).run σ).1 i ≤
      leftAt saves i - if place == i then 1 else 0 := by
  rcases Nat.lt_or_ge place saves.length with hlt | hle
  · obtain ⟨front, s, back, rfl, rfl⟩ := exists_append_cons hlt
    rw [run_stepAt]
    unfold leftAt
    -- only the save that takes the step has fewer steps left
    by_cases hi : i = front.length
    · subst hi
      simpa using left_of_step A σ _
    · have hne : (front.length == i) = false := by simpa using Ne.symm hi
      rw [hne]
      rcases Nat.lt_or_gt_of_ne hi with hlt | hgt
      · rw [List.getElem?_append_left hlt, List.getElem?_append_left hlt]
        exact Nat.le_refl _
      · obtain ⟨k, rfl⟩ := Nat.exists_eq_add_of_lt hgt
        rw [List.getElem?_append_right (by omega), List.getElem?_append_right (by omega)]
        simp [show front.length + k + 1 - front.length = k + 1 by omega]
  · rw [run_stepAt_of_le A hle]
    unfold leftAt
    split
    · next hi =>
      rw [← beq_iff_eq.1 hi, List.getElem?_eq_none hle]
      exact Nat.zero_le _
    · exact Nat.le_refl _

theorem leftAt_foldlM (places : List Nat) (saves : List Saving) (i : Nat) (σ : α) :
    leftAt ((places.foldlM (stepAt A) saves).run σ).1 i ≤ leftAt saves i - places.count i := by
  induction places generalizing saves σ with
  | nil => exact Nat.le_refl _
  | cons place places ih =>
    have hrest := ih ((stepAt A saves place).run σ).1 ((stepAt A saves place).run σ).2
    have hfirst := leftAt_stepAt (A := A) saves place i σ
    rw [run_foldlM_stepAt_cons, List.count_cons]
    omega

theorem leftAt_rounds (rs : List (List Nat)) {saves : List Saving} {σ : α}
    (h : ((rounds A rs saves).run σ).1.findSome? Saving.failure? = none) (i : Nat) :
    leftAt ((rounds A rs saves).run σ).1 i ≤ leftAt saves i - rs.flatten.count i := by
  induction rs generalizing saves σ with
  | nil => exact Nat.le_refl _
  | cons places rs ih =>
    -- a failure stays, so there is none from the start
    have hnone : saves.findSome? Saving.failure? = none := by
      by_contra hfailed
      rw [run_rounds_of_failed A hfailed] at h
      exact hfailed h
    rw [run_rounds_cons A hnone] at h ⊢
    have hround := leftAt_foldlM (A := A) places saves i σ
    have hrest := ih h
    rw [List.flatten_cons, List.count_append]
    omega

/-- Where nothing has failed every save is done. -/
theorem done_of_rounds (schedule : Schedule) {saves : List Saving} {σ : α}
    (h : ((rounds A (schedule.rounds saves.length) saves).run σ).1.findSome? Saving.failure? =
      none) :
    ∀ s ∈ ((rounds A (schedule.rounds saves.length) saves).run σ).1,
      ∃ outcome, s.stage = .done outcome := by
  intro s hs
  obtain ⟨i, hi⟩ := List.mem_iff_getElem?.1 hs
  obtain ⟨hlt, -⟩ := List.getElem?_eq_some_iff.1 hi
  have hlength := congrArg List.length (map_task_rounds (A := A)
    (schedule.rounds saves.length) saves σ)
  rw [List.length_map, List.length_map] at hlength
  have hleft := leftAt_rounds _ h i
  -- the schedule has three steps for every save, which is as many as one takes at most
  have hcount := schedule.complete saves.length i (hlength ▸ hlt)
  have hbound := leftAt_le saves i
  have hzero : leftAt ((rounds A (schedule.rounds saves.length) saves).run σ).1 i = 0 := by omega
  unfold leftAt at hzero
  rw [hi] at hzero
  have hnone := List.findSome?_eq_none_iff.1 h s hs
  obtain ⟨t, stage⟩ := s
  cases stage with
  | done outcome => exact ⟨outcome, rfl⟩
  | failed e => cases hnone
  | _ => cases hzero

/-- A task of a list in which any two are apart is apart from all others. -/
theorem rel_of_pairwise_append {R : Task → Task → Prop} (hsymm : ∀ t u, R t u → R u t)
    {front back : List Saving} {s u : Saving}
    (h : ((front ++ s :: back).map Saving.task).Pairwise R) (hu : u ∈ front ++ back) :
    R u.task s.task := by
  rw [List.map_append, List.pairwise_append] at h
  obtain ⟨-, hback, hfront⟩ := h
  rcases List.mem_append.1 hu with hu | hu
  · exact hfront _ (List.mem_map_of_mem hu) _ List.mem_cons_self
  · exact hsymm _ _ ((List.pairwise_cons.1 hback).1 _ (List.mem_map_of_mem hu))

end rounds

section tasks

variable {workDir : String} {files : List (String × String)} {ts : List Task}

def Tasks (workDir : String) (files : List (String × String)) (ts : List Task) : Prop :=
  List.Forall₂ (fun f t => Task.of workDir f.1 f.2 = .ok t) files ts

theorem start_eq (h : Tasks workDir files ts) :
    (files.map fun (path, text) => Saving.start workDir path text) =
      ts.map fun t => ⟨t, .reading⟩ := by
  induction h with
  | nil => rfl
  | @cons f t files ts ht _ ih =>
    have hstart : Saving.start workDir f.1 f.2 = ⟨t, .reading⟩ := by
      unfold Saving.start
      rw [ht]
    rw [List.map_cons, List.map_cons, ih]
    exact congrArg (· :: _) hstart

theorem failure?_cons_eq_none {s : Saving} {saves : List Saving}
    (h : (s :: saves).findSome? Saving.failure? = none) :
    s.failure? = none ∧ saves.findSome? Saving.failure? = none := by
  rw [List.findSome?_eq_none_iff] at h ⊢
  exact ⟨h s List.mem_cons_self, fun x hx => h x (List.mem_cons_of_mem s hx)⟩

theorem exists_tasks (h : (files.map fun (path, text) => Saving.start workDir path text).findSome?
    Saving.failure? = none) : ∃ ts, Tasks workDir files ts := by
  induction files with
  | nil => exact ⟨[], .nil⟩
  | cons f files ih =>
    obtain ⟨path, text⟩ := f
    obtain ⟨hfirst, hothers⟩ := failure?_cons_eq_none h
    obtain ⟨ts, hts⟩ := ih hothers
    cases ht : Task.of workDir path text with
    | error e =>
      dsimp only at hfirst
      unfold Saving.start at hfirst
      rw [ht] at hfirst
      cases hfirst
    | ok t => exact ⟨t :: ts, .cons ht hts⟩

theorem absolute_of_task {path text : String} {t : Task} (h : Task.of workDir path text = .ok t) :
    Path.absolute? workDir path = some t.path ∧ t.text = text := by
  unfold Task.of at h
  cases ha : Path.absolute? workDir path with
  | none =>
    rw [ha] at h
    cases h
  | some a =>
    rw [ha] at h
    obtain rfl := Except.ok.inj h
    exact ⟨rfl, rfl⟩

theorem exists_task (workDir text : String) {path : String} (h : path ≠ "") :
    ∃ t, Task.of workDir path text = .ok t := by
  have hlist : ¬ path.toList.isEmpty = true := by
    simpa using h
  unfold Task.of Path.absolute?
  dsimp only
  rw [if_neg hlist]
  exact ⟨_, rfl⟩

theorem exists_tasks_of_ne (workDir : String) (h : ∀ f ∈ files, f.1 ≠ "") :
    ∃ ts, Tasks workDir files ts := by
  induction files with
  | nil => exact ⟨[], .nil⟩
  | cons f files ih =>
    obtain ⟨t, ht⟩ := exists_task workDir f.2 (h f List.mem_cons_self)
    obtain ⟨ts, hts⟩ := ih fun g hg => h g (List.mem_cons_of_mem f hg)
    exact ⟨t :: ts, .cons ht hts⟩

theorem map_path_of_tasks (h : Tasks workDir files ts) :
    ts.map Task.path = (files.map Prod.fst).filterMap (Path.absolute? workDir) := by
  induction h with
  | nil => rfl
  | cons ht _ ih =>
    rw [List.map_cons, List.map_cons, List.filterMap_cons, (absolute_of_task ht).1, ih]

def concluded (saves : List Saving) : Except Error (List (Option Outcome)) :=
  match saves.findSome? Saving.failure? with
  | some e => .error e
  | none => .ok (saves.map Saving.outcome?)

theorem concluded_eq_ok_iff {saves : List Saving} {outcomes : List (Option Outcome)} :
    concluded saves = .ok outcomes ↔
      saves.findSome? Saving.failure? = none ∧ saves.map Saving.outcome? = outcomes := by
  unfold concluded
  cases saves.findSome? Saving.failure? with
  | none => simp
  | some e => simp

theorem failure?_reading (ts : List Task) :
    (ts.map fun t => (⟨t, .reading⟩ : Saving)).findSome? Saving.failure? = none := by
  rw [List.findSome?_eq_none_iff]
  intro s hs
  obtain ⟨t, -, rfl⟩ := List.mem_map.1 hs
  rfl

variable {α : Type} {A : Access (StateM α)}

/-- Saving all is taking rounds, in which every step has kept what it keeps; without failures the
saves are done then. -/
theorem exists_run_saveAll (schedule : Schedule) {I : List Saving → α → Prop} (hI : Kept A I)
    (hts : Tasks workDir files ts) {σ : α} (hstart : I (ts.map fun t => ⟨t, .reading⟩) σ) :
    ∃ saves σ', (saveAll A schedule workDir files).run σ = (concluded saves, σ') ∧
      saves.map Saving.task = ts ∧ I saves σ' ∧
      (saves.findSome? Saving.failure? = none → ∀ s ∈ saves, ∃ o, s.stage = .done o) := by
  have hlength : files.length = (ts.map fun t => (⟨t, .reading⟩ : Saving)).length := by
    rw [List.length_map, hts.length_eq]
  have hrun : (saveAll A schedule workDir files).run σ =
      (concluded ((rounds A (schedule.rounds files.length)
        (files.map fun (path, text) => Saving.start workDir path text)).run σ).1,
      ((rounds A (schedule.rounds files.length)
        (files.map fun (path, text) => Saving.start workDir path text)).run σ).2) := rfl
  rw [hrun, start_eq hts, hlength]
  refine ⟨_, _, rfl, ?_, hI.rounds hstart _, done_of_rounds schedule⟩
  rw [map_task_rounds, List.map_map]
  exact List.map_id ts

theorem exists_tasks_of_saveAll {schedule : Schedule} {σ σ' : α}
    {outcomes : List (Option Outcome)}
    (h : (saveAll A schedule workDir files).run σ = (.ok outcomes, σ')) :
    ∃ ts, Tasks workDir files ts := by
  apply exists_tasks
  by_contra hfailed
  have hconcluded : concluded ((rounds A (schedule.rounds files.length)
      (files.map fun (path, text) => Saving.start workDir path text)).run σ).1 = .ok outcomes :=
    congrArg Prod.fst h
  rw [run_rounds_of_failed A hfailed] at hconcluded
  exact hfailed (concluded_eq_ok_iff.1 hconcluded).1

end tasks

end ApiTypes.Files
