import ApiTypes.Proofs.Files.Rounds
import ApiTypes.Proofs.Files.View

namespace ApiTypes.Files

variable {σ α β : Type}

def Faultless (Q : α → Prop) (a : StateM (σ × List Call) α) : Prop :=
  ∀ s calls, ∃ new, (a.run (s, calls)).2.2 = calls ++ new ∧ (new = [] → Q (a.run (s, calls)).1)

theorem faultless_pure {Q : α → Prop} {x : α} (h : Q x) :
    Faultless Q (pure x : StateM (σ × List Call) α) :=
  fun _ calls => ⟨[], (List.append_nil calls).symm, fun _ => h⟩

theorem Faultless.bind {P : α → Prop} {Q : β → Prop} {a : StateM (σ × List Call) α}
    {f : α → StateM (σ × List Call) β} (ha : Faultless P a)
    (hf : ∀ x, Faultless (fun y => P x → Q y) (f x)) : Faultless Q (a >>= f) := by
  intro s calls
  obtain ⟨new, hcalls, hP⟩ := ha s calls
  obtain ⟨new', hcalls', hQ⟩ := hf (a.run (s, calls)).1 (a.run (s, calls)).2.1
    (a.run (s, calls)).2.2
  refine ⟨new ++ new', ?_, fun hnil => ?_⟩
  · rw [← List.append_assoc, ← hcalls]
    exact hcalls'
  · obtain ⟨hnew, hnew'⟩ := List.append_eq_nil_iff.1 hnil
    exact hQ hnew' (hP hnew)

theorem Faultless.mono {P Q : α → Prop} {a : StateM (σ × List Call) α} (h : Faultless P a)
    (hQ : ∀ x, P x → Q x) : Faultless Q a := by
  intro s calls
  obtain ⟨new, hcalls, hP⟩ := h s calls
  exact ⟨new, hcalls, fun hnil => hQ _ (hP hnil)⟩

theorem Faultless.map {P : α → Prop} {Q : β → Prop} {a : StateM (σ × List Call) α}
    (ha : Faultless P a) {f : α → β} (hf : ∀ x, P x → Q (f x)) :
    Faultless Q (do return f (← a)) :=
  ha.bind fun x => faultless_pure (hf x)

theorem faultless_unnoted (a : StateM σ α) : Faultless (fun _ => True) (unnoted a) :=
  fun _ calls => ⟨[], (List.append_nil calls).symm, fun _ => trivial⟩

theorem faultless_faulted (call : Call) (a : StateM σ (Except String Unit)) :
    Faultless (fun r => ∃ u, r = .ok u) (faulted call a) := by
  intro s calls
  rw [run_faulted]
  obtain ⟨r, s'⟩ := a.run s
  cases r with
  | ok u => exact ⟨[], (List.append_nil calls).symm, fun _ => ⟨(), rfl⟩⟩
  | error reason => exact ⟨[call], rfl, fun hnil => by cases hnil⟩

section saves

variable (A : Access (StateM σ))

theorem faultless_isCurrent (t : Task) : Faultless (fun _ => True) (t.isCurrent A.faulting) :=
  ((faultless_unnoted (A.read t.path)).map (Q := fun _ => True) fun _ _ => trivial).map
    fun _ _ => trivial

theorem faultless_makeParent (t : Task) :
    Faultless (fun r => ∃ u, r = .ok u) (t.makeParent A.faulting) := by
  unfold Task.makeParent
  split
  · exact faultless_pure ⟨(), rfl⟩
  · refine (faultless_faulted _ _).map ?_
    rintro _ ⟨u, rfl⟩
    exact ⟨u, rfl⟩

theorem faultless_put (t : Task) : Faultless (fun r => ∃ u, r = .ok u) (t.put A.faulting) := by
  refine (faultless_faulted _ _).map ?_
  rintro _ ⟨u, rfl⟩
  exact ⟨u, rfl⟩

/-- A save that goes on has not failed. -/
theorem faultless_step (s : Saving) :
    Faultless (fun s' => s.failure? = none → s'.failure? = none) (s.step A.faulting) := by
  obtain ⟨t, stage⟩ := s
  have hstage : Faultless (fun stage' => (⟨t, stage⟩ : Saving).failure? = none →
      (⟨t, stage'⟩ : Saving).failure? = none) ((⟨t, stage⟩ : Saving).nextStage A.faulting) := by
    -- a step that makes a call fails only with that call
    cases stage with
    | reading =>
      refine (faultless_isCurrent A t).map fun current _ _ => ?_
      cases current <;> rfl
    | making =>
      refine (faultless_makeParent A t).map ?_
      rintro _ ⟨u, rfl⟩ _
      rfl
    | writing =>
      refine (faultless_put A t).map ?_
      rintro _ ⟨u, rfl⟩ _
      rfl
    | done outcome => exact faultless_pure id
    | failed e => exact faultless_pure id
  exact hstage.map fun _ h => h

theorem findSome?_failure?_set {saves : List Saving} {place : Nat} {s : Saving}
    (hs : s.failure? = none) (hsaves : saves.findSome? Saving.failure? = none) :
    (saves.set place s).findSome? Saving.failure? = none := by
  rw [List.findSome?_eq_none_iff] at hsaves ⊢
  intro u hu
  rcases List.mem_or_eq_of_mem_set hu with hu | rfl
  · exact hsaves u hu
  · exact hs

theorem faultless_stepAt (saves : List Saving) (place : Nat) :
    Faultless (fun saves' => saves.findSome? Saving.failure? = none →
      saves'.findSome? Saving.failure? = none) (stepAt A.faulting saves place) := by
  unfold stepAt
  split
  · next s hs =>
    refine (faultless_step A s).map fun s' hstep hnone => ?_
    have hfailure := List.findSome?_eq_none_iff.1 hnone s (List.mem_of_getElem? hs)
    exact findSome?_failure?_set (hstep hfailure) hnone
  · exact faultless_pure id

theorem faultless_round (places : List Nat) (saves : List Saving) :
    Faultless (fun saves' => saves.findSome? Saving.failure? = none →
      saves'.findSome? Saving.failure? = none) (places.foldlM (stepAt A.faulting) saves) := by
  induction places generalizing saves with
  | nil => exact faultless_pure id
  | cons place places ih =>
    rw [List.foldlM_cons]
    refine (faultless_stepAt A saves place).bind fun saves₁ => (ih saves₁).mono ?_
    exact fun saves' hlater hstep hnone => hlater (hstep hnone)

theorem faultless_rounds (rs : List (List Nat)) (saves : List Saving) :
    Faultless (fun saves' => saves.findSome? Saving.failure? = none →
      saves'.findSome? Saving.failure? = none) (rounds A.faulting rs saves) := by
  induction rs generalizing saves with
  | nil => exact faultless_pure id
  | cons places rs ih =>
    unfold rounds
    split
    · exact faultless_pure id
    · refine (faultless_round A places saves).bind fun saves₁ => (ih saves₁).mono ?_
      exact fun saves' hlater hround hnone => hlater (hround hnone)

/-- Saves of texts at paths that can be made absolute have results if no call fails. -/
theorem faultless_saveAll (schedule : Schedule) {workDir : String}
    {files : List (String × String)} {ts : List Task} (hts : Tasks workDir files ts) :
    Faultless (fun r => ∃ outcomes, r = .ok outcomes)
      (saveAll A.faulting schedule workDir files) := by
  unfold saveAll
  rw [start_eq hts]
  refine (faultless_rounds A _ _).map fun saves h => ?_
  rw [h (failure?_reading ts)]
  exact ⟨_, rfl⟩

end saves

end ApiTypes.Files
