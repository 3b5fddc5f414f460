import ApiTypes.Proofs.TypeScript.Comments
import Mathlib.Data.List.TakeWhile

namespace ApiTypes.Text

def Blanks (s : List Char) : Prop :=
  ∀ c ∈ s, isBlank c

variable {s t u w : List Char} {c : Char}

theorem blanks_nil : Blanks [] := fun _ h => nomatch h

theorem blanks_singleton (h : isBlank c) : Blanks [c] := by
  simpa [Blanks] using h

theorem Blanks.append (h : Blanks s) (h' : Blanks t) : Blanks (s ++ t) :=
  fun c hc => (List.mem_append.1 hc).elim (h c) (h' c)

theorem blanks_reverse : Blanks s.reverse ↔ Blanks s := by
  simp [Blanks]

theorem Blanks.not_mem (h : Blanks s) (hc : isBlank c = false) : c ∉ s := by
  intro hmem
  have hblank := h c hmem
  rw [hc] at hblank
  cases hblank

theorem exists_cons_of_not_blanks (h : ¬ Blanks s) :
    ∃ u c v, s = u ++ c :: v ∧ Blanks u ∧ isBlank c = false := by
  induction s with
  | nil => exact absurd blanks_nil h
  | cons c s ih =>
    cases hc : isBlank c with
    | false => exact ⟨[], c, s, rfl, blanks_nil, hc⟩
    | true =>
      obtain ⟨u, d, v, rfl, hu, hd⟩ := ih fun hs => h (List.forall_mem_cons.2 ⟨hc, hs⟩)
      exact ⟨c :: u, d, v, rfl, List.forall_mem_cons.2 ⟨hc, hu⟩, hd⟩

theorem exists_concat_of_not_blanks (h : ¬ Blanks s) :
    ∃ u c v, s = u ++ c :: v ∧ Blanks v ∧ isBlank c = false := by
  obtain ⟨u, c, v, hs, hu, hc⟩ := exists_cons_of_not_blanks (mt blanks_reverse.1 h)
  refine ⟨v.reverse, c, u.reverse, ?_, blanks_reverse.2 hu, hc⟩
  rw [← List.reverse_reverse s, hs]
  simp

theorem trimStart_append (hw : Blanks w) (s : List Char) : trimStart (w ++ s) = trimStart s :=
  List.dropWhile_append_of_pos hw

theorem trimStart_append_cons (hu : Blanks u) (hc : isBlank c = false) (s : List Char) :
    trimStart (u ++ c :: s) = c :: s := by
  rw [trimStart_append hu, trimStart, List.dropWhile_cons, if_neg (by simp [hc])]

theorem trimStart_append_of_not_blank (hc : isBlank c = false) (s t : List Char) :
    trimStart (s ++ c :: t) = trimStart s ++ c :: t := by
  induction s with
  | nil => exact trimStart_append_cons blanks_nil hc t
  | cons d s ih =>
    cases hd : isBlank d with
    | false => simp [trimStart, hd]
    | true => simpa [trimStart, hd] using ih

theorem exists_trimStart_append (s : List Char) : ∃ w, Blanks w ∧ s = w ++ trimStart s :=
  ⟨s.takeWhile isBlank, fun _ hc => by simpa using List.mem_takeWhile_imp hc,
    List.takeWhile_append_dropWhile.symm⟩

theorem trimEnd_append (hw : Blanks w) (s : List Char) : trimEnd (s ++ w) = trimEnd s := by
  unfold trimEnd
  rw [List.reverse_append, List.dropWhile_append_of_pos (blanks_reverse.2 hw)]

theorem trimEnd_of_blanks (h : Blanks s) : trimEnd s = [] :=
  trimEnd_append h []

theorem trimEnd_append_cons (hc : isBlank c = false) (u s : List Char) :
    trimEnd (u ++ c :: s) = u ++ c :: trimEnd s := by
  have hend : ∀ {d : Char} (v : List Char) {w : List Char}, isBlank d = false → Blanks w →
      trimEnd (v ++ d :: w) = v ++ [d] := by
    intro d v w hd hw
    have hlist : v ++ d :: w = (v ++ [d]) ++ w := by simp
    rw [hlist, trimEnd_append hw]
    exact Trimmed.trimEnd_eq ⟨v, d, rfl, hd⟩
  by_cases hs : Blanks s
  · rw [hend u hc hs, trimEnd_of_blanks hs]
  · obtain ⟨v, d, w, rfl, hw, hd⟩ := exists_concat_of_not_blanks hs
    have hlist : u ++ c :: (v ++ d :: w) = (u ++ c :: v) ++ d :: w := by simp
    rw [hlist, hend _ hd hw, hend v hd hw]
    simp

theorem exists_trimEnd_append (s : List Char) : ∃ w, Blanks w ∧ s = trimEnd s ++ w := by
  by_cases hs : Blanks s
  · exact ⟨s, hs, by rw [trimEnd_of_blanks hs, List.nil_append]⟩
  · obtain ⟨u, c, w, rfl, hw, hc⟩ := exists_concat_of_not_blanks hs
    refine ⟨w, hw, ?_⟩
    rw [trimEnd_append_cons hc, trimEnd_of_blanks hw]
    simp

theorem trim_append_left (hw : Blanks w) (s : List Char) : trim (w ++ s) = trim s := by
  rw [trim, trimStart_append hw, trim]

theorem trim_of_blanks (h : Blanks s) : trim s = [] := by
  have hnil := trim_append_left h []
  rw [List.append_nil] at hnil
  exact hnil

theorem trim_append_right (hw : Blanks w) (s : List Char) : trim (s ++ w) = trim s := by
  by_cases hs : Blanks s
  · rw [trim_of_blanks hs, trim_of_blanks (hs.append hw)]
  · obtain ⟨u, c, v, rfl, hu, hc⟩ := exists_cons_of_not_blanks hs
    rw [List.append_assoc, List.cons_append, trim, trim, trimStart_append_cons hu hc,
      trimStart_append_cons hu hc, ← List.cons_append, trimEnd_append hw]

/-- A text with blanks around it. -/
theorem exists_trim (s : List Char) :
    ∃ w w', Blanks w ∧ Blanks w' ∧ s = w ++ (trim s ++ w') := by
  by_cases hs : Blanks s
  · exact ⟨s, [], hs, blanks_nil, by rw [trim_of_blanks hs]; simp⟩
  · obtain ⟨u, c, v, rfl, hu, hc⟩ := exists_cons_of_not_blanks hs
    obtain ⟨w', hw', hv⟩ := exists_trimEnd_append (c :: v)
    refine ⟨u, w', hu, hw', ?_⟩
    rw [trim, trimStart_append_cons hu hc]
    exact congrArg (u ++ ·) hv

theorem trim_eq_nil_iff : trim s = [] ↔ Blanks s := by
  refine ⟨fun h => ?_, trim_of_blanks⟩
  obtain ⟨w, w', hw, hw', hs⟩ := exists_trim s
  rw [hs, h]
  exact hw.append hw'

theorem trim_subset (s : List Char) : trim s ⊆ s := by
  obtain ⟨w, w', -, -, hs⟩ := exists_trim s
  conv_rhs => rw [hs]
  simp

/-- Blanks that do not stay in the text may be other blanks. -/
theorem trim_respaced {w' : List Char} (hw : Blanks w) (hw' : Blanks w') (hc : c ∈ w)
    (h : c ∉ trim (s ++ (w ++ t))) : trim (s ++ (w ++ t)) = trim (s ++ (w' ++ t)) := by
  by_cases hs : Blanks s
  · rw [trim_append_left hs, trim_append_left hw, trim_append_left hs, trim_append_left hw']
  by_cases ht : Blanks t
  · rw [trim_append_right (hw.append ht), trim_append_right (hw'.append ht)]
  -- between two characters that are not blank nothing is trimmed
  obtain ⟨u, d, v, rfl, hu, hd⟩ := exists_cons_of_not_blanks hs
  obtain ⟨u', d', v', rfl, hv', hd'⟩ := exists_concat_of_not_blanks ht
  have hlist : u ++ d :: v ++ (w ++ (u' ++ d' :: v')) = u ++ d :: (v ++ w ++ u' ++ d' :: v') := by
    simp
  have htrim : trim (u ++ d :: v ++ (w ++ (u' ++ d' :: v'))) =
      d :: (v ++ w ++ u') ++ d' :: trimEnd v' := by
    rw [hlist, trim, trimStart_append_cons hu hd, ← List.cons_append, trimEnd_append_cons hd']
  rw [htrim] at h
  simp [hc] at h

end ApiTypes.Text
