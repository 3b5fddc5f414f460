import ApiTypes.Proofs.Text.NonEmptyLines
import ApiTypes.Text.Blank

namespace ApiTypes.Text

def nonBlankLines (s : List Char) : List (List Char) :=
  (s.splitOn '\n').filter fun l => !l.all isBlank

variable {s u w : List Char}

@[simp] theorem nonBlankLines_nil : nonBlankLines [] = [] := rfl

theorem nonBlankLines_append_newline (u w : List Char) :
    nonBlankLines (u ++ '\n' :: w) = nonBlankLines u ++ nonBlankLines w := by
  simp [nonBlankLines, List.splitOn_append_cons_self]

@[simp] theorem nonBlankLines_newline_cons (s : List Char) :
    nonBlankLines ('\n' :: s) = nonBlankLines s :=
  nonBlankLines_append_newline [] s

theorem nonBlankLines_of_not_mem (h : '\n' ∉ s) :
    nonBlankLines s = if s.all isBlank then [] else [s] := by
  rw [nonBlankLines, List.splitOn_eq_singleton h]
  cases hs : s.all isBlank <;> simp [hs]

/-- A text up to its last line. -/
theorem exists_last_line (s : List Char) :
    ∃ u l, s = u ++ l ∧ '\n' ∉ l ∧ (u = [] ∨ u.getLast? = some '\n') := by
  induction s using line_induction with
  | last s hs => exact ⟨[], s, rfl, hs, .inl rfl⟩
  | line u w hu ih =>
    obtain ⟨v, l, rfl, hl, hv⟩ := ih
    refine ⟨u ++ '\n' :: v, l, by simp, hl, .inr ?_⟩
    rcases hv with rfl | hv
    · simp
    · rw [List.getLast?_append, List.getLast?_cons, hv]
      rfl

/-- The first line of a text, and the lines after it. -/
theorem exists_first_line (s : List Char) :
    ∃ l ls, '\n' ∉ l ∧ (s = l ∨ ∃ w, s = l ++ '\n' :: w) ∧
      ∀ u, nonBlankLines (u ++ s) = nonBlankLines (u ++ l) ++ ls := by
  by_cases hs : '\n' ∈ s
  · obtain ⟨l, w, rfl, hl⟩ := List.eq_append_cons_of_mem hs
    refine ⟨l, nonBlankLines w, hl, .inr ⟨w, rfl⟩, fun u => ?_⟩
    rw [← List.append_assoc, nonBlankLines_append_newline]
  · exact ⟨s, [], hs, .inl rfl, fun u => by simp⟩

/-- A text that begins with something to see has a first line that is not blank. -/
theorem exists_first_line_cons {c : Char} (hc : isBlank c = false) (w : List Char) :
    ∃ l ls, '\n' ∉ l ∧ l.all isBlank = false ∧
      ∀ u, nonBlankLines (u ++ c :: w) = nonBlankLines (u ++ l) ++ ls := by
  obtain ⟨l, ls, hl, hw, hlines⟩ := exists_first_line (c :: w)
  refine ⟨l, ls, hl, ?_, hlines⟩
  have hcn : c ≠ '\n' := by
    rintro rfl
    cases hc
  cases l with
  | nil => rcases hw with hw | ⟨w', hw⟩ <;> simp_all
  | cons d l =>
    have hd : c = d := by rcases hw with hw | ⟨w', hw⟩ <;> exact (List.cons.inj hw).1
    subst hd
    simp [hc]

theorem nonBlankLines_append_of_getLast? (h : u.getLast? = some '\n') (w : List Char) :
    nonBlankLines (u ++ w) = nonBlankLines u ++ nonBlankLines w := by
  obtain ⟨v, rfl⟩ := List.getLast?_eq_some_iff.1 h
  rw [List.append_assoc, List.singleton_append, nonBlankLines_append_newline,
    nonBlankLines_append_newline, nonBlankLines_nil, List.append_nil]

theorem nonBlankLines_append_of_head? (u : List Char) (h : w.head? = some '\n') :
    nonBlankLines (u ++ w) = nonBlankLines u ++ nonBlankLines w := by
  obtain ⟨v, rfl⟩ := List.head?_eq_some_iff.1 h
  rw [nonBlankLines_append_newline, nonBlankLines_newline_cons]

/-- A line that goes on in the text after it is another line than before. -/
theorem nonBlankLines_append_ne {c : Char} (hc : isBlank c = false) (hu : u ≠ [])
    (hlast : u.getLast? ≠ some '\n') :
    nonBlankLines (u ++ c :: w) ≠ nonBlankLines u ++ nonBlankLines (c :: w) := by
  intro h
  obtain ⟨v, l, rfl, hl, hv⟩ := exists_last_line u
  have hne : l ≠ [] := by
    rintro rfl
    rcases hv with rfl | hv
    · exact hu rfl
    · exact hlast (by simpa using hv)
  obtain ⟨f, ls, hf, hblank, hlines⟩ := exists_first_line_cons hc w
  -- what stands before the last line is the same on both sides
  have hcancel : nonBlankLines (l ++ c :: w) = nonBlankLines l ++ nonBlankLines (c :: w) := by
    rcases hv with rfl | hv
    · simpa using h
    · rw [List.append_assoc, nonBlankLines_append_of_getLast? hv,
        nonBlankLines_append_of_getLast? hv, List.append_assoc] at h
      exact List.append_cancel_left h
  have hjoined : nonBlankLines (l ++ f) = [l ++ f] := by
    rw [nonBlankLines_of_not_mem (by simp [hl, hf])]
    simp [hblank]
  have hsingle : nonBlankLines f = [f] := by
    rw [nonBlankLines_of_not_mem hf]
    simp [hblank]
  have hsecond : nonBlankLines (c :: w) = [f] ++ ls := by simpa [hsingle] using hlines []
  rw [hlines l, hsecond, hjoined, ← List.append_assoc] at hcancel
  have hlines' : [l ++ f] = nonBlankLines l ++ [f] := List.append_cancel_right hcancel
  have heq : l ++ f = f := by
    have := congrArg List.getLast? hlines'
    simpa using this
  exact hne (List.append_left_eq_self.1 heq)

def Inked (s : List Char) : Prop :=
  ∃ c ∈ s, isBlank c = false

theorem inked_append : Inked (u ++ w) ↔ Inked u ∨ Inked w := by
  simp [Inked, or_and_right, exists_or]

theorem inked_cons {c : Char} : Inked (c :: s) ↔ isBlank c = false ∨ Inked s := by
  simp [Inked]

theorem Inked.dropWhile (h : Inked s) : Inked (s.dropWhile isBlank) := by
  obtain ⟨c, hc, hblank⟩ := h
  rw [← List.takeWhile_append_dropWhile (p := isBlank) (l := s)] at hc
  rcases List.mem_append.1 hc with hc | hc
  · have hbefore := List.all_eq_true.1 List.all_takeWhile c hc
    rw [hblank] at hbefore
    cases hbefore
  · exact ⟨c, hc, hblank⟩

theorem Inked.reverse (h : Inked s) : Inked s.reverse := by
  obtain ⟨c, hc, hblank⟩ := h
  exact ⟨c, List.mem_reverse.2 hc, hblank⟩

theorem Inked.trimEnd (h : Inked s) : Inked (trimEnd s) :=
  h.reverse.dropWhile.reverse

theorem Inked.trim (h : Inked s) : Inked (trim s) :=
  Inked.trimEnd h.dropWhile

theorem Inked.ne_nil (h : Inked s) : s ≠ [] := by
  rintro rfl
  obtain ⟨c, hc, -⟩ := h
  cases hc

/-- Only line breaks are lost when a text is cut into lines. -/
theorem exists_line_of_mem {c : Char} (hc : c ∈ s) (hn : c ≠ '\n') (hr : c ≠ '\r') :
    ∃ l ∈ lines s, c ∈ l := by
  -- the character is none of those that end a line, so it is in the line being read or further on
  fun_induction lines s with
  | case1 => cases hc
  | case2 s ih =>
    obtain ⟨l, hl, hmem⟩ := ih ((List.mem_cons.1 hc).resolve_left hn)
    exact ⟨l, List.mem_cons_of_mem _ hl, hmem⟩
  | case3 s ih =>
    have hs := (List.mem_cons.1 ((List.mem_cons.1 hc).resolve_left hr)).resolve_left hn
    obtain ⟨l, hl, hmem⟩ := ih hs
    exact ⟨l, List.mem_cons_of_mem _ hl, hmem⟩
  | case4 d s _ _ hnil ih =>
    rcases List.mem_cons.1 hc with rfl | hs
    · exact ⟨[c], List.mem_cons_self, List.mem_cons_self⟩
    · obtain ⟨l, hl, -⟩ := ih hs
      rw [hnil] at hl
      cases hl
  | case5 d s _ _ line rest hcons ih =>
    rcases List.mem_cons.1 hc with rfl | hs
    · exact ⟨c :: line, List.mem_cons_self, List.mem_cons_self⟩
    · obtain ⟨l, hl, hmem⟩ := ih hs
      rw [hcons] at hl
      rcases List.mem_cons.1 hl with rfl | hl
      · exact ⟨d :: l, List.mem_cons_self, List.mem_cons_of_mem d hmem⟩
      · exact ⟨l, List.mem_cons_of_mem _ hl, hmem⟩

theorem exists_inked_line (h : Inked s) : ∃ l ∈ lines s, Inked l := by
  obtain ⟨c, hc, hblank⟩ := h
  have hn : c ≠ '\n' := by
    rintro rfl
    cases hblank
  have hr : c ≠ '\r' := by
    rintro rfl
    cases hblank
  obtain ⟨l, hl, hmem⟩ := exists_line_of_mem hc hn hr
  exact ⟨l, hl, c, hmem, hblank⟩

end ApiTypes.Text
