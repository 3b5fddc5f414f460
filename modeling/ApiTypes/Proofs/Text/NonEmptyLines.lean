import ApiTypes.Proofs.Text.Replace
import ApiTypes.Text.Lines

namespace ApiTypes.Text

def nonEmptyLines (s : List Char) : List (List Char) :=
  (s.splitOn '\n').filter fun l => !l.isEmpty

variable {s u w old new : List Char}

@[simp] theorem nonEmptyLines_nil : nonEmptyLines [] = [] := rfl

theorem nonEmptyLines_append_newline (u w : List Char) :
    nonEmptyLines (u ++ '\n' :: w) = nonEmptyLines u ++ nonEmptyLines w := by
  simp [nonEmptyLines, List.splitOn_append_cons_self]

@[simp] theorem nonEmptyLines_newline_cons (s : List Char) :
    nonEmptyLines ('\n' :: s) = nonEmptyLines s :=
  nonEmptyLines_append_newline [] s

theorem nonEmptyLines_of_not_mem (h : '\n' ∉ s) (hs : s ≠ []) : nonEmptyLines s = [s] := by
  simp [nonEmptyLines, List.splitOn_eq_singleton h, hs]

/-- A text has no breaks, or it is a part without breaks, a break and the text after it. -/
theorem break_induction (isBreak : Char → Bool) {P : List Char → Prop}
    (last : ∀ s, s.any isBreak = false → P s)
    (part : ∀ u c w, u.any isBreak = false → isBreak c → P w → P (u ++ c :: w)) (s : List Char) :
    P s := by
  -- over the characters, with what was read since the last break in front
  suffices h : ∀ u, u.any isBreak = false → P (u ++ s) from h [] rfl
  induction s with
  | nil =>
    intro u hu
    rw [List.append_nil]
    exact last u hu
  | cons c s ih =>
    intro u hu
    by_cases hc : isBreak c
    · exact part u c s hu hc (ih [] rfl)
    · rw [List.append_cons]
      exact ih (u ++ [c]) (by simp [hu, hc])

theorem separator_induction (c : Char) {P : List Char → Prop} (last : ∀ s, c ∉ s → P s)
    (part : ∀ u w, c ∉ u → P w → P (u ++ c :: w)) (s : List Char) : P s := by
  have hmem : ∀ u : List Char, u.any (· == c) = false → c ∉ u :=
    fun u hu hc => List.any_eq_false.1 hu c hc (beq_self_eq_true c)
  induction s using break_induction (· == c) with
  | last s hs => exact last s (hmem s hs)
  | part u d w hu hd ih =>
    obtain rfl : d = c := by simpa using hd
    exact part u w (hmem u hu) ih

/-- A text is a single line, or a line and the text after its line break. -/
theorem line_induction {P : List Char → Prop} (last : ∀ s, '\n' ∉ s → P s)
    (line : ∀ u w, '\n' ∉ u → P w → P (u ++ '\n' :: w)) (s : List Char) : P s :=
  separator_induction '\n' last line s

theorem mem_nonEmptyLines {l : List Char} (h : l ∈ nonEmptyLines s) : l ≠ [] ∧ '\n' ∉ l := by
  induction s using line_induction with
  | last s hs =>
    by_cases hne : s = []
    · simp [hne] at h
    · obtain rfl : l = s := by simpa [nonEmptyLines_of_not_mem hs hne] using h
      exact ⟨hne, hs⟩
  | line u w hu ih =>
    rw [nonEmptyLines_append_newline] at h
    obtain h | h := List.mem_append.1 h
    · by_cases hne : u = []
      · simp [hne] at h
      · obtain rfl : l = u := by simpa [nonEmptyLines_of_not_mem hu hne] using h
        exact ⟨hne, hu⟩
    · exact ih h

theorem nonEmptyLines_ne_nil {c : Char} (hc : c ∈ s) (hn : c ≠ '\n') : nonEmptyLines s ≠ [] := by
  induction s using line_induction with
  | last s hs =>
    have hne := List.ne_nil_of_mem hc
    simp [nonEmptyLines_of_not_mem hs hne]
  | line u w hu ih =>
    rw [nonEmptyLines_append_newline]
    obtain hc | hc := List.mem_append.1 hc
    · simp [nonEmptyLines_of_not_mem hu (List.ne_nil_of_mem hc)]
    · have hw : c ∈ w := (List.mem_cons.1 hc).resolve_left hn
      simp [ih hw]

/-- A part without line breaks is in one of the lines. -/
theorem exists_line_of_infix {f : List Char} (hf : '\n' ∉ f) (hne : f ≠ []) (h : f <:+: s) :
    ∃ l ∈ nonEmptyLines s, f <:+: l := by
  induction s using line_induction with
  | last s hs =>
    have hs' : s ≠ [] := by
      rintro rfl
      exact hne (List.infix_nil.1 h)
    exact ⟨s, by simp [nonEmptyLines_of_not_mem hs hs'], h⟩
  | line u w hu ih =>
    rw [nonEmptyLines_append_newline]
    -- `f` has no line break, so it lies on one side of this one
    obtain hl | hw := (infix_append_cons_iff hf hne).1 h
    · have hu' : u ≠ [] := by
        rintro rfl
        exact hne (List.infix_nil.1 hl)
      exact ⟨u, by simp [nonEmptyLines_of_not_mem hu hu'], hl⟩
    · obtain ⟨l, hl, hfl⟩ := ih hw
      exact ⟨l, List.mem_append_right _ hl, hfl⟩

/-- What is replaced inside lines is replaced in each line. -/
theorem nonEmptyLines_replaceAll (hold : old ≠ []) (hn : '\n' ∉ old) (s : List Char) :
    nonEmptyLines (replaceAll old new s) =
      (nonEmptyLines s).flatMap fun l => nonEmptyLines (replaceAll old new l) := by
  have hline : ∀ u, '\n' ∉ u → nonEmptyLines (replaceAll old new u) =
      (nonEmptyLines u).flatMap fun l => nonEmptyLines (replaceAll old new l) := by
    intro u hu
    by_cases hne : u = []
    · subst hne
      rfl
    · simp [nonEmptyLines_of_not_mem hu hne]
  induction s using line_induction with
  | last s hs => exact hline s hs
  | line u w hu ih =>
    rw [replaceAll_append_cons hold hn, nonEmptyLines_append_newline, nonEmptyLines_append_newline,
      List.flatMap_append, ← hline u hu, ih]

/-- A line break that is doubled adds an empty line. -/
theorem nonEmptyLines_replaceAll_double (x y s : List Char) :
    nonEmptyLines (replaceAll (x ++ '\n' :: y) (x ++ '\n' :: '\n' :: y) s) = nonEmptyLines s := by
  have hold : x ++ '\n' :: y ≠ [] := by simp
  -- a part of the text before the place that is looked at stands in its first line
  suffices h : ∀ a, nonEmptyLines (a ++ replaceAll (x ++ '\n' :: y) (x ++ '\n' :: '\n' :: y) s) =
      nonEmptyLines (a ++ s) from h []
  induction s using replace_induction hold with
  | nil => exact fun _ => rfl
  | found s ih =>
    intro a
    have hnew : ∀ z, a ++ ((x ++ '\n' :: '\n' :: y) ++ z) =
        (a ++ x) ++ '\n' :: '\n' :: (y ++ z) := by
      simp
    have hsame : ∀ z, a ++ ((x ++ '\n' :: y) ++ z) = (a ++ x) ++ '\n' :: (y ++ z) := by
      simp
    rw [replaceAll_append hold, hnew, hsame, nonEmptyLines_append_newline,
      nonEmptyLines_append_newline, nonEmptyLines_newline_cons, ih y]
  | kept c s hs ih =>
    intro a
    rw [replaceAll_cons hs]
    simpa using ih (a ++ [c])

theorem newline_not_mem_lines {s l : List Char} (h : l ∈ lines s) : '\n' ∉ l := by
  fun_induction lines s generalizing l with
  | case1 => simp at h
  | case2 s ih =>
    obtain rfl | h := List.mem_cons.1 h
    · simp
    · exact ih h
  | case3 s ih =>
    obtain rfl | h := List.mem_cons.1 h
    · simp
    · exact ih h
  | case4 c s hn hr hs ih =>
    obtain rfl := List.mem_singleton.1 h
    exact fun h => hn (List.mem_singleton.1 h).symm
  | case5 c s hn hr line rest hs ih =>
    rw [hs] at ih
    obtain rfl | h := List.mem_cons.1 h
    · simp only [List.mem_cons, not_or]
      exact ⟨fun h => hn h.symm, ih List.mem_cons_self⟩
    · exact ih (List.mem_cons_of_mem line h)

end ApiTypes.Text
