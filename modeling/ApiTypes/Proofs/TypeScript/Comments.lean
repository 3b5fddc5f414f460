import ApiTypes.Proofs.Text.NonEmptyLines
import ApiTypes.Proofs.TypeScript.Fragments

namespace ApiTypes

namespace Text

theorem prefix_of_head?_lines {s l : List Char} (h : (lines s).head? = some l) : l <+: s := by
  fun_induction lines s generalizing l with
  | case1 => cases h
  | case2 s =>
    obtain rfl := Option.some.inj h
    exact List.nil_prefix
  | case3 s =>
    obtain rfl := Option.some.inj h
    exact List.nil_prefix
  | case4 c s =>
    obtain rfl := Option.some.inj h
    exact ⟨s, rfl⟩
  | case5 c s _ _ line rest hs ih =>
    obtain rfl := Option.some.inj h
    exact List.cons_prefix_cons.2 ⟨rfl, ih (by rw [hs]; rfl)⟩

theorem infix_of_mem_lines {s l : List Char} (h : l ∈ lines s) : l <:+: s := by
  fun_induction lines s generalizing l with
  | case1 => cases h
  | case2 s ih =>
    obtain rfl | h := List.mem_cons.1 h
    · exact List.nil_infix
    · exact List.infix_cons (ih h)
  | case3 s ih =>
    obtain rfl | h := List.mem_cons.1 h
    · exact List.nil_infix
    · exact List.infix_cons (List.infix_cons (ih h))
  | case4 c s =>
    obtain rfl := List.mem_singleton.1 h
    exact ⟨[], s, rfl⟩
  | case5 c s _ _ line rest hs ih =>
    rw [hs] at ih
    obtain rfl | h := List.mem_cons.1 h
    · -- the first line begins where the text does
      have hprefix : line <+: s := prefix_of_head?_lines (by rw [hs]; rfl)
      exact (List.cons_prefix_cons.2 ⟨rfl, hprefix⟩).isInfix
    · exact List.infix_cons (ih (List.mem_cons_of_mem line h))

theorem trimEnd_prefix (s : List Char) : trimEnd s <+: s := by
  have h : (s.reverse.dropWhile isBlank).reverse <+: s.reverse.reverse :=
    List.reverse_prefix.2 (List.dropWhile_suffix _)
  rwa [List.reverse_reverse] at h

theorem trimEnd_infix_of_mem_lines {s l : List Char} (h : l ∈ lines s) : trimEnd l <:+: s := by
  have hprefix := trimEnd_prefix l
  exact hprefix.isInfix.trans (infix_of_mem_lines h)

def Trimmed (s : List Char) : Prop :=
  ∃ u c, s = u ++ [c] ∧ isBlank c = false

theorem Trimmed.trimEnd_eq {s : List Char} (h : Trimmed s) : trimEnd s = s := by
  obtain ⟨u, c, rfl, hc⟩ := h
  simp [trimEnd, hc]

theorem Trimmed.append {s : List Char} (h : Trimmed s) (u : List Char) : Trimmed (u ++ s) := by
  obtain ⟨v, c, rfl, hc⟩ := h
  exact ⟨u ++ v, c, (List.append_assoc u v [c]).symm, hc⟩

theorem Trimmed.ne_nil {s : List Char} (h : Trimmed s) : s ≠ [] := by
  obtain ⟨u, c, rfl, -⟩ := h
  simp

theorem trimmed_trimEnd {s : List Char} (h : trimEnd s ≠ []) : Trimmed (trimEnd s) := by
  unfold trimEnd at h ⊢
  cases hd : s.reverse.dropWhile isBlank with
  | nil => simp [hd] at h
  | cons c u =>
    have hc := List.head?_dropWhile_not isBlank s.reverse
    rw [hd] at hc
    exact ⟨u.reverse, c, by simp, by simpa using hc⟩

end Text

namespace TypeScript

def closeMark : List Char := ['*', '/']

/-- The mark begins with a star, so only a star can stand where it begins. -/
theorem closeMark_infix_cons_iff {c : Char} {s : List Char} :
    closeMark <:+: c :: s ↔ (c = '*' ∧ s.head? = some '/') ∨ closeMark <:+: s := by
  rw [List.infix_cons_iff]
  refine or_congr_left ?_
  cases s with
  | nil => simp [closeMark]
  | cons d s => simp [closeMark, eq_comm]

/-- A text in which the mark is broken up does not have it. -/
theorem closeMark_not_infix_replaceAll (s : List Char) :
    ¬ closeMark <:+: Text.replaceAll closeMark ['*', '\\', '/'] s := by
  have hmark : closeMark ≠ [] := by decide
  induction s using Text.replace_induction hmark with
  | nil => exact fun h => by simpa [closeMark] using List.infix_nil.1 h
  | found s ih =>
    rw [Text.replaceAll_append hmark]
    simpa [closeMark_infix_cons_iff] using ih
  | kept c s hs ih =>
    rw [Text.replaceAll_cons hs, List.infix_cons_iff]
    refine not_or.2 ⟨fun h => hs ?_, ih⟩
    -- the next character is not replaced away, so the mark would have been there before
    obtain ⟨rfl, hslash⟩ := List.cons_prefix_cons.1 h
    exact List.cons_prefix_cons.2
      ⟨rfl, Text.prefix_of_prefix_replaceAll hmark (by decide) hslash⟩

variable {text line : List Char}

theorem closeMark_not_infix_commentLines (h : line ∈ commentLines text) :
    ¬ closeMark <:+: line := by
  obtain ⟨l, hl, rfl⟩ := List.mem_map.1 h
  have hfree : ¬ closeMark <:+: Text.trimEnd l := fun hmark =>
    closeMark_not_infix_replaceAll text (hmark.trans (Text.trimEnd_infix_of_mem_lines hl))
  unfold commentLine
  split
  · decide
  · next c s hs =>
    rw [hs] at hfree
    simpa [closeMark_infix_cons_iff] using hfree

theorem newline_not_mem_commentLines (h : line ∈ commentLines text) : '\n' ∉ line := by
  obtain ⟨l, hl, rfl⟩ := List.mem_map.1 h
  have hn : '\n' ∉ Text.trimEnd l := fun hmem =>
    Text.newline_not_mem_lines hl ((Text.trimEnd_prefix l).subset hmem)
  unfold commentLine
  split
  · decide
  · next c s hs =>
    rw [hs] at hn
    simpa using hn

/-- The lines between the marks begin with a star, and nothing blank stands at their ends. -/
theorem exists_star_of_commentLines (h : line ∈ commentLines text) :
    (∃ s, line = ' ' :: '*' :: s) ∧ Text.Trimmed line := by
  obtain ⟨l, -, rfl⟩ := List.mem_map.1 h
  unfold commentLine
  split
  · exact ⟨⟨[], rfl⟩, [' '], '*', rfl, by decide⟩
  · next c s hs =>
    have hend := (Text.trimmed_trimEnd (s := l) (by rw [hs]; simp)).append [' ', '*', ' ']
    rw [hs] at hend
    exact ⟨⟨_, rfl⟩, hend⟩

theorem trimmed_commentBlock (h : line ∈ commentBlock text) : Text.Trimmed line := by
  obtain rfl | h | rfl := mem_commentBlock.1 h
  · exact ⟨['/', '*'], '*', rfl, by decide⟩
  · exact (exists_star_of_commentLines h).2
  · exact ⟨[' ', '*'], '/', rfl, by decide⟩

theorem newline_not_mem_commentBlock (h : line ∈ commentBlock text) : '\n' ∉ line := by
  obtain rfl | h | rfl := mem_commentBlock.1 h
  · decide
  · exact newline_not_mem_commentLines h
  · decide

end TypeScript

end ApiTypes
