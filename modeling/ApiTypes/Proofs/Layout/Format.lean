import ApiTypes.Layout.Format
import ApiTypes.Proofs.Text.NonBlankLines

namespace ApiTypes.Layout

open Text

variable {style : Style}

/-- The lines of a statement begin with its opening brace, in one line or in several. -/
theorem exists_inked_statementLines {s : List Char} {ls : List (List Char)}
    (h : statementLines style s = .ok ls) : ∃ l ∈ ls, Inked l := by
  have hbrace : isBlank '{' = false := by decide
  unfold statementLines at h
  cases hi : Import.ofStatement? s with
  | none =>
    rw [hi] at h
    cases h
  | some i =>
    rw [hi] at h
    obtain rfl := Except.ok.inj h
    -- however the statement is laid out, its opening brace is written
    unfold Import.lines
    dsimp only
    split
    · refine ⟨_, List.mem_singleton_self _, '{', ?_, hbrace⟩
      unfold Import.singleLine
      split <;> simp
    · exact ⟨i.head ++ ['{'], by simp, '{', by simp, hbrace⟩

/-- A statement that is complete is laid out before the lines behind it. -/
theorem exists_inked_statement {s : List Char} {rest out : List (List Char)}
    (h : (do return (← statementLines style s) ++ (← importLines style none rest) :
      Except Error (List (List Char))) = .ok out) : ∃ l ∈ out, Inked l := by
  cases hs : statementLines style s with
  | error e =>
    rw [hs] at h
    cases h
  | ok first =>
    cases hrest : importLines style none rest with
    | error e =>
      rw [hs, hrest] at h
      cases h
    | ok after =>
      rw [hs, hrest] at h
      obtain rfl := Except.ok.inj h
      obtain ⟨l, hl, hink⟩ := exists_inked_statementLines hs
      exact ⟨l, List.mem_append_left _ hl, hink⟩

/-- A line that can be seen, or a statement that has begun, leaves a line that can be seen. -/
theorem exists_inked_importLines {pending : Option (List Char)} {ls out : List (List Char)}
    (hink : (∃ s ∈ pending, Inked s) ∨ ∃ l ∈ ls, Inked l)
    (h : importLines style pending ls = .ok out) : ∃ l ∈ out, Inked l := by
  -- a line goes to the output or into the statement that is pending
  induction ls generalizing pending out with
  | nil =>
    obtain rfl := Except.ok.inj h
    rcases hink with ⟨s, hs, hink⟩ | ⟨l, hl, -⟩
    · exact ⟨s, by simpa using hs, hink⟩
    · cases hl
  | cons line rest ih =>
    cases pending with
    | some s =>
      rw [importLines] at h
      split at h
      · exact exists_inked_statement h
      · refine ih ?_ h
        rcases hink with ⟨t, ht, hink⟩ | ⟨l, hl, hink⟩
        · obtain rfl := Option.mem_some.1 ht
          exact .inl ⟨_, rfl, inked_append.2 (.inl hink)⟩
        · rcases List.mem_cons.1 hl with rfl | hl
          · exact .inl ⟨_, rfl, inked_append.2 (.inr (inked_cons.2 (.inr hink.trim)))⟩
          · exact .inr ⟨l, hl, hink⟩
    | none =>
      have hink : Inked line ∨ ∃ l ∈ rest, Inked l := by
        simpa using hink
      rw [importLines] at h
      split at h
      · split at h
        · exact exists_inked_statement h
        · refine ih ?_ h
          rcases hink with hink | hrest
          · exact .inl ⟨_, rfl, hink.trimEnd⟩
          · exact .inr hrest
      · cases hrest : importLines style none rest with
        | error e =>
          rw [hrest] at h
          cases h
        | ok after =>
          rw [hrest] at h
          obtain rfl := Except.ok.inj h
          rcases hink with hink | hrest'
          · exact ⟨line, List.mem_cons_self, hink⟩
          · obtain ⟨l, hl, hl'⟩ := ih (.inr hrest') hrest
            exact ⟨l, List.mem_cons_of_mem _ hl, hl'⟩

/-- A line that can be seen has its place among the styled lines. -/
theorem styledLines_ne_nil {p : Position} {ls out : List (List Char)} (hink : ∃ l ∈ ls, Inked l)
    (h : styledLines style p ls = .ok out) : out ≠ [] := by
  induction ls generalizing p with
  | nil =>
    obtain ⟨l, hl, -⟩ := hink
    cases hl
  | cons line rest ih =>
    rw [styledLines] at h
    dsimp only at h
    split at h
    · next hempty =>
      refine ih ?_ h
      obtain ⟨l, hl, hl'⟩ := hink
      -- a line that is left out has nothing to see, so the one looked for comes later
      rcases List.mem_cons.1 hl with rfl | hl
      · exact absurd (List.isEmpty_iff.1 hempty) hl'.trimEnd.ne_nil
      · exact ⟨l, hl, hl'⟩
    · cases hindented : reindent style (trimEnd line) with
      | error e =>
        rw [hindented] at h
        cases h
      | ok indented =>
        rw [hindented] at h
        change (styledLines style _ rest >>= _) = _ at h
        generalize styledLines style _ rest = after at h
        cases after with
        | error e => cases h
        | ok after =>
          obtain rfl := Except.ok.inj h
          simp

/-- A text that can be seen is not empty when it is formatted. -/
theorem format_ne_empty {style : Option Style} {text out : String} (hink : Inked text.toList)
    (h : format style text = .ok out) : out ≠ "" := by
  cases style with
  | none =>
    obtain rfl := Except.ok.inj h
    intro hempty
    exact hink.ne_nil (String.toList_eq_nil_iff.2 hempty)
  | some style =>
    change (formatChars style text.toList).map String.ofList = _ at h
    unfold formatChars at h
    cases hlaid : importLines style none (lines text.toList) with
    | error e =>
      rw [hlaid] at h
      cases h
    | ok laid =>
      rw [hlaid] at h
      change Except.map _ (styledLines style .start laid >>= _) = _ at h
      cases hstyled : styledLines style .start laid with
      | error e =>
        rw [hstyled] at h
        cases h
      | ok styled =>
        rw [hstyled] at h
        obtain rfl := Except.ok.inj h
        -- a line with something to see is left by the imports, and then by the style
        have hne := styledLines_ne_nil
          (exists_inked_importLines (.inr (exists_inked_line hink)) hlaid) hstyled
        obtain ⟨l, ls, rfl⟩ := List.exists_cons_of_ne_nil hne
        intro hempty
        have hnil : unlines (l :: ls) = [] := by
          simpa using congrArg String.toList hempty
        simp [unlines] at hnil

end ApiTypes.Layout
