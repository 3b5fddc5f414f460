import ApiTypes.Proofs.Text.Trimming

namespace ApiTypes

namespace Text

/-- The number of places where the non-empty text `p` occurs. -/
def occurrences (p : List Char) : List Char → Nat
  | [] => 0
  | c :: s => occurrences p s + if startsWith p (c :: s) then 1 else 0

section occurrences

variable {p s : List Char} {c : Char}

theorem occurrences_eq_zero (h : ¬ p <:+: s) : occurrences p s = 0 := by
  induction s with
  | nil => rfl
  | cons c s ih =>
    obtain ⟨hstart, hs⟩ := not_or.1 (mt List.infix_cons_iff.2 h)
    rw [occurrences, ih hs, if_neg (mt startsWith_iff.1 hstart)]

/-- A text does not occur across a character that it does not have. -/
theorem occurrences_append_cons (hp : p ≠ []) (hc : c ∉ p) (u w : List Char) :
    occurrences p (u ++ c :: w) = occurrences p u + occurrences p w := by
  induction u with
  | nil =>
    have hnot : ¬ p <+: c :: w := fun h =>
      hp (List.prefix_nil.1 (prefix_of_prefix_append_cons (u := []) hc h))
    simp [occurrences, mt startsWith_iff.1 hnot]
  | cons d u ih =>
    have hstart : startsWith p (d :: (u ++ c :: w)) = startsWith p (d :: u) := by
      rw [Bool.eq_iff_iff, startsWith_iff, startsWith_iff]
      exact ⟨fun h => prefix_of_prefix_append_cons (u := d :: u) hc h,
        fun h => h.trans (List.prefix_append (d :: u) (c :: w))⟩
    rw [List.cons_append, occurrences, occurrences, ih, hstart]
    omega

theorem occurrences_replicate_append (hp : p ≠ []) (hc : c ∉ p) (n : Nat) (s : List Char) :
    occurrences p (List.replicate n c ++ s) = occurrences p s := by
  induction n with
  | zero => rfl
  | succ n ih =>
    rw [List.replicate_succ, List.cons_append]
    calc
      _ = occurrences p [] + occurrences p (List.replicate n c ++ s) :=
        occurrences_append_cons hp hc [] _
      _ = occurrences p s := by rw [ih, occurrences, Nat.zero_add]

/-- Lines in which a text does not occur add no occurrences. -/
theorem occurrences_unlines_append (hp : p ≠ []) (hn : '\n' ∉ p) {ls : List (List Char)}
    (h : ∀ l ∈ ls, occurrences p l = 0) (s : List Char) :
    occurrences p (unlines ls ++ s) = occurrences p s := by
  induction ls with
  | nil => rfl
  | cons l ls ih =>
    have hcons : unlines (l :: ls) ++ s = l ++ '\n' :: (unlines ls ++ s) := by simp [unlines]
    rw [hcons, occurrences_append_cons hp hn, h l List.mem_cons_self, Nat.zero_add,
      ih fun k hk => h k (List.mem_cons_of_mem l hk)]

end occurrences

section replace

variable {old new s : List Char}

theorem lines_of_not_mem (hn : '\n' ∉ s) (hs : s ≠ []) : lines s = [s] := by
  induction s with
  | nil => exact absurd rfl hs
  | cons c s ih =>
    rw [List.mem_cons, not_or] at hn
    have hcrlf : ∀ t, c = '\r' → s = '\n' :: t → False := fun t _ ht =>
      hn.2 (ht ▸ List.mem_cons_self)
    rw [lines.eq_4 _ _ (Ne.symm hn.1) hcrlf]
    cases s with
    | nil => rfl
    | cons d s => rw [ih hn.2 (List.cons_ne_nil d s)]

/-- A line break of two characters. -/
theorem lines_append_return {l : List Char} (hn : '\n' ∉ l) (s : List Char) :
    lines (l ++ '\r' :: '\n' :: s) = l :: lines s := by
  induction l with
  | nil => rfl
  | cons c l ih =>
    rw [List.mem_cons, not_or] at hn
    have hcrlf : ∀ t, c = '\r' → l ++ '\r' :: '\n' :: s = '\n' :: t → False := by
      rintro t - ht
      cases l with
      | nil => exact absurd (List.cons.inj ht).1 (by decide)
      | cons d l => exact hn.2 ((List.cons.inj ht).1 ▸ List.mem_cons_self)
    rw [List.cons_append, lines.eq_4 _ _ (Ne.symm hn.1) hcrlf, ih hn.2]

/-- What is replaced inside lines is replaced in each line. -/
theorem lines_replaceAll (hold : old ≠ []) (hnew : new ≠ []) (hn : '\n' ∉ old) (hr : '\r' ∉ old)
    (hn' : '\n' ∉ new) (hr' : '\r' ∉ new) (s : List Char) :
    lines (replaceAll old new s) = (lines s).map (replaceAll old new) := by
  have hkeeps : ∀ {u : List Char}, '\n' ∉ u → '\n' ∉ replaceAll old new u := fun hu h =>
    (mem_of_mem_replaceAll hold h).elim hn' hu
  induction s using line_induction with
  | last s hs =>
    by_cases hnil : s = []
    · subst hnil
      rfl
    · rw [lines_of_not_mem hs hnil,
        lines_of_not_mem (hkeeps hs) (mt (replaceAll_eq_nil hold hnew) hnil), List.map_singleton]
  | line u w hu ih =>
    rw [replaceAll_append_cons hold hn]
    by_cases hlast : u.getLast? = some '\r'
    · -- a carriage return before the line break is part of it, in both texts
      obtain ⟨v, rfl⟩ := List.getLast?_eq_some_iff.1 hlast
      have hv : '\n' ∉ v := fun h => hu (List.mem_append_left _ h)
      have hreturn : replaceAll old new (v ++ ['\r']) = replaceAll old new v ++ ['\r'] :=
        replaceAll_append_cons hold hr v []
      rw [hreturn, List.append_assoc, List.append_assoc, List.singleton_append,
        List.singleton_append, lines_append_return (hkeeps hv), lines_append_return hv,
        List.map_cons, ih]
    · rw [lines_append_newline (hkeeps hu) (mt (getLast?_of_replaceAll hold hnew hr') hlast),
        lines_append_newline hu hlast, List.map_cons, ih]

theorem trimmed_replaceAll (hold : old ≠ []) (hnew : new ≠ [])
    (hvisible : new.any isBlank = false) (h : Trimmed s) :
    Trimmed (replaceAll old new s) := by
  have hne := mt (replaceAll_eq_nil hold hnew) h.ne_nil
  obtain ⟨u, d, hud⟩ := List.eq_nil_or_concat (replaceAll old new s) |>.resolve_left hne
  refine ⟨u, d, by rw [hud, List.concat_eq_append], ?_⟩
  by_cases hd : d ∈ new
  · exact eq_false_of_ne_true (List.any_eq_false.1 hvisible d hd)
  · obtain ⟨v, c, rfl, hc⟩ := h
    have hlast := getLast?_of_replaceAll hold hnew hd (s := v ++ [c])
      (by rw [hud]; simp)
    obtain rfl : c = d := by simpa using hlast
    exact hc

/-- Blanks at the end stay there when texts without blanks are replaced. -/
theorem trimEnd_replaceAll (hold : old ≠ []) (hnew : new ≠ [])
    (hvisible : old.any isBlank = false) (hvisible' : new.any isBlank = false)
    (s : List Char) : trimEnd (replaceAll old new s) = replaceAll old new (trimEnd s) := by
  obtain ⟨w, hw, hs⟩ := exists_trimEnd_append s
  -- the blanks at the end are part of no occurrence
  have hblanks : ∀ c ∈ w, c ∉ old := fun c hc hmem =>
    List.any_eq_false.1 hvisible c hmem (hw c hc)
  have hsplit : replaceAll old new s = replaceAll old new (trimEnd s) ++ w := by
    conv_lhs => rw [hs]
    cases w with
    | nil => rw [List.append_nil, List.append_nil]
    | cons c w =>
      have hrest : ¬ old <:+: w := by
        obtain ⟨d, p, rfl⟩ := List.exists_cons_of_ne_nil hold
        exact fun h => hblanks d (List.mem_cons_of_mem c (h.subset List.mem_cons_self))
          List.mem_cons_self
      rw [replaceAll_append_cons hold (hblanks c List.mem_cons_self), replaceAll_eq_self hrest]
  rw [hsplit, trimEnd_append hw]
  by_cases hnil : trimEnd s = []
  · rw [hnil]
    rfl
  · exact (trimmed_replaceAll hold hnew hvisible' (trimmed_trimEnd hnil)).trimEnd_eq

end replace

end Text

namespace TypeScript

def brokenMark : List Char := ['*', '\\', '/']

/-- Marks that were broken up are put together again, if none was there before. -/
theorem unbreak_replaceAll {s : List Char} (h : ¬ brokenMark <:+: s) :
    Text.replaceAll brokenMark closeMark (Text.replaceAll closeMark brokenMark s) = s := by
  have hmark : closeMark ≠ [] := by decide
  have hbroken : brokenMark ≠ [] := by decide
  induction s using Text.replace_induction hmark with
  | nil => rfl
  | found s ih =>
    rw [Text.replaceAll_append hmark, Text.replaceAll_append hbroken,
      ih fun hs => h (List.infix_append_of_infix_right hs)]
  | kept c s hs ih =>
    obtain ⟨hstart, hrest⟩ := not_or.1 (mt List.infix_cons_iff.2 h)
    rw [Text.replaceAll_cons hs, Text.replaceAll_cons, ih hrest]
    -- a broken mark that begins here was here before, because it has its star at its beginning
    intro hprefix
    obtain ⟨rfl, htail⟩ := List.cons_prefix_cons.1 hprefix
    exact hstart (List.cons_prefix_cons.2
      ⟨rfl, Text.prefix_of_prefix_replaceAll hmark (by decide) htail⟩)

/-- The text of a line of a comment: what stands behind the star and a blank, with the marks that
were broken up. -/
def unstarred? (indent line : List Char) : Option (List Char) :=
  (Text.after? (indent ++ [' ', '*']) line).map fun rest =>
    Text.replaceAll brokenMark closeMark (if rest.head? = some ' ' then rest.tail else rest)

theorem unstarred?_commentLine (indent line : List Char) :
    unstarred? indent (indent ++ commentLine line) =
      some (Text.replaceAll brokenMark closeMark (Text.trimEnd line)) := by
  unfold unstarred? commentLine
  split
  · next hnil =>
    have hall := Text.after?_append (indent ++ [' ', '*']) []
    rw [List.append_nil] at hall
    rw [hall, hnil]
    rfl
  · next c s hs =>
    have hline : indent ++ ' ' :: '*' :: ' ' :: c :: s =
        (indent ++ [' ', '*']) ++ ' ' :: c :: s := by
      simp
    rw [hline, Text.after?_append, hs]
    rfl

theorem commentLines_eq_map (text : List Char) :
    commentLines text = (Text.lines text).map fun l =>
      commentLine (Text.replaceAll closeMark brokenMark l) := by
  have hlines : Text.lines (Text.replaceAll closeMark brokenMark text) =
      (Text.lines text).map (Text.replaceAll closeMark brokenMark) :=
    Text.lines_replaceAll (by decide) (by decide) (by decide) (by decide) (by decide) (by decide)
      text
  change (Text.lines (Text.replaceAll closeMark brokenMark text)).map commentLine = _
  rw [hlines, List.map_map]
  rfl

/-- Only the last line of a comment has the mark. -/
theorem occurrences_docComment (text : List Char) (k : Nat) :
    Text.occurrences closeMark (docComment text (List.replicate k ' ')) = 1 := by
  have hmark : closeMark ≠ [] := by decide
  have hindent : ∀ l, Text.occurrences closeMark (List.replicate k ' ' ++ l) =
      Text.occurrences closeMark l :=
    Text.occurrences_replicate_append hmark (by decide) k
  have hfront : ∀ l ∈ (['/', '*', '*'] :: commentLines text).map (List.replicate k ' ' ++ ·),
      Text.occurrences closeMark l = 0 := by
    intro l hl
    obtain ⟨line, hline, rfl⟩ := List.mem_map.1 hl
    rw [hindent]
    obtain rfl | hline := List.mem_cons.1 hline
    · decide
    · exact Text.occurrences_eq_zero (closeMark_not_infix_commentLines hline)
  -- the lines are counted one by one: a mark has no line break, so it lies inside a line
  have hsplit : docComment text (List.replicate k ' ') =
      Text.unlines ((['/', '*', '*'] :: commentLines text).map (List.replicate k ' ' ++ ·)) ++
        (List.replicate k ' ' ++ [' ', '*', '/', '\n']) := by
    simp [docComment_eq_unlines, commentBlock, Text.unlines]
  rw [hsplit, Text.occurrences_unlines_append hmark (by decide) hfront, hindent]
  decide

theorem lines_docComment (text : List Char) (k : Nat) :
    Text.lines (docComment text (List.replicate k ' ')) =
      (commentBlock text).map (List.replicate k ' ' ++ ·) := by
  rw [docComment_eq_unlines]
  refine Text.lines_unlines fun line hline => ?_
  obtain ⟨l, hl, rfl⟩ := List.mem_map.1 hline
  refine ⟨fun hn => ?_, fun hr => ?_⟩
  · obtain hn | hn := List.mem_append.1 hn
    · exact absurd (List.eq_of_mem_replicate hn) (by decide)
    · exact newline_not_mem_commentBlock hl hn
  · -- a carriage return is blank, and no blank stands at the end
    obtain ⟨u, c, rfl, hc⟩ := trimmed_commentBlock hl
    obtain rfl : c = '\r' := by simpa using hr
    exact absurd hc (by decide)

/-- A comment is closed once and says its text.  Its lines begin with one that opens it and end with
one that closes it; the mark that closes a comment occurs nowhere but there, and no line is blank or
has blanks at its end.  In between stand the lines of the text, without the blanks at their ends, if
the text does not have the mark broken up. -/
theorem docComment_closed_once (text : List Char) (k : Nat) :
    ∃ inner ls : List (List Char),
      ls = (List.replicate k ' ' ++ ['/', '*', '*']) ::
        (inner ++ [List.replicate k ' ' ++ [' ', '*', '/']]) ∧
      docComment text (List.replicate k ' ') = Text.unlines ls ∧
      Text.lines (docComment text (List.replicate k ' ')) = ls ∧
      Text.occurrences closeMark (docComment text (List.replicate k ' ')) = 1 ∧
      (∀ l ∈ ls, Text.Trimmed l) ∧
      (¬ brokenMark <:+: text → inner.map (unstarred? (List.replicate k ' ')) =
        (Text.lines text).map fun l => some (Text.trimEnd l)) := by
  refine ⟨(commentLines text).map (List.replicate k ' ' ++ ·),
    (commentBlock text).map (List.replicate k ' ' ++ ·), by simp [commentBlock],
    docComment_eq_unlines _ _, lines_docComment text k, occurrences_docComment text k, ?_, ?_⟩
  · intro line hline
    obtain ⟨l, hl, rfl⟩ := List.mem_map.1 hline
    exact (trimmed_commentBlock hl).append _
  · intro hbroken
    rw [commentLines_eq_map, List.map_map, List.map_map]
    refine List.map_congr_left fun l hl => ?_
    have hline : ¬ brokenMark <:+: Text.trimEnd l := fun h =>
      hbroken (h.trans (Text.trimEnd_infix_of_mem_lines hl))
    -- breaking up marks and trimming do not get in each other's way
    have htrim : Text.trimEnd (Text.replaceAll closeMark brokenMark l) =
        Text.replaceAll closeMark brokenMark (Text.trimEnd l) :=
      Text.trimEnd_replaceAll (by decide) (by decide) (by decide) (by decide) l
    exact (unstarred?_commentLine _ _).trans (by rw [htrim, unbreak_replaceAll hline])

theorem docComment_closed_once_marks :
    ¬ brokenMark <:+: " stops */ here \r\n\n**//".toList ∧
      docComment " stops */ here \r\n\n**//".toList [' ', ' '] =
        "  /**\n   *  stops *\\/ here\n   *\n   * **\\//\n   */\n".toList ∧
      ∃ inner, Text.lines (docComment " stops */ here \r\n\n**//".toList [' ', ' ']) =
          "  /**".toList :: (inner ++ ["   */".toList]) ∧
        inner.map (unstarred? [' ', ' ']) =
          [some " stops */ here".toList, some [], some "**//".toList] := by
  have hfree : ¬ brokenMark <:+: " stops */ here \r\n\n**//".toList := by decide
  obtain ⟨inner, ls, hls, -, hlines, -, -, htext⟩ :=
    docComment_closed_once " stops */ here \r\n\n**//".toList 2
  exact ⟨hfree, by decide, inner, hlines.trans hls, (htext hfree).trans (by decide)⟩

end TypeScript

end ApiTypes
