import ApiTypes.Proofs.Layout.Restyle

namespace ApiTypes.Layout

section requoted

variable {wanted : Char}

def AlikeChar (c d : Char) : Prop :=
  d = c ∨ isQuote c ∧ isQuote d

theorem forall₂_alikeChar (s : List Char) : List.Forall₂ AlikeChar s s :=
  List.forall₂_same.2 fun _ _ => .inl rfl

def openChars : Option (Char × List Char) → List Char
  | none => []
  | some (q, content) => q :: content.reverse

theorem isQuote_chosenQuote {current : Char} (hwanted : isQuote wanted) (hcurrent : isQuote current)
    (content : List Char) : isQuote (chosenQuote wanted current content) := by
  unfold chosenQuote
  split
  · exact hcurrent
  · exact hwanted

theorem forall₂_requoteFrom (hwanted : isQuote wanted) (literal : Option (Char × List Char))
    (hliteral : ∀ q content, literal = some (q, content) → isQuote q) (s : List Char) :
    List.Forall₂ AlikeChar (openChars literal ++ s) (requoteFrom wanted literal s) := by
  have hopen : ∀ {q : Char} {w : List Char}, isQuote q →
      ∀ q' content, some (q, w) = some (q', content) → isQuote q' := by
    rintro q w hq _ _ ⟨⟩
    exact hq
  induction literal, s using requoteFrom.induct wanted with
  | case1 => exact .nil
  | case2 q content =>
    rw [List.append_nil]
    exact forall₂_alikeChar _
  | case3 e s ihopen ih =>
    rw [requoteFrom]
    split
    · next hquote => exact .cons (.inl rfl) (ihopen (hopen hquote))
    · exact .cons (.inl rfl) (.cons (.inl rfl) (ih hliteral))
  | case4 e s q content ih =>
    rw [requoteFrom]
    simpa [openChars] using ih (hopen (hliteral q content rfl))
  | case5 c s hescape hquote ih =>
    rw [requoteFrom.eq_5 _ _ _ hescape, if_pos hquote]
    exact ih (hopen hquote)
  | case6 c s hescape hquote ih =>
    rw [requoteFrom.eq_5 _ _ _ hescape, if_neg hquote]
    exact .cons (.inl rfl) (ih hliteral)
  | case7 s q content hescape ih =>
    -- the literal is complete, and both its quotes are changed or neither
    have hq := hliteral q content rfl
    have hchosen := isQuote_chosenQuote hwanted hq content.reverse
    have hrest := ih (by simp)
    rw [requoteFrom.eq_6 _ _ _ _ _ hescape, if_pos rfl]
    exact .cons (.inr ⟨hq, hchosen⟩)
      (List.rel_append (forall₂_alikeChar _) (.cons (.inr ⟨hq, hchosen⟩) hrest))
  | case8 c s hescape q content hne ih =>
    rw [requoteFrom.eq_6 _ _ _ _ _ hescape, if_neg hne]
    simpa [openChars] using ih (hopen (hliteral q content rfl))

/-- Whatever the text, at most its quotes are changed. -/
theorem forall₂_requote (hwanted : isQuote wanted) (s : List Char) :
    List.Forall₂ AlikeChar s (requote wanted s) :=
  forall₂_requoteFrom hwanted none (by simp) s

theorem isQuote_wantedQuote (style : Style) : isQuote (wantedQuote style) := by
  unfold wantedQuote
  cases style.singleQuote <;> decide

theorem AlikeChar.isBlank_eq {c d : Char} (h : AlikeChar c d) :
    Text.isBlank d = Text.isBlank c := by
  have hquote : ∀ {q : Char}, isQuote q → Text.isBlank q = false := by
    intro q hq
    simp only [isQuote, Bool.or_eq_true, beq_iff_eq] at hq
    obtain rfl | rfl := hq <;> rfl
  obtain rfl | ⟨hc, hd⟩ := h
  · rfl
  · rw [hquote hc, hquote hd]

/-- Only a quote can be alike to another character. -/
theorem AlikeChar.eq_iff {c d e : Char} (h : AlikeChar c d) (he : isQuote e = false) :
    d = e ↔ c = e := by
  obtain rfl | ⟨hc, hd⟩ := h
  · rfl
  · constructor
    · rintro rfl
      rw [he] at hd
      cases hd
    · rintro rfl
      rw [he] at hc
      cases hc

end requoted

section line

variable {style : Style}

def indented (style : Style) (line : List Char) : List Char :=
  units style ((line.takeWhile (· == ' ')).length / 2) ++
    (List.replicate ((line.takeWhile (· == ' ')).length % 2) ' ' ++ line.dropWhile (· == ' '))

theorem reindent_eq (style : Style) (line : List Char) :
    reindent style line =
      if Fits style line then .ok (indented style line) else .error .layout := by
  have hindentation : indentation style ((line.takeWhile (· == ' ')).length / 2) =
      if Fits style line then .ok (units style ((line.takeWhile (· == ' ')).length / 2))
      else .error .layout := indentation_eq style _
  unfold reindent
  dsimp only
  rw [hindentation]
  split
  · exact congrArg Except.ok (List.append_assoc _ _ _)
  · rfl

/-- A line without blanks at its end, and whether it is one of a comment. -/
structure MarkedLine where
  comment : Bool
  text : List Char

def marked (inComment : Bool) : List (List Char) → List MarkedLine
  | [] => []
  | line :: rest =>
    ⟨inComment || opensComment (Text.trimEnd line) || isLineComment (Text.trimEnd line),
      Text.trimEnd line⟩ :: marked (commentAfter inComment (Text.trimEnd line)) rest

def MarkedLine.written (style : Style) (m : MarkedLine) : List Char :=
  if m.comment then indented style m.text else codeLine style (indented style m.text)

def MarkedLine.written? (style : Style) (m : MarkedLine) : Option (List Char) :=
  if m.text = [] then none else some (m.written style)

/-- The lines of a text from what is written for each of its lines: an empty line stands for blank
lines if there is something before them and behind them. -/
def separated (started blank : Bool) : List (Option (List Char)) → List (List Char)
  | [] => []
  | none :: os => separated started true os
  | some l :: os => (if blank && started then [[]] else []) ++ l :: separated true false os

theorem commentAfter_nil (inComment : Bool) : commentAfter inComment [] = inComment := by
  have hopens : opensComment [] = false := rfl
  have hcloses : closesComment [] = false := rfl
  rw [commentAfter, hopens, hcloses, Bool.or_false]
  rfl

def AllFit (style : Style) (ms : List MarkedLine) : Prop :=
  ∀ m ∈ ms, m.text ≠ [] → Fits style m.text

theorem allFit_cons {m : MarkedLine} {ms : List MarkedLine} :
    AllFit style (m :: ms) ↔ (m.text ≠ [] → Fits style m.text) ∧ AllFit style ms :=
  List.forall_mem_cons

instance (style : Style) (ms : List MarkedLine) : Decidable (AllFit style ms) :=
  inferInstanceAs (Decidable (∀ m ∈ ms, m.text ≠ [] → Fits style m.text))

/-- The lines of a text are written one by one, unless an indentation cannot be made. -/
theorem styledLines_eq (style : Style) (p : Position) (ls : List (List Char)) :
    styledLines style p ls =
      if AllFit style (marked p.inComment ls) then
        .ok (separated p.started p.blank ((marked p.inComment ls).map (·.written? style)))
      else .error .layout := by
  -- the position carries whether a comment is open and whether blank lines are held back
  induction ls generalizing p with
  | nil => exact (if_pos fun _ h => nomatch h).symm
  | cons line rest ih =>
    rw [styledLines, marked]
    simp only [allFit_cons, List.map_cons]
    generalize Text.trimEnd line = line
    by_cases hline : line = []
    · subst hline
      have hblank : MarkedLine.written? style
          ⟨p.inComment || opensComment [] || isLineComment [], []⟩ = none := rfl
      simp only [hblank, commentAfter_nil, separated]
      simpa using ih { p with blank := true }
    · have hwritten : ∀ comment, MarkedLine.written? style ⟨comment, line⟩ =
          some (if comment then indented style line else codeLine style (indented style line)) :=
        fun comment => if_neg hline
      simp only [hwritten, separated, reindent_eq, ih, List.isEmpty_iff, hline, ne_eq,
        not_false_eq_true, forall_const, if_false]
      by_cases hfits : Fits style line
      · by_cases hrest : AllFit style (marked (commentAfter p.inComment line) rest)
        · simp only [hfits, hrest, and_self, if_true]
          rfl
        · simp only [hfits, hrest, and_false, if_true, if_false]
          rfl
      · simp only [hfits, false_and, if_false]
        rfl

/-- The lines of a formatted text are those of the text with imports laid out, each written by
itself. -/
theorem format_eq_ok_iff {text out : String} :
    format (some style) text = .ok out ↔
      ∃ laid, importLines style none (Text.lines text.toList) = .ok laid ∧
        AllFit style (marked false laid) ∧ out = String.ofList (Text.unlines
          (separated false false ((marked false laid).map (·.written? style)))) := by
  unfold format formatChars
  dsimp only
  cases importLines style none (Text.lines text.toList) with
  | error e => exact ⟨(nomatch ·), fun ⟨_, h, _⟩ => nomatch h⟩
  | ok laid =>
    have hstyled := styledLines_eq style .start laid
    have hbind : ((do return Text.unlines (← styledLines style .start laid)) :
        Except Error (List Char)).map String.ofList = .ok out ↔
        AllFit style (marked false laid) ∧ out = String.ofList (Text.unlines
          (separated false false ((marked false laid).map (·.written? style)))) := by
      rw [hstyled]
      split
      · next hfit =>
        constructor
        · exact fun h => ⟨hfit, (Except.ok.inj h).symm⟩
        · rintro ⟨-, rfl⟩
          rfl
      · next hfit => exact ⟨(nomatch ·), fun h => absurd h.1 hfit⟩
    constructor
    · exact fun h => ⟨laid, rfl, hbind.1 h⟩
    · rintro ⟨_, ⟨⟩, h⟩
      exact hbind.2 h

end line

end ApiTypes.Layout
