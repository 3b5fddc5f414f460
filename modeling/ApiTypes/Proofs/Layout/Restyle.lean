import ApiTypes.Layout.Format
import ApiTypes.Proofs.Compile.Separate
import ApiTypes.Proofs.TypeScript.Lined

namespace ApiTypes.Layout

open TypeScript

section restyled

def units (style : Style) (levels : Nat) : List Char :=
  (List.replicate levels
    (if style.useTabs then ['\t'] else List.replicate style.tabWidth ' ')).flatten

def wantedQuote (style : Style) : Char :=
  if style.singleQuote then '\'' else '"'

/-- Only the quotes of string literals differ, and each literal still ends where it did and has the
same text. -/
inductive Requoted (wanted : Char) : List Char → List Char → Prop
  | nil : Requoted wanted [] []
  | char {c : Char} {s s' : List Char} (hc : isPlain c) (h : Requoted wanted s s') :
    Requoted wanted (c :: s) (c :: s')
  | literal {q q' : Char} {content text s s' : List Char} (hq' : q' = q ∨ q' = wanted)
    (hread : ∀ rest, literal? q (content ++ q :: rest) = some (text, rest))
    (hread' : ∀ rest, literal? q' (content ++ q' :: rest) = some (text, rest))
    (h : Requoted wanted s s') :
    Requoted wanted (q :: (content ++ q :: s)) (q' :: (content ++ q' :: s'))

/-- One semicolon at the end is left out unless the style keeps it. -/
inductive Ended (style : Style) : List Char → List Char → Prop
  | kept {s : List Char} (h : style.semi ∨ s.getLast? ≠ some ';') : Ended style s s
  | dropped {s : List Char} (h : style.semi = false) : Ended style (s ++ [';']) s

/-- What becomes of a line: in a comment only the indentation changes, in code also the quotes and
the last semicolon. -/
inductive Restyled (style : Style) : List Char → List Char → Prop
  | comment {levels odd : Nat} {s : List Char} (hodd : odd < 2)
    (hs : s.head? = some '/' ∨ s.head? = some '*') :
    Restyled style (List.replicate (2 * levels + odd) ' ' ++ s)
      (units style levels ++ (List.replicate odd ' ' ++ s))
  | code {levels odd : Nat} {c : Char} {s s' t : List Char} (hodd : odd < 2) (hblank : c ≠ ' ')
    (hslash : c ≠ '/') (hstar : c ≠ '*') (hs : Requoted (wantedQuote style) (c :: s) s')
    (ht : Ended style s' t) :
    Restyled style (List.replicate (2 * levels + odd) ' ' ++ c :: s)
      (units style levels ++ (List.replicate odd ' ' ++ t))

def Fits (style : Style) (line : List Char) : Prop :=
  style.useTabs ∨ style.tabWidth ≤ largestText ∧
    style.tabWidth * ((line.takeWhile (· == ' ')).length / 2) ≤ largestText

instance (style : Style) (line : List Char) : Decidable (Fits style line) :=
  inferInstanceAs (Decidable (_ ∨ _))

end restyled

section quotes

variable {wanted c : Char} {s w x content : List Char}

/-- Outside of literals characters are taken one by one. -/
theorem requoteFrom_none (c : Char) (s : List Char) :
    requoteFrom wanted none (c :: s) =
      if isQuote c then requoteFrom wanted (some (c, [])) s
      else c :: requoteFrom wanted none s := by
  -- the character behind a backslash is taken in the same step
  induction s generalizing c with
  | nil => simp [requoteFrom]
  | cons e s ih =>
    by_cases hb : c = '\\'
    · subst hb
      rw [ih e]
      simp [requoteFrom, isQuote]
    · rw [requoteFrom.eq_5]
      simp [hb]

theorem requote_cons (hc : isQuote c = false) (s : List Char) :
    requote wanted (c :: s) = c :: requote wanted s := by
  rw [requote, requoteFrom_none, hc]
  rfl

theorem requote_append (h : ∀ c ∈ w, isQuote c = false) (s : List Char) :
    requote wanted (w ++ s) = w ++ requote wanted s := by
  induction w with
  | nil => rfl
  | cons c w ih =>
    have hw := ih fun d hd => h d (List.mem_cons_of_mem c hd)
    rw [List.cons_append, requote_cons (h c List.mem_cons_self), hw, List.cons_append]

theorem isQuote_of_isPlain (hc : isPlain c) : isQuote c = false := by
  simp only [isPlain, List.contains_cons, List.contains_nil, Bool.or_false, Bool.not_eq_true',
    Bool.or_eq_false_iff, beq_eq_false_iff_ne] at hc
  simp [isQuote, hc.1, hc.2.1]

theorem requoteFrom_content (hq : c ≠ '"') (hb : c ≠ '\\') (content s : List Char) :
    requoteFrom wanted (some ('"', content)) (c :: s) =
      requoteFrom wanted (some ('"', c :: content)) s := by
  rw [requoteFrom.eq_6]
  · simp [hq]
  · simp [hb]

theorem requoteFrom_escapeChar (c : Char) (content s : List Char) :
    requoteFrom wanted (some ('"', content)) (escapeChar c ++ s) =
      requoteFrom wanted (some ('"', (escapeChar c).reverse ++ content)) s := by
  have hdigit : ∀ k < 16, Json.hexDigit k ≠ '"' ∧ Json.hexDigit k ≠ '\\' := by decide
  -- the digits of an escape neither end a literal nor escape anything
  have hhex : ∀ ks : List Nat, (∀ k ∈ ks, k < 16) → ∀ content,
      requoteFrom wanted (some ('"', content)) (ks.map Json.hexDigit ++ s) =
        requoteFrom wanted (some ('"', (ks.map Json.hexDigit).reverse ++ content)) s := by
    intro ks hks
    induction ks with
    | nil => exact fun _ => rfl
    | cons k ks ih =>
      intro content
      obtain ⟨hq, hb⟩ := hdigit k (hks k List.mem_cons_self)
      rw [List.map_cons, List.cons_append, requoteFrom_content hq hb,
        ih fun k hk => hks k (List.mem_cons_of_mem _ hk)]
      simp
  unfold escapeChar
  split
  case h_6 hb hq _ _ _ =>
    split
    · rw [List.cons_append, List.cons_append, requoteFrom, Json.hex4, hhex]
      · simp
      · intro k hk
        simp only [List.mem_cons, List.not_mem_nil, or_false] at hk
        omega
    · exact requoteFrom_content hq hb content s
  all_goals rfl

/-- A literal is taken as a whole. -/
theorem requote_quoted (x s : List Char) :
    requote wanted (quoted x ++ s) =
      chosenQuote wanted '"' (escape x) :: (escape x ++
        chosenQuote wanted '"' (escape x) :: requote wanted s) := by
  -- the reader takes the whole text as content, since no quote stands in it without a backslash
  have hinner : ∀ content, requoteFrom wanted (some ('"', content)) (escape x ++ '"' :: s) =
      requoteFrom wanted (some ('"', (escape x).reverse ++ content)) ('"' :: s) := by
    induction x with
    | nil => exact fun _ => rfl
    | cons c x ih =>
      intro content
      rw [escape, List.flatMap_cons, List.append_assoc, requoteFrom_escapeChar]
      simpa [escape] using ih ((escapeChar c).reverse ++ content)
  have hopen : requote wanted (quoted x ++ s) =
      requoteFrom wanted (some ('"', [])) (escape x ++ '"' :: s) := by
    rw [requote, quoted]
    simp [requoteFrom, isQuote]
  rw [hopen, hinner, requoteFrom.eq_6 _ _ _ _ _ (by simp)]
  simp [requote]

/-- A text whose literal has no escapes is the content of its literal. -/
theorem escape_eq_self (h : '\\' ∉ escape x) : escape x = x := by
  induction x with
  | nil => rfl
  | cons c x ih =>
    rw [escape, List.flatMap_cons, List.mem_append, not_or] at h
    rw [escape, List.flatMap_cons]
    have hc : escapeChar c = [c] := by
      obtain ⟨h, -⟩ := h
      unfold escapeChar at h ⊢
      split at h
      case h_6 =>
        split at h
        · simp at h
        · next hn => rw [if_neg hn]
      all_goals simp at h
    rw [hc]
    exact congrArg (c :: ·) (ih h.2)

theorem literal?_chosenQuote (hwanted : isQuote wanted) (x rest : List Char) :
    literal? (chosenQuote wanted '"' (escape x)) (escape x ++
      chosenQuote wanted '"' (escape x) :: rest) = some (x, rest) := by
  unfold chosenQuote
  split
  · exact literal?_escape x rest
  · next h =>
    simp only [Bool.or_eq_true, List.contains_iff_mem, not_or] at h
    obtain ⟨hwanted', hb⟩ := h
    have hends : ∀ d ∈ escape x, d ≠ '\n' ∧ d ≠ '\r' := fun d hd =>
      ne_of_mem_quoted (s := x) (by simp [quoted, hd])
    have hquote : wanted ≠ '\\' := by
      rintro rfl
      cases hwanted
    have := literal?_plain hwanted' hb (fun h => (hends _ h).1 rfl) (fun h => (hends _ h).2 rfl)
      hquote rest
    -- the quote changes only where nothing was escaped, and then the content is the text itself
    rwa [escape_eq_self hb] at this ⊢

theorem requoted_requote (hwanted : isQuote wanted) (h : Code s) :
    Requoted wanted s (requote wanted s) := by
  induction h with
  | nil => exact .nil
  | char hc _ ih =>
    rw [requote_cons (isQuote_of_isPlain hc)]
    exact .char hc ih
  | @literal x s _ ih =>
    rw [requote_quoted]
    have hquoted : quoted x ++ s = '"' :: (escape x ++ '"' :: s) := by simp [quoted]
    rw [hquoted]
    refine .literal ?_ (literal?_escape x) (literal?_chosenQuote hwanted x) ih
    unfold chosenQuote
    split
    · exact .inl rfl
    · exact .inr rfl

theorem mem_of_mem_requote {s' : List Char} (h : Requoted wanted s s') {d : Char} (hd : d ∈ s') :
    d = wanted ∨ d ∈ s := by
  induction h with
  | nil => exact .inr hd
  | char _ _ ih =>
    obtain rfl | hd := List.mem_cons.1 hd
    · exact .inr List.mem_cons_self
    · exact (ih hd).imp_right (List.mem_cons_of_mem _)
  | literal hq' _ _ _ ih =>
    simp only [List.mem_cons, List.mem_append] at hd ⊢
    obtain rfl | rfl := hq' <;> tauto

end quotes

section lines

variable {style : Style} {levels odd : Nat} {s : List Char}

/-- The first character behind the indentation of a comment's lines is a slash or a star. -/
def isCommentLine (line : List Char) : Bool :=
  match line.dropWhile (· == ' ') with
  | '/' :: _ | '*' :: _ => true
  | _ => false

def restyle (style : Style) (line : List Char) : Except Error (List Char) := do
  let indented ← reindent style line
  return if isCommentLine line then indented else codeLine style indented

inductive Form : List Char → Prop
  | comment {levels odd : Nat} {s : List Char} (hodd : odd < 2)
    (hs : s.head? = some '/' ∨ s.head? = some '*') :
    Form (List.replicate (2 * levels + odd) ' ' ++ s)
  | code (levels : Nat) {c : Char} {s : List Char} (hc : opensCode levels c) (hs : Code (c :: s)) :
    Form (TypeScript.indentation levels ++ c :: s)

theorem takeWhile_indented (n : Nat) (hs : s.head? ≠ some ' ') :
    (List.replicate n ' ' ++ s).takeWhile (· == ' ') = List.replicate n ' ' := by
  have hstop : s.takeWhile (· == ' ') = [] := by
    cases s with
    | nil => rfl
    | cons c s => rw [List.takeWhile_cons, if_neg (by simpa using hs)]
  rw [List.takeWhile_append_of_pos (by simp), hstop, List.append_nil]

theorem dropWhile_indented (n : Nat) (hs : s.head? ≠ some ' ') :
    (List.replicate n ' ' ++ s).dropWhile (· == ' ') = s := by
  rw [List.dropWhile_append_of_pos (by simp)]
  cases s with
  | nil => rfl
  | cons c s => rw [List.dropWhile_cons, if_neg (by simpa using hs)]

theorem fits_iff (hodd : odd < 2) (hs : s.head? ≠ some ' ') :
    Fits style (List.replicate (2 * levels + odd) ' ' ++ s) ↔ style.useTabs ∨
      style.tabWidth ≤ largestText ∧ style.tabWidth * levels ≤ largestText := by
  have hhalf : (2 * levels + odd) / 2 = levels := by omega
  rw [Fits, takeWhile_indented _ hs, List.length_replicate, hhalf]

theorem indentation_eq (style : Style) (levels : Nat) :
    indentation style levels = if style.useTabs ∨
      style.tabWidth ≤ largestText ∧ style.tabWidth * levels ≤ largestText
      then .ok (units style levels) else .error .layout := by
  have htab : ['\t'] = List.replicate 1 '\t' := rfl
  unfold indentation units
  cases style.useTabs with
  | true =>
    rw [if_pos rfl, if_pos (.inl rfl), if_pos rfl, htab, List.flatten_replicate_replicate,
      Nat.mul_one]
  | false =>
    rw [if_neg Bool.false_ne_true, if_neg Bool.false_ne_true, List.flatten_replicate_replicate,
      Nat.mul_comm levels]
    simp only [Bool.false_eq_true, false_or]
    split
    · next h => rw [if_neg (by omega)]
    · next h => rw [if_pos (by omega)]

theorem reindent_indented (hodd : odd < 2) (hs : s.head? ≠ some ' ') :
    reindent style (List.replicate (2 * levels + odd) ' ' ++ s) =
      (indentation style levels).map (· ++ (List.replicate odd ' ' ++ s)) := by
  have hhalf : (2 * levels + odd) / 2 = levels := by omega
  have hrest : (2 * levels + odd) % 2 = odd := by omega
  unfold reindent
  rw [takeWhile_indented _ hs, dropWhile_indented _ hs, List.length_replicate]
  dsimp only
  rw [hhalf, hrest]
  cases indentation style levels with
  | error e => rfl
  | ok u => exact congrArg Except.ok (List.append_assoc _ _ _)

theorem plain_units (style : Style) (levels : Nat) : ∀ c ∈ units style levels, isPlain c := by
  intro c hc
  obtain ⟨u, hu, hc⟩ := List.mem_flatten.1 hc
  rw [List.eq_of_mem_replicate hu] at hc
  split at hc
  · obtain rfl := List.mem_singleton.1 hc
    decide
  · obtain rfl := List.eq_of_mem_replicate hc
    decide

/-- Whether the last semicolon goes does not depend on what stands before the code. -/
theorem exists_ended (style : Style) (u : List Char) {s' : List Char} (hs' : s' ≠ []) :
    ∃ t, (if style.semi then u ++ s' else dropSemicolon (u ++ s')) = u ++ t ∧ Ended style s' t := by
  cases hsemi : style.semi with
  | true => exact ⟨s', rfl, .kept (.inl hsemi)⟩
  | false =>
    obtain ⟨v, c, rfl⟩ := (List.eq_nil_or_concat s').resolve_left hs'
    rw [List.concat_eq_append] at hs' ⊢
    by_cases hc : c = ';'
    · subst hc
      refine ⟨v, ?_, .dropped hsemi⟩
      simp [dropSemicolon, ← List.append_assoc]
    · refine ⟨v ++ [c], ?_, .kept (.inr (by simpa using hc))⟩
      simp [dropSemicolon, hc, ← List.append_assoc]

theorem codeLine_indented (style : Style) {c : Char} (hs : Code (c :: s)) (levels odd : Nat) :
    ∃ s' t, codeLine style (units style levels ++ (List.replicate odd ' ' ++ c :: s)) =
        units style levels ++ (List.replicate odd ' ' ++ t) ∧
      Requoted (wantedQuote style) (c :: s) s' ∧ Ended style s' t := by
  have hwanted : isQuote (wantedQuote style) := by
    unfold wantedQuote
    cases style.singleQuote <;> decide
  have hquoted := requoted_requote hwanted hs
  have hne : requote (wantedQuote style) (c :: s) ≠ [] := by
    intro h
    rw [h] at hquoted
    cases hquoted
  have hplain : ∀ d ∈ units style levels ++ List.replicate odd ' ', isPlain d := by
    intro d hd
    obtain hd | hd := List.mem_append.1 hd
    · exact plain_units style levels d hd
    · obtain rfl := List.eq_of_mem_replicate hd
      decide
  -- the indentation has no quotes, so only the code behind it changes
  obtain ⟨t, ht, hended⟩ := exists_ended style (units style levels ++ List.replicate odd ' ') hne
  refine ⟨_, t, ?_, hquoted, hended⟩
  rw [codeLine, ← List.append_assoc, ← List.append_assoc, ← ht, ← wantedQuote,
    requote_append fun d hd => isQuote_of_isPlain (hplain d hd)]

theorem isCommentLine_indented (n : Nat) (hs : s.head? ≠ some ' ') :
    isCommentLine (List.replicate n ' ' ++ s) = isCommentLine s := by
  have hself := dropWhile_indented 0 hs
  rw [List.replicate_zero, List.nil_append] at hself
  rw [isCommentLine, isCommentLine, dropWhile_indented n hs, hself]

theorem restyle_indented (hodd : odd < 2) (hs : s.head? ≠ some ' ') :
    restyle style (List.replicate (2 * levels + odd) ' ' ++ s) =
      if Fits style (List.replicate (2 * levels + odd) ' ' ++ s) then
        .ok (if isCommentLine s then units style levels ++ (List.replicate odd ' ' ++ s)
          else codeLine style (units style levels ++ (List.replicate odd ' ' ++ s)))
      else .error .layout := by
  rw [restyle, reindent_indented hodd hs, indentation_eq, isCommentLine_indented _ hs]
  simp only [fits_iff hodd hs]
  split <;> rfl

theorem isCommentLine_of_head? (hs : s.head? = some '/' ∨ s.head? = some '*') :
    s.head? ≠ some ' ' ∧ isCommentLine s = true := by
  obtain hs | hs := hs
  · obtain ⟨s, rfl⟩ := List.head?_eq_some_iff.1 hs
    exact ⟨by simp, rfl⟩
  · obtain ⟨s, rfl⟩ := List.head?_eq_some_iff.1 hs
    exact ⟨by simp, rfl⟩

theorem isCommentLine_of_opensCode {c : Char} (hc : opensCode levels c) (s : List Char) :
    c ≠ ' ' ∧ isCommentLine (c :: s) = false := by
  obtain ⟨hblank, hslash, hstar, -⟩ := hc
  have hne : c ≠ ' ' := by
    rintro rfl
    cases hblank
  have hself := dropWhile_indented 0 (s := c :: s) (by simpa using hne)
  refine ⟨hne, ?_⟩
  rw [List.replicate_zero, List.nil_append] at hself
  rw [isCommentLine, hself]
  split
  · next h => exact absurd (List.cons.inj h).1 hslash
  · next h => exact absurd (List.cons.inj h).1 hstar
  · rfl

def Tidy (l : List Char) : Prop :=
  '\n' ∉ l ∧ l.getLast? ≠ some '\r'

theorem tidy_of_forall {l : List Char} (h : ∀ c ∈ l, c ≠ '\n' ∧ c ≠ '\r') : Tidy l :=
  ⟨fun hn => (h _ hn).1 rfl, fun hr => (h _ (List.mem_of_getLast? hr)).2 rfl⟩

theorem ne_of_mem_units {c : Char} (hc : c ∈ units style levels) : c ≠ '\n' ∧ c ≠ '\r' := by
  have hplain := plain_units style levels c hc
  constructor
  · rintro rfl
    cases hplain
  · rintro rfl
    cases hplain

/-- The other indentation does not touch the end of a line. -/
theorem tidy_units_append {n : Nat} (h : Tidy (List.replicate n ' ' ++ s)) (hs : s ≠ []) :
    Tidy (units style levels ++ (List.replicate odd ' ' ++ s)) := by
  obtain ⟨hn, hr⟩ := h
  constructor
  · simp only [List.mem_append, not_or] at hn ⊢
    refine ⟨fun hu => (ne_of_mem_units hu).1 rfl, fun ho => ?_, hn.2⟩
    cases List.eq_of_mem_replicate ho
  · rw [List.getLast?_append_of_ne_nil _ hs] at hr
    rwa [List.getLast?_append_of_ne_nil _ (by simp [hs]), List.getLast?_append_of_ne_nil _ hs]

/-- A line with an indentation that can be made is restyled; any other line is an error. -/
theorem Form.restyle {l : List Char} (h : Form l) (hl : Tidy l) :
    (Fits style l → ∃ l', restyle style l = .ok l' ∧ Tidy l' ∧ Restyled style l l') ∧
      (¬ Fits style l → restyle style l = .error .layout) := by
  cases h with
  | @comment levels odd s hodd hs =>
    obtain ⟨hblank, hcomment⟩ := isCommentLine_of_head? hs
    have hne : s ≠ [] := by
      rintro rfl
      obtain hs | hs := hs <;> cases hs
    rw [restyle_indented hodd hblank, hcomment, if_pos rfl]
    refine ⟨fun hfits => ?_, fun hfits => if_neg hfits⟩
    exact ⟨_, if_pos hfits, tidy_units_append hl hne, .comment hodd hs⟩
  | @code levels c s hc hs =>
    obtain ⟨hblank, hcode⟩ := isCommentLine_of_opensCode hc s
    obtain ⟨s', t, ht, hquoted, hended⟩ := codeLine_indented style hs levels 0
    have hindented : TypeScript.indentation levels ++ c :: s =
        List.replicate (2 * levels + 0) ' ' ++ c :: s := rfl
    -- requoting brings in no character but the wanted quote
    have htidy : ∀ d ∈ units style levels ++ (List.replicate 0 ' ' ++ t), d ≠ '\n' ∧ d ≠ '\r' := by
      intro d hd
      obtain hd | hd := List.mem_append.1 hd
      · exact ne_of_mem_units hd
      · have hs' : d ∈ s' := by
          cases hended with
          | kept => exact hd
          | dropped => exact List.mem_append_left _ hd
        obtain rfl | hd := mem_of_mem_requote hquoted hs'
        · unfold wantedQuote
          cases style.singleQuote <;> decide
        · exact ne_of_mem_code hs hd
    rw [hindented, restyle_indented (by decide) (by simpa using hblank), hcode,
      if_neg Bool.false_ne_true, ht]
    refine ⟨fun hfits => ?_, fun hfits => if_neg hfits⟩
    exact ⟨_, if_pos hfits, tidy_of_forall htidy,
      .code (by decide) hblank hc.2.1 hc.2.2.1 hquoted hended⟩

end lines

section texts

variable {style : Style} {ls : List (List Char)}

end texts

section texts

variable {text : String} {style : Style}

end texts

section schemas

open Compile

variable {workDir : String} {options : Options} {name : String} {schema : Json} {text : String}

end schemas

end ApiTypes.Layout
