import ApiTypes.Proofs.Layout.Statement
import ApiTypes.Proofs.Layout.Written
import ApiTypes.Proofs.Text.NonEmptyLines
import Mathlib.Data.List.Chain
import Mathlib.Data.List.TakeWhile
import Mathlib.Tactic.MkIffOfInductiveProp

namespace ApiTypes

/-- The lines are what stands before the line breaks of the text. -/
theorem Text.splitOn_unlines {ls : List (List Char)} (h : ∀ l ∈ ls, '\n' ∉ l) :
    (Text.unlines ls).splitOn '\n' = ls ++ [[]] := by
  induction ls with
  | nil => rfl
  | cons l ls ih =>
    obtain ⟨hl, hls⟩ := List.forall_mem_cons.1 h
    have hcons : Text.unlines (l :: ls) = l ++ '\n' :: Text.unlines ls := by simp [Text.unlines]
    rw [hcons, List.splitOn_append_cons_self, List.splitOn_eq_singleton hl, ih hls]
    rfl

namespace Layout

section normal

def EndsBlank (l : List Char) : Prop :=
  ∃ c, l.getLast? = some c ∧ Text.isBlank c

/-- No line ends in a blank, and each blank line stands between two lines that are not blank. -/
@[mk_iff normal_iff_fields]
structure Normal (ls : List (List Char)) : Prop where
  ends : ∀ l ∈ ls, ¬ EndsBlank l
  first : ∀ l ∈ ls.head?, ¬ Text.Blanks l
  last : ∀ l ∈ ls.getLast?, ¬ Text.Blanks l
  parted : ls.IsChain fun l l' => ¬ (Text.Blanks l ∧ Text.Blanks l')

/-- A text in normal form is empty or ends in one line break, because its last line is not blank. -/
def NormalForm (text : List Char) : Prop :=
  ∃ ls, text = Text.unlines ls ∧ (∀ l ∈ ls, '\n' ∉ l) ∧ Normal ls

theorem normalForm_unlines {ls : List (List Char)} (h : ∀ l ∈ ls, '\n' ∉ l) :
    NormalForm (Text.unlines ls) ↔ Normal ls := by
  constructor
  · rintro ⟨ls', hls', h', hnormal⟩
    have hsplit := congrArg (List.splitOn '\n') hls'
    rw [Text.splitOn_unlines h, Text.splitOn_unlines h'] at hsplit
    rwa [List.append_cancel_right hsplit]
  · exact fun hnormal => ⟨ls, rfl, h, hnormal⟩

theorem not_endsBlank_nil : ¬ EndsBlank [] := by
  simp [EndsBlank]

theorem endsBlank_concat {l : List Char} {c : Char} : EndsBlank (l ++ [c]) ↔ Text.isBlank c := by
  simp [EndsBlank]

theorem endsBlank_append {l l' : List Char} (h : l' ≠ []) : EndsBlank (l ++ l') ↔ EndsBlank l' := by
  rw [EndsBlank, List.getLast?_append_of_ne_nil l h, EndsBlank]

theorem endsBlank_of_blanks {l : List Char} (h : Text.Blanks l) : EndsBlank l ↔ l ≠ [] := by
  obtain rfl | ⟨u, c, rfl⟩ := List.eq_nil_or_concat l
  · exact iff_of_false not_endsBlank_nil (by simp)
  · rw [List.concat_eq_append, endsBlank_concat]
    exact iff_of_true (h c (by simp)) (by simp)

/-- Of the lines without a blank at their end only the empty one is blank. -/
theorem blanks_iff_of_not_endsBlank {l : List Char} (h : ¬ EndsBlank l) :
    Text.Blanks l ↔ l = [] := by
  constructor
  · exact fun hblanks => not_not.1 (mt (endsBlank_of_blanks hblanks).2 h)
  · rintro rfl
    exact Text.blanks_nil

/-- A list between two items that stand for its ends. -/
theorem isChain_between {α : Type} {R : α → α → Prop} {z : α} {xs : List α} (hne : xs ≠ []) :
    List.IsChain R (z :: (xs ++ [z])) ↔
      (∀ x ∈ xs.head?, R z x) ∧ (∀ x ∈ xs.getLast?, R x z) ∧ List.IsChain R xs := by
  obtain ⟨x, xs, rfl⟩ := List.exists_cons_of_ne_nil hne
  rw [List.isChain_cons, List.isChain_append]
  simp only [List.cons_append, List.head?_cons, List.isChain_singleton, Option.mem_def,
    Option.some.injEq, forall_eq', true_and]
  tauto

def Parted (l l' : List Char) : Prop :=
  ¬ (l = [] ∧ l' = [])

theorem parted_left {l l' : List Char} (h : l ≠ []) : Parted l l' := fun hboth => h hboth.1

theorem parted_nil_left {l : List Char} : Parted [] l ↔ l ≠ [] := by
  simp [Parted]

theorem parted_nil_right {l : List Char} : Parted l [] ↔ l ≠ [] := by
  simp [Parted]

/-- With an empty line put before and behind, lines in normal form have no two empty lines in a
row. -/
theorem normal_iff {ls : List (List Char)} :
    Normal ls ↔ (∀ l ∈ ls, ¬ EndsBlank l) ∧
      (ls = [] ∨ List.IsChain Parted ([] :: (ls ++ [[]]))) := by
  by_cases hls : ls = []
  · subst hls
    exact ⟨fun h => ⟨h.ends, .inl rfl⟩, fun _ => ⟨by simp, by simp, by simp, .nil⟩⟩
  rw [normal_iff_fields, isChain_between hls, or_iff_right hls]
  refine and_congr_right fun hends => ?_
  -- a blank line that does not end in a blank is empty
  have hblank : ∀ l ∈ ls, (Text.Blanks l ↔ l = []) :=
    fun l hl => blanks_iff_of_not_endsBlank (hends l hl)
  refine and_congr ?_ (and_congr ?_ ?_)
  · exact forall₂_congr fun l hl => by
      rw [parted_nil_left, hblank l (List.mem_of_mem_head? hl)]
  · exact forall₂_congr fun l hl => by
      rw [parted_nil_right, hblank l (List.mem_of_mem_getLast? hl)]
  · refine List.IsChain.iff_of_mem_imp fun l l' hl hl' => ?_
    rw [hblank l hl, hblank l' hl', Parted]

end normal

section separated

def Full (o : Option (List Char)) : Prop :=
  ∃ l, o = some l ∧ l ≠ []

def Tolerates (o o' : Option (List Char)) : Prop :=
  (o = some [] → Full o') ∧ (o' = some [] → Full o)

theorem tolerates_none_left {o : Option (List Char)} : Tolerates none o ↔ o ≠ some [] := by
  simp [Tolerates, Full]

theorem tolerates_none_right {o : Option (List Char)} : Tolerates o none ↔ o ≠ some [] := by
  simp [Tolerates, Full]

theorem tolerates_some {l l' : List Char} : Tolerates (some l) (some l') ↔ Parted l l' := by
  simp [Tolerates, Full, Parted]
  tauto

/-- Blank lines behind something lead to an empty line, or the text ends with them. -/
theorem exists_separated_eq_cons (os : List (Option (List Char))) :
    ∃ ls, separated true true os ++ [[]] = [] :: ls := by
  induction os with
  | nil => exact ⟨[], rfl⟩
  | cons o os ih =>
    cases o with
    | none => exact ih
    | some l => exact ⟨_, rfl⟩

/-- The lines behind a full line, with blank lines between or not, and those behind an empty
line. -/
theorem isChain_separated_started (os : List (Option (List Char))) :
    (∀ p blank, p ≠ [] →
      (List.IsChain Parted (p :: (separated true blank os ++ [[]])) ↔
        List.IsChain Tolerates ((if blank then none else some p) :: (os ++ [none])))) ∧
    (List.IsChain Parted ([] :: (separated true false os ++ [[]])) ↔
      List.IsChain Tolerates (some [] :: (os ++ [none]))) := by
  -- the two halves go through the lines together: the line before was empty, or it was not and
  -- blank lines may have come behind it
  induction os with
  | nil =>
    refine ⟨fun p blank hp => ?_, ?_⟩
    · cases blank <;> simp [separated, parted_left hp, tolerates_none_right, hp]
    · simp [separated, Parted, tolerates_none_right]
  | cons o os ih =>
    obtain ⟨ihfull, ihempty⟩ := ih
    cases o with
    | none =>
      refine ⟨fun p blank hp => ?_, ?_⟩
      · have hnone : Tolerates (if blank then none else some p) none := by
          cases blank <;> simp [tolerates_none_right, hp]
        rw [separated, List.cons_append, List.isChain_cons_cons]
        simpa [hnone] using ihfull p true hp
      · obtain ⟨ls, hls⟩ := exists_separated_eq_cons os
        have hnot : ¬ List.IsChain Parted ([] :: (separated true false (none :: os) ++ [[]])) := by
          rw [separated, hls, List.isChain_cons_cons]
          exact fun h => h.1 ⟨rfl, rfl⟩
        refine iff_of_false hnot ?_
        rw [List.cons_append, List.isChain_cons_cons, tolerates_none_right]
        exact fun h => h.1 rfl
    | some l =>
      have hline : List.IsChain Parted (l :: (separated true false os ++ [[]])) ↔
          List.IsChain Tolerates (some l :: (os ++ [none])) := by
        by_cases hl : l = []
        · rw [hl]
          exact ihempty
        · exact ihfull l false hl
      refine ⟨fun p blank hp => ?_, ?_⟩
      · cases blank with
        | true =>
          simp [separated, List.isChain_cons_cons, parted_left hp, parted_nil_left,
            tolerates_none_left, hline]
        | false =>
          simp [separated, List.isChain_cons_cons, parted_left hp, tolerates_some, hline]
      · simp [separated, List.isChain_cons_cons, tolerates_some, hline]

/-- No two empty lines are written in a row if neighbours go together; the ends of the text count as
lines for which nothing is written. -/
theorem isChain_separated (blank : Bool) (os : List (Option (List Char))) :
    separated false blank os = [] ∨
        List.IsChain Parted ([] :: (separated false blank os ++ [[]])) ↔
      List.IsChain Tolerates (none :: (os ++ [none])) := by
  induction os generalizing blank with
  | nil => simp [separated, tolerates_none_left]
  | cons o os ih =>
    cases o with
    | none => simpa [separated, tolerates_none_left] using ih true
    | some l =>
      by_cases hl : l = []
      · simp [separated, hl, parted_nil_left, tolerates_none_left]
      · have hline := (isChain_separated_started os).1 l false hl
        simpa [separated, List.isChain_cons_cons, parted_nil_left, tolerates_none_left, hl]
          using hline

/-- The lines that are put in are empty. -/
theorem forall_separated (started blank : Bool) (os : List (Option (List Char))) :
    (∀ l ∈ separated started blank os, ¬ EndsBlank l) ↔ ∀ l, some l ∈ os → ¬ EndsBlank l := by
  induction os generalizing started blank with
  | nil => simp [separated]
  | cons o os ih =>
    cases o with
    | none => simpa [separated] using ih started true
    | some l => cases hgap : blank && started <;> simp [separated, hgap, ih, not_endsBlank_nil]

end separated

section written

variable {style : Style}

theorem span_concat {p : Char → Bool} {c : Char} (hc : p c = false) (u : List Char) :
    (u ++ [c]).takeWhile p = u.takeWhile p ∧ (u ++ [c]).dropWhile p = u.dropWhile p ++ [c] := by
  induction u with
  | nil => simp [hc]
  | cons d u ih =>
    cases hd : p d with
    | false => simp [hd]
    | true => simpa [hd] using ih

theorem indented_concat {c : Char} (hc : c ≠ ' ') (u : List Char) :
    indented style (u ++ [c]) = indented style u ++ [c] := by
  obtain ⟨htake, hdrop⟩ := span_concat (p := (· == ' ')) (beq_false_of_ne hc) u
  rw [indented, htake, hdrop, indented, List.append_assoc, List.append_assoc]

theorem blanks_units (style : Style) (levels : Nat) : Text.Blanks (units style levels) := by
  intro c hc
  obtain ⟨part, hpart, hc⟩ := List.mem_flatten.1 hc
  rw [List.eq_of_mem_replicate hpart] at hc
  split at hc
  · obtain rfl := List.mem_singleton.1 hc
    rfl
  · obtain rfl := List.eq_of_mem_replicate hc
    rfl

/-- The end of a line is not changed by another indentation, unless there is nothing else. -/
theorem endsBlank_indented {u : List Char} :
    EndsBlank (indented style u) ↔ indented style u ≠ [] ∧ EndsBlank u := by
  have hline : u.takeWhile (· == ' ') ++ u.dropWhile (· == ' ') = u :=
    List.takeWhile_append_dropWhile
  -- a line of spaces may be lost with its indentation; any other line keeps its end
  by_cases hdrop : u.dropWhile (· == ' ') = []
  · have hspaces : Text.Blanks u := by
      intro c hc
      rw [← hline, hdrop, List.append_nil] at hc
      obtain rfl : c = ' ' := by simpa using List.mem_takeWhile_imp hc
      rfl
    have hindented : Text.Blanks (indented style u) := by
      rw [indented, hdrop, List.append_nil]
      refine (blanks_units style _).append fun c hc => ?_
      obtain rfl := List.eq_of_mem_replicate hc
      rfl
    rw [endsBlank_of_blanks hindented, endsBlank_of_blanks hspaces]
    refine (and_iff_left_of_imp ?_).symm
    rintro hne rfl
    exact hne (by simp [indented, units])
  · have hend : EndsBlank (indented style u) ↔ EndsBlank u := by
      rw [← hline, endsBlank_append hdrop, hline, indented, ← List.append_assoc,
        endsBlank_append hdrop]
    rw [hend]
    exact (and_iff_right (by simp [indented, hdrop])).symm

theorem endsBlank_of_forall₂ {u v : List Char} (h : List.Forall₂ AlikeChar u v) :
    EndsBlank v ↔ EndsBlank u := by
  induction h with
  | nil => rfl
  | @cons c d u v hc h ih =>
    by_cases hu : u = []
    · subst hu
      obtain rfl := List.forall₂_nil_left_iff.1 h
      simp [EndsBlank, hc.isBlank_eq]
    · have hv : v ≠ [] := by
        rintro rfl
        exact hu (List.forall₂_nil_right_iff.1 h)
      rw [← List.singleton_append, endsBlank_append hv, ih, ← List.singleton_append (x := c),
        endsBlank_append hu]

/-- A line of code that loses its last semicolon, and what stands before it. -/
def MarkedLine.Loses (style : Style) (m : MarkedLine) (u : List Char) : Prop :=
  style.semi = false ∧ m.comment = false ∧ m.text = u ++ [';']

/-- A line of which nothing is left but its semicolon, which it loses. -/
def MarkedLine.Bare (style : Style) (m : MarkedLine) : Prop :=
  ∃ u, m.Loses style u ∧ indented style u = []

def MarkedLine.Ragged (style : Style) (m : MarkedLine) : Prop :=
  ∃ u, m.Loses style u ∧ indented style u ≠ [] ∧ EndsBlank u

def MarkedLine.Full (style : Style) (m : MarkedLine) : Prop :=
  m.text ≠ [] ∧ ¬ m.Bare style

/-- The end of a line is written as it is, up to quotes, unless it loses a semicolon. -/
theorem written_of_concat (style : Style) {m : MarkedLine} {u : List Char} {c : Char}
    (htext : m.text = u ++ [c]) (hc : c ≠ ' ') :
    (∃ v, m.Loses style u ∧ m.written style = v ∧ List.Forall₂ AlikeChar (indented style u) v) ∨
      ∃ v d, ¬ m.Loses style u ∧ m.written style = v ++ [d] ∧ AlikeChar c d := by
  have hindented : indented style m.text = indented style u ++ [c] := by
    rw [htext, indented_concat hc]
  cases hcomment : m.comment with
  | true =>
    refine .inr ⟨indented style u, c, ?_, ?_, .inl rfl⟩
    · rintro ⟨-, hnot, -⟩
      rw [hcomment] at hnot
      cases hnot
    · rw [MarkedLine.written, hcomment, if_pos rfl, hindented]
  | false =>
    -- a line of code keeps its last character but for the kind of a quote, so a semicolon at its
    -- end was one before
    have halike := forall₂_requote (isQuote_wantedQuote style) (indented style u ++ [c])
    obtain ⟨v, _, hrequote, hv, hlast⟩ := halike.exists_append
    obtain ⟨d, _, hcd, hnil, rfl⟩ := List.forall₂_cons_left_iff.1 hlast
    obtain rfl := List.forall₂_nil_left_iff.1 hnil
    have hwritten : m.written style =
        if style.semi then v ++ [d] else dropSemicolon (v ++ [d]) := by
      rw [MarkedLine.written, hcomment, if_neg Bool.false_ne_true, hindented, ← hrequote]
      rfl
    cases hsemi : style.semi with
    | true =>
      refine .inr ⟨v, d, ?_, ?_, hcd⟩
      · rintro ⟨hnot, -, -⟩
        rw [hsemi] at hnot
        cases hnot
      · rw [hwritten, hsemi, if_pos rfl]
    | false =>
      rw [hsemi, if_neg Bool.false_ne_true] at hwritten
      by_cases hd : d = ';'
      · refine .inl ⟨v, ⟨hsemi, hcomment, ?_⟩, ?_, hv⟩
        · rw [htext, (hcd.eq_iff rfl).1 hd]
        · rw [hwritten, hd]
          simp [dropSemicolon]
      · refine .inr ⟨v, d, ?_, ?_, hcd⟩
        · rintro ⟨-, -, hlose⟩
          rw [htext] at hlose
          obtain rfl := List.singleton_injective (List.append_cancel_left hlose)
          exact hd ((hcd.eq_iff rfl).2 rfl)
        · rw [hwritten]
          simp [dropSemicolon, hd]

theorem written_of_trimmed (style : Style) {m : MarkedLine} (h : Text.Trimmed m.text) :
    (m.written style = [] ↔ m.Bare style) ∧ (EndsBlank (m.written style) ↔ m.Ragged style) := by
  obtain ⟨u, c, htext, hc⟩ := h
  have hspace : c ≠ ' ' := by
    rintro rfl
    cases hc
  -- what is left of a line is determined, as only its last character can be lost
  have hloses : ∀ {v : List Char}, m.Loses style v → v = u := by
    rintro v ⟨-, -, hv⟩
    rw [htext] at hv
    exact (List.append_inj_left' hv rfl).symm
  obtain ⟨v, hlose, hwritten, halike⟩ | ⟨v, d, hlose, hwritten, hcd⟩ :=
    written_of_concat style htext hspace
  · rw [hwritten, endsBlank_of_forall₂ halike, endsBlank_indented]
    constructor
    · have hnil : v = [] ↔ indented style u = [] := by
        rw [← List.length_eq_zero_iff, ← halike.length_eq, List.length_eq_zero_iff]
      rw [hnil]
      refine ⟨fun h => ⟨u, hlose, h⟩, ?_⟩
      rintro ⟨w, hw, h⟩
      rwa [← hloses hw]
    · refine ⟨fun h => ⟨u, hlose, h⟩, ?_⟩
      rintro ⟨w, hw, h⟩
      rwa [← hloses hw]
  · -- nothing is lost, so the line ends as it did
    have hnone : ∀ w, ¬ m.Loses style w := by
      intro w hw
      rw [hloses hw] at hw
      exact hlose hw
    have hend : ¬ EndsBlank (v ++ [d]) := by
      simp [endsBlank_concat, hcd.isBlank_eq, hc]
    rw [hwritten]
    exact ⟨iff_of_false (by simp) fun ⟨w, hw, _⟩ => hnone w hw,
      iff_of_false hend fun ⟨w, hw, _⟩ => hnone w hw⟩

theorem eq_written_of_written? {m : MarkedLine} {l : List Char} (h : m.written? style = some l) :
    l = m.written style := by
  unfold MarkedLine.written? at h
  split at h
  · cases h
  · exact (Option.some.inj h).symm

theorem newline_not_mem_written {m : MarkedLine} (h : '\n' ∉ m.text) : '\n' ∉ m.written style := by
  have hindented : '\n' ∉ indented style m.text := by
    have hunits : ∀ levels, '\n' ∉ units style levels := fun levels hn => (ne_of_mem_units hn).1 rfl
    have hdrop : '\n' ∉ m.text.dropWhile (· == ' ') :=
      fun hn => h ((List.dropWhile_suffix _).subset hn)
    simp [indented, hunits, hdrop]
  -- a quote is never changed into a line break
  have hrequote : '\n' ∉ requote (wantedQuote style) (indented style m.text) := by
    intro hn
    obtain ⟨c, hc, halike⟩ :=
      (forall₂_requote (isQuote_wantedQuote style) (indented style m.text)).exists_left hn
    rw [(halike.eq_iff rfl).1 rfl] at hc
    exact hindented hc
  have hdrop : ∀ {line : List Char}, '\n' ∉ line → '\n' ∉ dropSemicolon line := by
    intro line hline
    unfold dropSemicolon
    split
    · exact fun hn => hline (List.dropLast_subset line hn)
    · exact hline
  have hcode : '\n' ∉ codeLine style (indented style m.text) := by
    rw [codeLine, ← wantedQuote]
    split
    · exact hrequote
    · exact hdrop hrequote
  unfold MarkedLine.written
  split
  · exact hindented
  · exact hcode

end written

section format

variable {style : Style} {ls : List (List Char)} {inComment : Bool}

theorem exists_of_mem_marked {m : MarkedLine} (h : m ∈ marked inComment ls) :
    ∃ l ∈ ls, m.text = Text.trimEnd l := by
  induction ls generalizing inComment with
  | nil => cases h
  | cons l ls ih =>
    obtain rfl | h := List.mem_cons.1 h
    · exact ⟨l, List.mem_cons_self, rfl⟩
    · obtain ⟨l', hl', htext⟩ := ih h
      exact ⟨l', List.mem_cons_of_mem l hl', htext⟩

/-- No semicolon is lost behind a blank, and one that stands alone on its line is lost only between
lines of which more is left. -/
@[mk_iff]
structure Tight (style : Style) (ms : List MarkedLine) : Prop where
  ends : ∀ m ∈ ms, ¬ m.Ragged style
  first : ∀ m ∈ ms.head?, ¬ m.Bare style
  last : ∀ m ∈ ms.getLast?, ¬ m.Bare style
  parted : ms.IsChain fun m m' =>
    (m.Bare style → m'.Full style) ∧ (m'.Bare style → m.Full style)

theorem newline_not_mem_separated {started blank : Bool} {os : List (Option (List Char))}
    (h : ∀ l, some l ∈ os → '\n' ∉ l) : ∀ l ∈ separated started blank os, '\n' ∉ l := by
  induction os generalizing started blank with
  | nil => simp [separated]
  | cons o os ih =>
    have hos : ∀ l, some l ∈ os → '\n' ∉ l := fun l hl => h l (List.mem_cons_of_mem o hl)
    cases o with
    | none => exact ih hos
    | some l =>
      have hl : '\n' ∉ l := h l List.mem_cons_self
      have hgap : ∀ l' ∈ if blank && started then [[]] else ([] : List (List Char)), '\n' ∉ l' := by
        split <;> simp
      exact List.forall_mem_append.2 ⟨hgap, List.forall_mem_cons.2 ⟨hl, ih hos⟩⟩

theorem written?_of_mem_marked (style : Style) {m : MarkedLine} (h : m ∈ marked inComment ls) :
    (m.written? style = some [] ↔ m.Bare style) ∧ (Full (m.written? style) ↔ m.Full style) ∧
      ((∀ l, m.written? style = some l → ¬ EndsBlank l) ↔ ¬ m.Ragged style) := by
  obtain ⟨line, -, htext⟩ := exists_of_mem_marked h
  have hnone : m.text = [] → ∀ u, ¬ m.Loses style u := by
    rintro hnil u ⟨-, -, hu⟩
    rw [hnil] at hu
    simp at hu
  unfold MarkedLine.written? MarkedLine.Full Full
  -- a blank line has nothing to lose
  by_cases hnil : m.text = []
  · have hbare : ¬ m.Bare style := fun ⟨u, hu, _⟩ => hnone hnil u hu
    have hragged : ¬ m.Ragged style := fun ⟨u, hu, _⟩ => hnone hnil u hu
    simp [hnil, hbare, hragged]
  · have htrimmed : Text.Trimmed m.text := by
      rw [htext] at hnil ⊢
      exact Text.trimmed_trimEnd hnil
    obtain ⟨hbare, hragged⟩ := written_of_trimmed style htrimmed
    simp [hnil, hbare, hragged]

/-- The lines that are written are in normal form if the lines that were read are tight. -/
theorem normal_separated_iff : Normal (separated false false ((marked inComment ls).map
    (·.written? style))) ↔ Tight style (marked inComment ls) := by
  have hwritten := fun m (hm : m ∈ marked inComment ls) =>
    written?_of_mem_marked style hm
  generalize marked inComment ls = ms at hwritten ⊢
  have hends : (∀ l, some l ∈ ms.map (·.written? style) → ¬ EndsBlank l) ↔
      ∀ m ∈ ms, ¬ m.Ragged style := by
    constructor
    · intro h m hm
      exact (hwritten m hm).2.2.1 fun l hl => h l (List.mem_map.2 ⟨m, hm, hl⟩)
    · intro h l hl
      obtain ⟨m, hm, hl⟩ := List.mem_map.1 hl
      exact (hwritten m hm).2.2.2 (h m hm) l hl
  have htolerates : ∀ m m', m ∈ ms → m' ∈ ms →
      (Tolerates (m.written? style) (m'.written? style) ↔
        (m.Bare style → m'.Full style) ∧ (m'.Bare style → m.Full style)) := by
    intro m m' hm hm'
    rw [Tolerates, (hwritten m hm).1, (hwritten m' hm').1, (hwritten m hm).2.1,
      (hwritten m' hm').2.1]
  -- what the written lines are, in terms of the lines they are written for; then neighbours are
  -- compared
  rw [normal_iff, forall_separated, isChain_separated, hends, tight_iff]
  refine and_congr_right fun _ => ?_
  by_cases hnil : ms = []
  · subst hnil
    simp [tolerates_none_left]
  rw [isChain_between (by simpa using hnil), List.isChain_map, List.head?_map, List.getLast?_map]
  refine and_congr ?_ (and_congr ?_ ?_)
  · simp only [Option.mem_def, Option.map_eq_some_iff, forall_exists_index, and_imp,
      forall_apply_eq_imp_iff₂, tolerates_none_left]
    exact forall₂_congr fun m hm => not_congr (hwritten m (List.mem_of_mem_head? hm)).1
  · simp only [Option.mem_def, Option.map_eq_some_iff, forall_exists_index, and_imp,
      forall_apply_eq_imp_iff₂, tolerates_none_right]
    exact forall₂_congr fun m hm => not_congr (hwritten m (List.mem_of_mem_getLast? hm)).1
  · exact List.IsChain.iff_of_mem_imp htolerates

theorem tight_of_semi (hsemi : style.semi = true) (ms : List MarkedLine) : Tight style ms := by
  have hloses : ∀ (m : MarkedLine) u, ¬ m.Loses style u := by
    rintro m u ⟨hnot, -, -⟩
    rw [hsemi] at hnot
    cases hnot
  have hbare : ∀ m : MarkedLine, ¬ m.Bare style := fun m ⟨u, hu, _⟩ => hloses m u hu
  have hragged : ∀ m : MarkedLine, ¬ m.Ragged style := fun m ⟨u, hu, _⟩ => hloses m u hu
  exact ⟨fun m _ => hragged m, fun m _ => hbare m, fun m _ => hbare m,
    (List.pairwise_of_forall fun m m' =>
      ⟨fun h => absurd h (hbare m), fun h => absurd h (hbare m')⟩).isChain⟩

/-- A formatted text is in normal form if the style keeps semicolons, and else exactly if its lines,
once imports are laid out, are tight. -/
theorem format_normalForm_iff {style : Style} {text out : String}
    (h : format (some style) text = .ok out) :
    ∃ laid, importLines style none (Text.lines text.toList) = .ok laid ∧
      (style.semi = true → NormalForm out.toList) ∧
      (NormalForm out.toList ↔ Tight style (marked false laid)) := by
  obtain ⟨laid, hlaid, -, rfl⟩ := format_eq_ok_iff.1 h
  have hlines : ∀ l ∈ laid, '\n' ∉ l :=
    newline_not_mem_importLines (by simp) (fun l hl => Text.newline_not_mem_lines hl) hlaid
  have hwritten : ∀ l ∈ separated false false ((marked false laid).map (·.written? style)),
      '\n' ∉ l := by
    refine newline_not_mem_separated fun l hl => ?_
    obtain ⟨m, hm, hl⟩ := List.mem_map.1 hl
    obtain ⟨line, hline, htext⟩ := exists_of_mem_marked hm
    have hm : '\n' ∉ m.text := by
      rw [htext]
      exact fun hn => hlines line hline ((Text.trimEnd_prefix line).subset hn)
    rw [eq_written_of_written? hl]
    exact newline_not_mem_written hm
  rw [String.toList_ofList, normalForm_unlines hwritten, normal_separated_iff]
  exact ⟨laid, hlaid, fun hsemi => tight_of_semi hsemi _, .rfl⟩

def withoutSemicolons : Style :=
  { Style.default with semi := false }

/-- A semicolon that stands alone between two lines leaves the one blank line that may be there. -/
theorem format_normalForm_iff_loneSemicolon :
    format (some withoutSemicolons) "\n'a';\n;\nb;  \n\n" = .ok "\"a\"\n\nb\n" ∧
      ∃ laid, importLines withoutSemicolons none (Text.lines "\n'a';\n;\nb;  \n\n".toList) =
          .ok laid ∧
        (withoutSemicolons.semi = true → NormalForm "\"a\"\n\nb\n".toList) ∧
        (NormalForm "\"a\"\n\nb\n".toList ↔ Tight withoutSemicolons (marked false laid)) :=
  have hformat : format (some withoutSemicolons) "\n'a';\n;\nb;  \n\n" = .ok "\"a\"\n\nb\n" := by
    decide +kernel
  ⟨hformat, format_normalForm_iff hformat⟩

/-- The blank before a semicolon is left when the semicolon is taken off. -/
theorem not_format_normalForm : ¬ ∀ (style : Style) (text out : String),
    format (some style) text = .ok out → NormalForm out.toList := by
  intro h
  have hformat : format (some withoutSemicolons) "a ;\n" = .ok "a \n" := by decide +kernel
  have hout : "a \n".toList = Text.unlines [['a', ' ']] := rfl
  have hnormal := h _ _ _ hformat
  rw [hout, normalForm_unlines (by decide)] at hnormal
  exact hnormal.ends ['a', ' '] (by simp) ⟨' ', rfl, rfl⟩

end format

end Layout

end ApiTypes
