import ApiTypes.Proofs.Layout.Written
import ApiTypes.Proofs.Reference.Definitions
import ApiTypes.Proofs.Text.Trimming

namespace ApiTypes

namespace Text

variable {c : Char} {s a b : List Char}

theorem splitFirst?_eq_some_iff : splitFirst? c s = some (a, b) ↔ s = a ++ c :: b ∧ c ∉ a := by
  constructor
  · exact eq_append_of_splitFirst?
  · rintro ⟨rfl, h⟩
    exact splitFirst?_append h b

theorem splitLast?_eq_some_iff : splitLast? c s = some (a, b) ↔ s = a ++ c :: b ∧ c ∉ b := by
  have hreverse : splitLast? c s = some (a, b) ↔
      splitFirst? c s.reverse = some (b.reverse, a.reverse) := by
    unfold splitLast?
    rw [Option.map_eq_some_iff]
    constructor
    · rintro ⟨⟨u, v⟩, h, he⟩
      obtain ⟨rfl, rfl⟩ := Prod.mk.inj he
      simpa using h
    · intro h
      exact ⟨_, h, by simp⟩
  rw [hreverse, splitFirst?_eq_some_iff, List.mem_reverse, List.reverse_eq_iff]
  simp

end Text

namespace Layout

section statement

variable {i : Import} {s : List Char}

/-- The items of a list: what stands between its commas, without blanks around it. -/
def itemsOf (inner : List Char) : List (List Char) :=
  ((inner.splitOn ',').map Text.trim).filter (!·.isEmpty)

theorem ofStatement?_eq_some_iff :
    Import.ofStatement? s = some i ↔ ∃ inner, s = i.head ++ '{' :: (inner ++ '}' :: i.tail) ∧
      '{' ∉ i.head ∧ '}' ∉ i.tail ∧ i.items = itemsOf inner := by
  unfold Import.ofStatement?
  simp only [Option.pure_def, Option.bind_eq_bind, Option.bind_eq_some_iff, Prod.exists,
    Text.splitFirst?_eq_some_iff, Text.splitLast?_eq_some_iff, Option.some.injEq]
  constructor
  · rintro ⟨head, _, ⟨rfl, hhead⟩, inner, tail, ⟨rfl, htail⟩, rfl⟩
    exact ⟨inner, rfl, hhead, htail, rfl⟩
  · rintro ⟨inner, rfl, hhead, htail, hitems⟩
    refine ⟨i.head, _, ⟨rfl, hhead⟩, inner, i.tail, ⟨rfl, htail⟩, ?_⟩
    obtain ⟨head, items, tail⟩ := i
    obtain rfl : items = itemsOf inner := hitems
    rfl

theorem subset_of_mem_splitOn {c : Char} {part : List Char} (h : part ∈ s.splitOn c) :
    part ⊆ s := by
  induction s using Text.separator_induction c with
  | last s hs =>
    rw [List.splitOn_eq_singleton hs, List.mem_singleton] at h
    rw [h]
    exact List.Subset.refl s
  | part u w hu ih =>
    rw [List.splitOn_append_cons_self, List.splitOn_eq_singleton hu] at h
    obtain rfl | h := List.mem_cons.1 h
    · exact List.subset_append_left _ _
    · exact List.Subset.trans (ih h)
        (List.Subset.trans (List.subset_cons_self _ _) (List.subset_append_right _ _))

theorem subset_of_mem_itemsOf {inner item : List Char} (h : item ∈ itemsOf inner) :
    item ⊆ inner := by
  obtain ⟨part, hpart, rfl⟩ := List.mem_map.1 (List.mem_filter.1 h).1
  exact List.Subset.trans (Text.trim_subset part) (subset_of_mem_splitOn hpart)

end statement

section lines

variable {style : Style} {i : Import} {pending : Option (List Char)} {ls : List (List Char)}

theorem append_eq_ok_iff {x y : Except Error (List (List Char))} {out : List (List Char)} :
    (do return (← x) ++ (← y) : Except Error (List (List Char))) = .ok out ↔
      ∃ a b, x = .ok a ∧ y = .ok b ∧ out = a ++ b := by
  cases x with
  | error e => exact ⟨(nomatch ·), fun ⟨_, _, h, _⟩ => nomatch h⟩
  | ok a =>
    cases y with
    | error e => exact ⟨(nomatch ·), fun ⟨_, _, _, h, _⟩ => nomatch h⟩
    | ok b =>
      constructor
      · intro h
        exact ⟨a, b, rfl, rfl, (Except.ok.inj h).symm⟩
      · rintro ⟨_, _, ⟨⟩, ⟨⟩, rfl⟩
        rfl

theorem cons_eq_ok_iff {line : List Char} {y : Except Error (List (List Char))}
    {out : List (List Char)} :
    (do return line :: (← y) : Except Error (List (List Char))) = .ok out ↔
      ∃ b, y = .ok b ∧ out = line :: b := by
  cases y with
  | error e => exact ⟨(nomatch ·), fun ⟨_, h, _⟩ => nomatch h⟩
  | ok b =>
    constructor
    · intro h
      exact ⟨b, rfl, (Except.ok.inj h).symm⟩
    · rintro ⟨_, ⟨⟩, rfl⟩
      rfl

theorem opensImport_iff {line : List Char} :
    opensImport line ↔ "import".toList <+: line ∧ '{' ∈ line := by
  rw [opensImport, Bool.and_eq_true, Text.startsWith_iff, List.contains_iff_mem]

/-- A line that begins as an import does, and whose first opening brace stands behind a closing one
and before none. -/
def Reversed (line : List Char) : Prop :=
  "import".toList <+: line ∧ ∃ u w, line = u ++ '{' :: w ∧ '{' ∉ u ∧ '}' ∈ u ∧ '}' ∉ w

def staysOpen (isOpen : Bool) (line : List Char) : Bool :=
  (isOpen || opensImport line) && !line.contains '}'

/-- A line with reversed braces stands where no statement is open. -/
inductive Broken : Bool → List (List Char) → Prop
  | here {line : List Char} {rest : List (List Char)} (h : Reversed line) :
    Broken false (line :: rest)
  | there {isOpen : Bool} {line : List Char} {rest : List (List Char)}
    (h : Broken (staysOpen isOpen line) rest) : Broken isOpen (line :: rest)

theorem Reversed.opensImport {line : List Char} (h : Reversed line) : opensImport line := by
  obtain ⟨himport, u, w, rfl, -⟩ := h
  exact opensImport_iff.2 ⟨himport, by simp⟩

/-- What is read of a statement up to the line that closes it. -/
def IsOpen (s : List Char) : Prop :=
  '{' ∈ s ∧ '}' ∉ s

theorem IsOpen.joined {s line : List Char} (h : IsOpen s) (hclose : '}' ∉ line) :
    IsOpen (s ++ ' ' :: Text.trim line) := by
  have htrim : '}' ∉ Text.trim line := fun hmem => hclose (Text.trim_subset line hmem)
  exact ⟨List.mem_append_left _ h.1, by simp [h.2, htrim]⟩

theorem newline_not_mem_itemLines {items : List (List Char)} (h : ∀ item ∈ items, '\n' ∉ item) :
    ∀ l ∈ itemLines style items, '\n' ∉ l := by
  fun_induction itemLines style items with
  | case1 => simp
  | case2 item =>
    have hitem := h item List.mem_cons_self
    split <;> simp [hitem]
  | case3 item items hne ih =>
    have hitem := h item List.mem_cons_self
    have hitems := ih fun x hx => h x (List.mem_cons_of_mem item hx)
    rintro l hl
    obtain rfl | hl := List.mem_cons.1 hl
    · simp [hitem]
    · exact hitems l hl

theorem newline_not_mem_intercalate {sep : List Char} (hsep : '\n' ∉ sep) {items : List (List Char)}
    (h : ∀ item ∈ items, '\n' ∉ item) : '\n' ∉ sep.intercalate items := by
  induction items with
  | nil => simp
  | cons x items ih =>
    obtain ⟨hx, hitems⟩ := List.forall_mem_cons.1 h
    cases items with
    | nil => simpa using hx
    | cons y items =>
      rw [List.intercalate_cons_cons]
      simp [hx, hsep, ih hitems]

theorem Import.newline_not_mem_lines (style : Style) (hhead : '\n' ∉ i.head)
    (hitems : ∀ item ∈ i.items, '\n' ∉ item) (htail : '\n' ∉ i.tail) :
    ∀ l ∈ i.lines style, '\n' ∉ l := by
  have hjoined : '\n' ∉ i.joined := newline_not_mem_intercalate (by decide) hitems
  unfold Import.lines
  dsimp only
  split
  · rintro l hl
    obtain rfl := List.mem_singleton.1 hl
    unfold Import.singleLine
    split <;> simp [hhead, hjoined, htail]
  · simp only [List.mem_append, List.mem_cons, List.cons_append, List.not_mem_nil, or_false]
    rintro l (rfl | hl | rfl)
    · simp [hhead]
    · exact newline_not_mem_itemLines hitems l hl
    · simp [htail]

/-- Laying out a statement brings no line breaks into its lines. -/
theorem newline_not_mem_statementLines {s : List Char} {out : List (List Char)} (hs : '\n' ∉ s)
    (h : statementLines style s = .ok out) : ∀ l ∈ out, '\n' ∉ l := by
  unfold statementLines at h
  cases hi : Import.ofStatement? s with
  | none =>
    rw [hi] at h
    cases h
  | some i =>
    rw [hi] at h
    obtain rfl := Except.ok.inj h
    obtain ⟨inner, rfl, -, -, hitems⟩ := ofStatement?_eq_some_iff.1 hi
    simp only [List.mem_append, List.mem_cons, not_or] at hs
    obtain ⟨hhead, -, hinner, -, htail⟩ := hs
    have hitem : ∀ item ∈ i.items, '\n' ∉ item := by
      rw [hitems]
      exact fun item hmem hn => hinner (subset_of_mem_itemsOf hmem hn)
    exact i.newline_not_mem_lines style hhead hitem htail

/-- The lines of a text whose imports are laid out are lines still. -/
theorem newline_not_mem_importLines {out : List (List Char)} (hpending : ∀ s ∈ pending, '\n' ∉ s)
    (hls : ∀ l ∈ ls, '\n' ∉ l) (h : importLines style pending ls = .ok out) :
    ∀ l ∈ out, '\n' ∉ l := by
  induction ls generalizing pending out with
  | nil =>
    obtain rfl := Except.ok.inj h
    simpa using hpending
  | cons line rest ih =>
    obtain ⟨hline, hrest⟩ := List.forall_mem_cons.1 hls
    have hstatement : ∀ {s : List Char}, '\n' ∉ s → (do
        return (← statementLines style s) ++ (← importLines style none rest)) = .ok out →
        ∀ l ∈ out, '\n' ∉ l := by
      intro s hs h
      obtain ⟨a, b, ha, hb, rfl⟩ := append_eq_ok_iff.1 h
      exact List.forall_mem_append.2 ⟨newline_not_mem_statementLines hs ha, ih (by simp) hrest hb⟩
    cases pending with
    | some s =>
      -- lines are joined by a blank, so none of the parts of a statement has a line break
      have hjoined : '\n' ∉ s ++ ' ' :: Text.trim line := by
        have htrim : '\n' ∉ Text.trim line := fun h => hline (Text.trim_subset line h)
        simp [hpending s rfl, htrim]
      rw [importLines] at h
      split at h
      · exact hstatement hjoined h
      · exact ih (by simpa using hjoined) hrest h
    | none =>
      rw [importLines] at h
      split at h
      · split at h
        · exact hstatement hline h
        · have htrim : '\n' ∉ Text.trimEnd line := fun h =>
            hline ((Text.trimEnd_prefix line).subset h)
          exact ih (by simpa using htrim) hrest h
      · obtain ⟨b, hb, rfl⟩ := cons_eq_ok_iff.1 h
        exact List.forall_mem_cons.2 ⟨hline, ih (by simp) hrest hb⟩

end lines

end Layout

end ApiTypes
