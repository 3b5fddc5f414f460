import ApiTypes.Proofs.Layout.Statement
import Mathlib.Tactic.MkIffOfInductiveProp

namespace ApiTypes.Layout

theorem intercalate_concat {α : Type} {sep x : List α} {xs : List (List α)} (h : xs ≠ []) :
    sep.intercalate (xs ++ [x]) = sep.intercalate xs ++ sep ++ x := by
  induction xs with
  | nil => exact absurd rfl h
  | cons y xs ih =>
    by_cases hxs : xs = []
    · simp [hxs]
    · rw [List.cons_append, List.intercalate_cons_of_ne_nil (by simp), ih hxs,
        List.intercalate_cons_of_ne_nil hxs]
      simp

/-- A separator that is not in one of the parts of a text stands in the other one. -/
theorem exists_append_of_not_mem_right {α : Type} {c : α} {a b u v : List α}
    (h : a ++ c :: b = u ++ v) (hc : c ∉ v) : ∃ w, u = a ++ c :: w ∧ b = w ++ v := by
  obtain ⟨w, hu, hv⟩ | ⟨w, -, rfl⟩ := List.append_eq_append_iff.1 h
  · cases w with
    | nil =>
      obtain rfl : c :: b = v := hv
      exact absurd List.mem_cons_self hc
    | cons d w =>
      obtain ⟨rfl, rfl⟩ := List.cons.inj hv
      exact ⟨w, hu, rfl⟩
  · exact absurd (by simp) hc

theorem exists_append_of_not_mem_left {α : Type} {c : α} {a b u v : List α}
    (h : a ++ c :: b = u ++ v) (hc : c ∉ u) : ∃ w, a = u ++ w ∧ v = w ++ c :: b := by
  obtain ⟨w, rfl, hv⟩ | ⟨w, rfl, rfl⟩ := List.append_eq_append_iff.1 h
  · cases w with
    | nil => exact ⟨[], by simp, by simpa using hv.symm⟩
    | cons d w =>
      obtain ⟨rfl, -⟩ := List.cons.inj hv
      exact absurd (by simp) hc
  · exact ⟨w, rfl, rfl⟩

section listed

variable {items : List (List Char)} {item part inner a b w w' : List Char} {trailing : Bool}
  {c : Char}

def Unbraced (s : List Char) : Prop :=
  '{' ∉ s ∧ '}' ∉ s ∧ '\n' ∉ s

instance (s : List Char) : Decidable (Unbraced s) :=
  inferInstanceAs (Decidable (_ ∧ _))

theorem Unbraced.mono (h : Unbraced a) (hsubset : b ⊆ a) : Unbraced b :=
  ⟨fun hb => h.1 (hsubset hb), fun hb => h.2.1 (hsubset hb), fun hb => h.2.2 (hsubset hb)⟩

@[mk_iff]
structure IsItem (item : List Char) : Prop where
  trimmed : Text.trim item = item
  ne_nil : item ≠ []
  comma : ',' ∉ item
  unbraced : Unbraced item

instance (item : List Char) : Decidable (IsItem item) :=
  decidable_of_iff' _ (isItem_iff item)

def Around (s part : List Char) : Prop :=
  ∃ w w', Text.Blanks w ∧ Text.Blanks w' ∧ part = w ++ (s ++ w')

/-- The text of a list, with commas between its items, blanks around them, and a comma behind the
last one or not. -/
inductive Listed : List (List Char) → Bool → List Char → Prop
  | last {item part : List Char} (hitem : IsItem item) (h : Around item part) :
    Listed [item] false part
  | trailing {item part w : List Char} (hitem : IsItem item) (h : Around item part)
    (hw : Text.Blanks w) : Listed [item] true (part ++ ',' :: w)
  | more {item part inner : List Char} {items : List (List Char)} {trailing : Bool}
    (hitem : IsItem item) (h : Around item part) (hrest : Listed items trailing inner) :
    Listed (item :: items) trailing (part ++ ',' :: inner)

theorem Around.trim_eq (h : Around item part) : Text.trim part = Text.trim item := by
  obtain ⟨w, w', hw, hw', rfl⟩ := h
  rw [Text.trim_append_left hw, Text.trim_append_right hw']

theorem around_trim (part : List Char) : Around (Text.trim part) part :=
  Text.exists_trim part

theorem Around.not_mem (h : Around item part) (hc : Text.isBlank c = false) (hitem : c ∉ item) :
    c ∉ part := by
  obtain ⟨w, w', hw, hw', rfl⟩ := h
  simp [hw.not_mem hc, hw'.not_mem hc, hitem]

theorem Listed.isItem (h : Listed items trailing inner) : ∀ item ∈ items, IsItem item := by
  induction h with
  | last hitem _ => simpa using hitem
  | trailing hitem _ _ => simpa using hitem
  | more hitem _ _ ih => exact List.forall_mem_cons.2 ⟨hitem, ih⟩

theorem Listed.ne_nil (h : Listed items trailing inner) : items ≠ [] := by
  cases h <;> simp

theorem Listed.map_trim_splitOn (h : Listed items trailing inner) :
    (inner.splitOn ',').map Text.trim = items ++ (if trailing then [[]] else []) := by
  induction h with
  | last hitem h =>
    rw [List.splitOn_eq_singleton (h.not_mem rfl hitem.comma)]
    simp [h.trim_eq, hitem.trimmed]
  | trailing hitem h hw =>
    rw [List.splitOn_append_cons_self_of_not_mem (h.not_mem rfl hitem.comma),
      List.splitOn_eq_singleton (hw.not_mem rfl)]
    simp [h.trim_eq, hitem.trimmed, Text.trim_of_blanks hw]
  | more hitem h _ ih =>
    rw [List.splitOn_append_cons_self_of_not_mem (h.not_mem rfl hitem.comma), List.map_cons, ih,
      h.trim_eq, hitem.trimmed]
    rfl

theorem blanks_of_map_trim_splitOn (h : (part.splitOn ',').map Text.trim = [[]]) :
    Text.Blanks part := by
  by_cases hcomma : ',' ∈ part
  · obtain ⟨u, v, rfl, hu⟩ := List.eq_append_cons_of_mem hcomma
    rw [List.splitOn_append_cons_self_of_not_mem hu] at h
    exact absurd (List.map_eq_nil_iff.1 (List.cons.inj h).2) (List.splitOn_ne_nil ',' v)
  · rw [List.splitOn_eq_singleton hcomma] at h
    exact Text.trim_eq_nil_iff.1 (List.cons.inj h).1

theorem listed_of_map_trim_splitOn (hitems : ∀ item ∈ items, IsItem item) (hne : items ≠ [])
    (h : (inner.splitOn ',').map Text.trim = items ++ (if trailing then [[]] else [])) :
    Listed items trailing inner := by
  -- comma by comma, one item for each
  induction inner using Text.separator_induction ',' generalizing items with
  | last s hs =>
    obtain ⟨item, items, rfl⟩ := List.exists_cons_of_ne_nil hne
    rw [List.splitOn_eq_singleton hs] at h
    obtain ⟨rfl, hnil⟩ := List.cons.inj h
    obtain ⟨rfl, htrailing⟩ := List.append_eq_nil_iff.1 hnil.symm
    obtain rfl : trailing = false := by simpa using htrailing
    exact .last (hitems _ List.mem_cons_self) (around_trim s)
  | part u s hu ih =>
    obtain ⟨item, items, rfl⟩ := List.exists_cons_of_ne_nil hne
    obtain ⟨hitem, hothers⟩ := List.forall_mem_cons.1 hitems
    rw [List.splitOn_append_cons_self_of_not_mem hu] at h
    obtain ⟨rfl, hrest⟩ := List.cons.inj h
    by_cases hnil : items = []
    · -- behind the comma of the last item there is nothing but blanks
      subst hnil
      cases trailing with
      | false => simp at hrest
      | true => exact .trailing hitem (around_trim u) (blanks_of_map_trim_splitOn hrest)
    · exact .more hitem (around_trim u) (ih hothers hnil hrest)

/-- Blanks with a character that no trimmed part holds may be other blanks. -/
theorem map_trim_splitOn_respaced (hw : Text.Blanks w) (hw' : Text.Blanks w') (hc : c ∈ w)
    (h : ∀ part ∈ (a ++ (w ++ b)).splitOn ',', c ∉ Text.trim part) :
    ((a ++ (w ++ b)).splitOn ',').map Text.trim = ((a ++ (w' ++ b)).splitOn ',').map Text.trim := by
  have hcomma : ∀ {w : List Char}, Text.Blanks w → ',' ∉ w := fun hw => hw.not_mem rfl
  -- only the part that the blanks stand in can change, and there they are inside an item or trimmed
  -- away
  induction a using Text.separator_induction ',' with
  | last a ha =>
    by_cases hb : ',' ∈ b
    · obtain ⟨u, v, rfl, hu⟩ := List.eq_append_cons_of_mem hb
      have hsplit : ∀ {w : List Char}, Text.Blanks w → (a ++ (w ++ (u ++ ',' :: v))).splitOn ',' =
          (a ++ (w ++ u)) :: v.splitOn ',' := by
        intro w hw
        rw [← List.append_assoc w, ← List.append_assoc a]
        exact List.splitOn_append_cons_self_of_not_mem (by simp [ha, hcomma hw, hu]) v
      rw [hsplit hw] at h ⊢
      rw [hsplit hw', List.map_cons, List.map_cons,
        Text.trim_respaced hw hw' hc (h _ List.mem_cons_self)]
    · have hsplit : ∀ {w : List Char}, Text.Blanks w →
          (a ++ (w ++ b)).splitOn ',' = [a ++ (w ++ b)] :=
        fun hw => List.splitOn_eq_singleton (by simp [ha, hcomma hw, hb])
      rw [hsplit hw] at h ⊢
      rw [hsplit hw', List.map_singleton, List.map_singleton,
        Text.trim_respaced hw hw' hc (h _ List.mem_cons_self)]
  | part u a hu ih =>
    have hsplit : ∀ w : List Char, (u ++ ',' :: a ++ (w ++ b)).splitOn ',' =
        u :: (a ++ (w ++ b)).splitOn ',' := by
      intro w
      rw [List.append_assoc, List.cons_append]
      exact List.splitOn_append_cons_self_of_not_mem hu _
    rw [hsplit] at h ⊢
    rw [hsplit, List.map_cons, List.map_cons, ih (List.forall_mem_cons.1 h).2]

theorem Listed.respaced (h : Listed items trailing (a ++ (w ++ b))) (hw : Text.Blanks w)
    (hw' : Text.Blanks w') (hn : '\n' ∈ w) : Listed items trailing (a ++ (w' ++ b)) := by
  have hparts : ∀ part ∈ (a ++ (w ++ b)).splitOn ',', '\n' ∉ Text.trim part := by
    intro part hpart
    have hmem := List.mem_map_of_mem (f := Text.trim) hpart
    rw [h.map_trim_splitOn] at hmem
    obtain hitem | hnil := List.mem_append.1 hmem
    · exact (h.isItem _ hitem).unbraced.2.2
    · split at hnil <;> simp_all
  have hsplit := map_trim_splitOn_respaced hw hw' hn hparts
  rw [h.map_trim_splitOn] at hsplit
  exact listed_of_map_trim_splitOn h.isItem h.ne_nil hsplit.symm

theorem Listed.not_mem (h : Listed items trailing inner) (hblank : Text.isBlank c = false)
    (hcomma : c ≠ ',') (hc : ∀ item ∈ items, c ∉ item) : c ∉ inner := by
  induction h with
  | last _ h => exact h.not_mem hblank (hc _ List.mem_cons_self)
  | trailing _ h hw =>
    simp [h.not_mem hblank (hc _ List.mem_cons_self), hw.not_mem hblank, hcomma]
  | more _ h _ ih =>
    obtain ⟨hitem, hothers⟩ := List.forall_mem_cons.1 hc
    simp [h.not_mem hblank hitem, ih hothers, hcomma]

theorem Listed.brace_not_mem (h : Listed items trailing inner) : '}' ∉ inner :=
  h.not_mem rfl (by decide) fun item hitem => (h.isItem item hitem).unbraced.2.1

/-- The first line of a list may lose the blanks at its end. -/
theorem Listed.trimEnd_line (h : Listed items trailing (a ++ '\n' :: b)) :
    Listed items trailing (Text.trimEnd a ++ '\n' :: b) := by
  have hbreak : Text.Blanks ['\n'] := Text.blanks_singleton rfl
  obtain ⟨w, hw, ha⟩ := Text.exists_trimEnd_append a
  refine Listed.respaced (w := w ++ ['\n']) ?_ (hw.append hbreak) hbreak (by simp)
  rw [ha] at h
  simpa using h

/-- The last line of a list may be joined to the one before it. -/
theorem Listed.join_last (h : Listed items trailing (a ++ '\n' :: b)) :
    Listed items trailing (a ++ ' ' :: Text.trimStart b) := by
  have hbreak : Text.Blanks ['\n'] := Text.blanks_singleton rfl
  have hspace : Text.Blanks [' '] := Text.blanks_singleton rfl
  obtain ⟨w, hw, hb⟩ := Text.exists_trimStart_append b
  have hjoined : Listed items trailing (a ++ ([' '] ++ Text.trimStart b)) := by
    refine Listed.respaced (w := '\n' :: w) ?_ (hbreak.append hw) hspace List.mem_cons_self
    rw [hb] at h
    simpa using h
  exact hjoined

/-- A line of a list that is not the last one may be joined to the one before it. -/
theorem Listed.join_line {l : List Char}
    (h : Listed items trailing (a ++ '\n' :: (l ++ '\n' :: b))) :
    Listed items trailing (a ++ ' ' :: Text.trim l ++ '\n' :: b) := by
  have hbreak : Text.Blanks ['\n'] := Text.blanks_singleton rfl
  have hspace : Text.Blanks [' '] := Text.blanks_singleton rfl
  obtain ⟨w, w', hw, hw', hl⟩ := Text.exists_trim l
  have hbefore : Listed items trailing (a ++ ([' '] ++ (Text.trim l ++ (w' ++ '\n' :: b)))) := by
    refine Listed.respaced (w := '\n' :: w) ?_ (hbreak.append hw) hspace List.mem_cons_self
    rw [hl] at h
    simpa using h
  refine Listed.respaced (w := w' ++ ['\n']) ?_ (hw'.append hbreak) hbreak (by simp)
  simpa using hbefore

theorem listed_intercalate (hitems : ∀ item ∈ items, IsItem item) (hne : items ≠ [])
    (hw : Text.Blanks w) (hw' : Text.Blanks w') :
    Listed items false (w ++ ([',', ' '].intercalate items ++ w')) := by
  induction items generalizing w with
  | nil => exact absurd rfl hne
  | cons item items ih =>
    obtain ⟨hitem, hothers⟩ := List.forall_mem_cons.1 hitems
    cases items with
    | nil =>
      rw [List.intercalate_singleton]
      exact .last hitem ⟨w, w', hw, hw', rfl⟩
    | cons next items =>
      have hlist : w ++ ([',', ' '].intercalate (item :: next :: items) ++ w') =
          w ++ (item ++ []) ++
            ',' :: ([' '] ++ ([',', ' '].intercalate (next :: items) ++ w')) := by
        rw [List.intercalate_cons_cons]
        simp
      rw [hlist]
      exact .more hitem ⟨w, [], hw, Text.blanks_nil, rfl⟩
        (ih hothers (by simp) (Text.blanks_singleton rfl))

theorem itemLines_ne_nil {style : Style} (hne : items ≠ []) : itemLines style items ≠ [] := by
  fun_cases itemLines style items <;> simp_all

/-- The lines of the items are a list that ends in a comma only if the style says so. -/
theorem listed_itemLines (style : Style) (hitems : ∀ item ∈ items, IsItem item) (hne : items ≠ [])
    (hw : Text.Blanks w) (hw' : Text.Blanks w') :
    Listed items (style.trailingComma ≠ "none")
      (w ++ (['\n'].intercalate (itemLines style items) ++ w')) := by
  have hspaces : Text.Blanks [' ', ' '] :=
    (Text.blanks_singleton rfl).append (Text.blanks_singleton rfl)
  -- `w` is general, since every line but the first has a line break before it
  induction items generalizing w with
  | nil => exact absurd rfl hne
  | cons item items ih =>
    obtain ⟨hitem, hothers⟩ := List.forall_mem_cons.1 hitems
    cases items with
    | nil =>
      rw [itemLines, List.intercalate_singleton]
      by_cases hnone : style.trailingComma = "none"
      · have hlist : w ++ ([' ', ' '] ++ item ++ [] ++ w') = w ++ [' ', ' '] ++ (item ++ w') := by
          simp
        rw [if_pos hnone, hlist]
        simpa [hnone] using Listed.last hitem ⟨_, w', hw.append hspaces, hw', rfl⟩
      · have hlist : w ++ ([' ', ' '] ++ item ++ [','] ++ w') =
            w ++ [' ', ' '] ++ (item ++ []) ++ ',' :: w' := by simp
        rw [if_neg hnone, hlist]
        simpa [hnone] using
          Listed.trailing hitem ⟨_, [], hw.append hspaces, Text.blanks_nil, rfl⟩ hw'
    | cons next items =>
      have hlist : w ++ (['\n'].intercalate (itemLines style (item :: next :: items)) ++ w') =
          w ++ [' ', ' '] ++ (item ++ []) ++
            ',' :: (['\n'] ++ (['\n'].intercalate (itemLines style (next :: items)) ++ w')) := by
        rw [itemLines, List.intercalate_cons_of_ne_nil (itemLines_ne_nil (by simp))]
        · simp
        · simp
      rw [hlist]
      exact .more hitem ⟨_, [], hw.append hspaces, Text.blanks_nil, rfl⟩
        (ih hothers (by simp) (Text.blanks_singleton rfl))

end listed

section sections

variable {style : Style} {i : Import} {trailing : Bool} {head tail inner p q : List Char}
  {items ls more out : List (List Char)}

/-- The lines of an import statement: its opening brace stands on the first of them and its closing
brace on the last. -/
structure Spelled (i : Import) (trailing : Bool) (ls : List (List Char)) : Prop where
  begins : "import".toList <+: i.head
  head : Unbraced i.head
  tail : Unbraced i.tail
  lines : ∀ l ∈ ls, '\n' ∉ l
  text : ∃ inner, Listed i.items trailing inner ∧
    ['\n'].intercalate ls = i.head ++ '{' :: (inner ++ '}' :: i.tail)

theorem byteLength_eq (s : List Char) : byteLength s = (String.ofList s).utf8ByteSize := by
  induction s with
  | nil => rfl
  | cons c s ih => simp [byteLength, ih, String.ofList_cons]

theorem statementLines_of_listed (hhead : '{' ∉ head) (htail : '}' ∉ tail)
    (h : Listed items trailing inner) :
    statementLines style (head ++ '{' :: (inner ++ '}' :: tail)) =
      .ok (Import.lines style ⟨head, items, tail⟩) := by
  have hitems : itemsOf inner = items := by
    have hfilter : items.filter (!·.isEmpty) = items :=
      List.filter_eq_self.2 fun item hitem => by simpa using (h.isItem item hitem).ne_nil
    rw [itemsOf, h.map_trim_splitOn, List.filter_append, hfilter]
    cases trailing <;> simp
  have hread : Import.ofStatement? (head ++ '{' :: (inner ++ '}' :: tail)) =
      some ⟨head, items, tail⟩ :=
    ofStatement?_eq_some_iff.2 ⟨inner, rfl, hhead, htail, hitems.symm⟩
  rw [statementLines, hread]

/-- What is written for a statement is the statement again, on one line if that fits. -/
theorem exists_spelled_lines (style : Style) (hbegins : "import".toList <+: i.head)
    (hhead : Unbraced i.head) (htail : Unbraced i.tail) (hitems : ∀ item ∈ i.items, IsItem item)
    (hne : i.items ≠ []) :
    ∃ trailing, Spelled i trailing (i.lines style) ∧
      ((i.lines style).length = 1 ↔ byteLength (i.singleLine style) ≤ style.printWidth) ∧
      ((i.lines style).length ≠ 1 → (trailing = true ↔ style.trailingComma ≠ "none")) := by
  have hlines : ∀ l ∈ i.lines style, '\n' ∉ l :=
    i.newline_not_mem_lines style hhead.2.2 (fun item hitem => (hitems item hitem).unbraced.2.2)
      htail.2.2
  -- on one line there is no comma behind the last item; on several the style decides
  by_cases hfits : byteLength (i.singleLine style) ≤ style.printWidth
  · have hsingle : i.lines style = [i.singleLine style] := if_pos hfits
    rw [hsingle] at hlines ⊢
    refine ⟨false, ⟨hbegins, hhead, htail, hlines, ?_⟩, iff_of_true rfl hfits,
      fun h => absurd rfl h⟩
    rw [List.intercalate_singleton]
    unfold Import.singleLine
    split
    · have hspace : Text.Blanks [' '] := Text.blanks_singleton rfl
      exact ⟨_, listed_intercalate hitems hne hspace hspace, by simp [Import.joined]⟩
    · exact ⟨_, listed_intercalate hitems hne Text.blanks_nil Text.blanks_nil,
        by simp [Import.joined]⟩
  · have hmany : i.lines style =
        (i.head ++ ['{']) :: itemLines style i.items ++ ['}' :: i.tail] := if_neg hfits
    have hlength : (i.lines style).length ≠ 1 := by simp [hmany]
    refine ⟨_, ⟨hbegins, hhead, htail, hlines, ?_⟩, iff_of_false hlength hfits,
      fun _ => decide_eq_true_iff⟩
    have hbreak : Text.Blanks ['\n'] := Text.blanks_singleton rfl
    refine ⟨_, listed_itemLines style hitems hne hbreak hbreak, ?_⟩
    rw [hmany, intercalate_concat (by simp),
      List.intercalate_cons_of_ne_nil (itemLines_ne_nil hne)]
    simp

/-- A statement that is open is closed by the lines that are still to come. -/
theorem importLines_open (hls : ls ≠ []) (hlines : ∀ l ∈ ls, '\n' ∉ l) (hhead : '{' ∉ head)
    (htail : Unbraced tail) (hlisted : Listed items trailing (p ++ '\n' :: q))
    (htext : ['\n'].intercalate ls = q ++ '}' :: tail)
    (hmore : importLines style none more = .ok out) :
    importLines style (some (head ++ '{' :: p)) (ls ++ more) =
      .ok (Import.lines style ⟨head, items, Text.trimEnd tail⟩ ++ out) := by
  induction ls generalizing p q with
  | nil => exact absurd rfl hls
  | cons l ls ih =>
    obtain ⟨hl, hothers⟩ := List.forall_mem_cons.1 hlines
    by_cases hlast : ls = []
    · -- the last line, with the closing brace
      subst hlast
      rw [List.intercalate_singleton] at htext
      have hcloses : l.contains '}' := by simp [htext]
      have htrimmed : '}' ∉ Text.trimEnd tail :=
        fun h => htail.2.1 ((Text.trimEnd_prefix tail).subset h)
      have hstatement : head ++ '{' :: p ++ ' ' :: Text.trim l =
          head ++ '{' :: (p ++ ' ' :: Text.trimStart q ++ '}' :: Text.trimEnd tail) := by
        rw [htext, Text.trim, Text.trimStart_append_of_not_blank rfl, Text.trimEnd_append_cons rfl]
        simp
      rw [List.singleton_append, importLines, if_pos hcloses, hstatement]
      exact append_eq_ok_iff.2
        ⟨_, _, statementLines_of_listed hhead htrimmed hlisted.join_last, hmore, rfl⟩
    · rw [List.intercalate_cons_of_ne_nil hlast, List.append_assoc, List.singleton_append] at htext
      obtain ⟨q, rfl, hrest⟩ := exists_append_of_not_mem_right htext (by simp [htail.2.2])
      -- a brace before the last line would stand in an item
      have hcloses : ¬ l.contains '}' := by
        have hclose := hlisted.brace_not_mem
        simp only [List.mem_append, List.mem_cons, not_or] at hclose
        simp [hclose]
      rw [List.cons_append, importLines, if_neg hcloses, List.append_assoc, List.cons_append]
      exact ih hlast hothers hlisted.join_line hrest

/-- A statement is laid out together with what stands behind it. -/
theorem importLines_spelled (h : Spelled i trailing ls)
    (hmore : importLines style none more = .ok out) :
    importLines style none (ls ++ more) = .ok (Import.lines style
      { i with tail := if ls.length = 1 then i.tail else Text.trimEnd i.tail } ++ out) := by
  obtain ⟨inner, hlisted, htext⟩ := h.text
  have hopens : ∀ {l w : List Char}, l = i.head ++ '{' :: w → opensImport l := by
    rintro _ w rfl
    exact opensImport_iff.2 ⟨h.begins.trans (List.prefix_append _ _), by simp⟩
  -- a statement on one line keeps the blanks behind it; one on several is joined and loses them
  match ls, h.lines with
  | [], _ => simp at htext
  | [l], _ =>
    rw [List.intercalate_singleton] at htext
    have hcloses : l.contains '}' := by simp [htext]
    rw [List.singleton_append, importLines, if_pos (hopens htext), if_pos hcloses, htext]
    exact append_eq_ok_iff.2
      ⟨_, _, statementLines_of_listed h.head.1 h.tail.2.1 hlisted, hmore, rfl⟩
  | l :: l' :: ls, hlines =>
    rw [List.intercalate_cons_cons, List.append_assoc, List.singleton_append,
      ← List.cons_append, ← List.append_assoc] at htext
    obtain ⟨q, hfirst, hrest⟩ := exists_append_of_not_mem_right htext (by simp [h.tail.2.2])
    rw [← List.singleton_append, ← List.append_assoc] at hfirst
    obtain ⟨p, hl, rfl⟩ := exists_append_of_not_mem_left hfirst.symm (by simp [h.head.2.2])
    rw [List.append_assoc, List.singleton_append] at hl
    have hcloses : ¬ l.contains '}' := by
      have hclose := hlisted.brace_not_mem
      simp only [List.mem_append, List.mem_cons, not_or] at hclose
      simp [hl, h.head.2.1, hclose]
    rw [List.cons_append, importLines, if_pos (hopens hl), if_neg hcloses, hl,
      Text.trimEnd_append_cons rfl]
    exact importLines_open (by simp) (fun x hx => hlines x (List.mem_cons_of_mem l hx)) h.head.1
      h.tail hlisted.trimEnd_line hrest hmore

inductive Section where
  | line (l : List Char)
  | statement (i : Import) (trailing : Bool) (ls : List (List Char))

def Section.lines : Section → List (List Char)
  | line l => [l]
  | statement _ _ ls => ls

/-- A line on its own does not begin as a statement does. -/
def Section.WellFormed : Section → Prop
  | line l => ¬ ("import".toList <+: l ∧ '{' ∈ l)
  | statement i trailing ls => Spelled i trailing ls

/-- What becomes of the parts of a text.  Of a statement only the blanks behind it may be lost, if
it stands on several lines. -/
inductive LaidOut (style : Style) : Section → Section → Prop
  | line (l : List Char) : LaidOut style (.line l) (.line l)
  | statement {i i' : Import} {trailing trailing' : Bool} {ls ls' : List (List Char)}
    (hhead : i'.head = i.head) (hitems : i'.items = i.items)
    (htail : i'.tail = if ls.length = 1 then i.tail else Text.trimEnd i.tail)
    (hsingle : ls'.length = 1 ↔
      (String.ofList (i'.singleLine style)).utf8ByteSize ≤ style.printWidth)
    (hcomma : ls'.length ≠ 1 → (trailing' = true ↔ style.trailingComma ≠ "none")) :
    LaidOut style (.statement i trailing ls) (.statement i' trailing' ls')

/-- The other lines stay as they are, and each statement is laid out as the same statement, all in
their order. -/
theorem exists_importLines_sections (style : Style) {text : List Char} {ss : List Section}
    (htext : Text.lines text = ss.flatMap Section.lines) (hss : ∀ s ∈ ss, s.WellFormed) :
    ∃ ss', importLines style none (Text.lines text) = .ok (ss'.flatMap Section.lines) ∧
      (∀ s ∈ ss', s.WellFormed) ∧ List.Forall₂ (LaidOut style) ss ss' := by
  rw [htext]
  clear htext
  induction ss with
  | nil => exact ⟨[], rfl, by simp, .nil⟩
  | cons s ss ih =>
    obtain ⟨hs, hothers⟩ := List.forall_mem_cons.1 hss
    obtain ⟨ss', hout, hwf, hlaid⟩ := ih hothers
    cases s with
    | line l =>
      have hopens : ¬ opensImport l := mt opensImport_iff.1 hs
      refine ⟨.line l :: ss', ?_, List.forall_mem_cons.2 ⟨hs, hwf⟩, .cons (.line l) hlaid⟩
      rw [List.flatMap_cons, Section.lines, List.singleton_append, importLines, if_neg hopens]
      exact cons_eq_ok_iff.2 ⟨_, hout, rfl⟩
    | statement i trailing ls =>
      obtain ⟨inner, hlisted, -⟩ := hs.text
      -- a statement over several lines has lost the blanks behind it when its lines were joined
      have htail : Unbraced (if ls.length = 1 then i.tail else Text.trimEnd i.tail) := by
        split
        · exact hs.tail
        · exact hs.tail.mono (Text.trimEnd_prefix i.tail).subset
      obtain ⟨trailing', hspelled, hsingle, hcomma⟩ := exists_spelled_lines style
        (i := { i with tail := if ls.length = 1 then i.tail else Text.trimEnd i.tail })
        hs.begins hs.head htail hlisted.isItem hlisted.ne_nil
      rw [byteLength_eq] at hsingle
      exact ⟨.statement _ trailing' _ :: ss', importLines_spelled hs hout,
        List.forall_mem_cons.2 ⟨hspelled, hwf⟩, .cons (.statement rfl rfl rfl hsingle hcomma) hlaid⟩

def mixedSections : List Section :=
  [.statement ⟨"import ".toList, ["A".toList], " from 'a'; ".toList⟩ false
      ["import \x7bA\x7d from 'a'; ".toList],
    .line "// x".toList,
    .statement ⟨"import ".toList, ["B".toList, "C as D".toList], " from 'b'; ".toList⟩ true
      ["import \x7b B,".toList, [], "  C as D ,".toList, "\x7d from 'b'; ".toList]]

theorem exists_importLines_sections_mixed :
    ∃ ss', importLines { Style.default with printWidth := 25 } none
        (Text.lines (Text.unlines (mixedSections.flatMap Section.lines))) =
          .ok (ss'.flatMap Section.lines) ∧
      (∀ s ∈ ss', s.WellFormed) ∧
      List.Forall₂ (LaidOut { Style.default with printWidth := 25 }) mixedSections ss' := by
  refine exists_importLines_sections _ (by decide +kernel) ?_
  have hfirst : Listed ["A".toList] false "A".toList :=
    listed_of_map_trim_splitOn (by decide) (by decide) (by decide +kernel)
  have hsecond : Listed ["B".toList, "C as D".toList] true " B,\n\n  C as D ,\n".toList :=
    listed_of_map_trim_splitOn (by decide) (by decide) (by decide +kernel)
  simp only [mixedSections, List.forall_mem_cons, List.not_mem_nil, false_imp_iff, implies_true,
    and_true, Section.WellFormed]
  exact ⟨⟨by decide, by decide, by decide, by decide, _, hfirst, by decide +kernel⟩, by decide,
    by decide, by decide, by decide, by decide, _, hsecond, by decide +kernel⟩

end sections

end ApiTypes.Layout
