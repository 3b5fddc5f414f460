import ApiTypes.Proofs.TypeScript.Occurs
import ApiTypes.TypeScript.Printer
import Mathlib.Data.List.Infix

namespace ApiTypes.TypeScript

def commentLines (text : List Char) : List (List Char) :=
  (Text.lines (Text.replaceAll ['*', '/'] ['*', '\\', '/'] text)).map commentLine

def commentBlock (text : List Char) : List (List Char) :=
  ['/', '*', '*'] :: commentLines text ++ [[' ', '*', '/']]

theorem mem_commentBlock {text line : List Char} : line ∈ commentBlock text ↔
    line = ['/', '*', '*'] ∨ line ∈ commentLines text ∨ line = [' ', '*', '/'] := by
  simp [commentBlock]

theorem docComment_eq_unlines (text indent : List Char) :
    docComment text indent = Text.unlines ((commentBlock text).map (indent ++ ·)) :=
  rfl

theorem docComment_eq (text indent : List Char) :
    docComment text indent = (commentBlock text).flatMap fun l => indent ++ l ++ ['\n'] := by
  rw [docComment_eq_unlines, Text.unlines, List.flatMap_map]

namespace TypeExpr

inductive Writes (t : TypeExpr) : List Char → Prop
  | literal {s : String} (h : Occurs (.literal (.string s)) t) : Writes t (quoted s.toList)
  | key {ms : List (Member TypeExpr)} {index : Option TypeExpr} {m : Member TypeExpr}
      (h : Occurs (.object ms index) t) (hm : m ∈ ms) : Writes t (keyText m.name.toList)
  | comment {ms : List (Member TypeExpr)} {index : Option TypeExpr} {m : Member TypeExpr}
      {text : String} {line : List Char} (h : Occurs (.object ms index) t) (hm : m ∈ ms)
      (hd : m.description = some text) (hl : line ∈ commentLines text.toList) : Writes t line

def memberLines (level : Nat) (m : Member TypeExpr) : List Char :=
  (match m.description with
    | some d => docComment d.toList (indentation level)
    | none => []) ++
    indentation level ++ memberText m.name m.optional (m.type.textAt level) ++ [';', '\n']

theorem textsAt_eq_map (level : Nat) (ts : List TypeExpr) :
    textsAt level ts = ts.map (textAt level) := by
  induction ts with
  | nil => rfl
  | cons t ts ih => simp [textsAt, ih]

theorem groupsAt_eq_map (level : Nat) (ts : List TypeExpr) :
    groupsAt level ts = ts.map fun t => parenthesized t.isUnion (t.textAt level) := by
  induction ts with
  | nil => rfl
  | cons t ts ih => simp [groupsAt, ih]

theorem membersAt_eq_flatMap (level : Nat) (ms : List (Member TypeExpr)) :
    membersAt level ms = ms.flatMap (memberLines level) := by
  induction ms with
  | nil => rfl
  | cons m ms ih =>
    obtain ⟨name, type, optional, description⟩ := m
    cases description <;> simp only [membersAt, memberLines, List.flatMap_cons, ih]

theorem textAt_object (level : Nat) {ms : List (Member TypeExpr)} {index : Option TypeExpr}
    (h : ms ≠ [] ∨ index ≠ none) :
    textAt level (.object ms index) =
      '{' :: '\n' :: (ms.flatMap (memberLines (level + 1)) ++
        (indexAt (level + 1) index ++ (indentation level ++ ['}']))) := by
  rw [← membersAt_eq_flatMap]
  cases ms <;> cases index <;> simp_all [textAt]

end TypeExpr

inductive Declaration.Writes (d : Declaration) : List Char → Prop
  | type {f : List Char} (h : d.type.Writes f) : Writes d f
  | comment {text : String} {line : List Char} (hd : d.description = some text)
      (hl : line ∈ commentLines text.toList) : Writes d line

section found

theorem infix_flatMap {α : Type} {x : α} {xs : List α} (h : x ∈ xs) (f : α → List Char) :
    f x <:+: xs.flatMap f := by
  rw [List.flatMap_def]
  exact List.infix_of_mem_flatten (List.mem_map_of_mem h)

theorem infix_intercalate {α : Type} {sep x : List α} {xs : List (List α)} (h : x ∈ xs) :
    x <:+: sep.intercalate xs := by
  induction xs with
  | nil => simp at h
  | cons y ys ih =>
    cases ys with
    | nil =>
      obtain rfl := List.mem_singleton.1 h
      simp
    | cons z zs =>
      rw [List.intercalate_cons_cons]
      obtain rfl | h := List.mem_cons.1 h
      · rw [List.append_assoc]
        exact List.infix_append_left
      · exact List.infix_append_of_infix_right (ih h)

theorem infix_parenthesized (grouped : Bool) (x : List Char) : x <:+: parenthesized grouped x := by
  cases grouped with
  | false => exact List.infix_rfl
  | true => exact ⟨['('], [')'], rfl⟩

theorem infix_docComment {text indent line : List Char} (h : line ∈ commentLines text) :
    line <:+: docComment text indent := by
  have hmem : line ∈ commentBlock text := mem_commentBlock.2 (.inr (.inl h))
  have hline : line <:+: indent ++ line ++ ['\n'] :=
    List.infix_append_of_infix_left List.infix_append_right
  rw [docComment_eq]
  exact hline.trans (infix_flatMap hmem fun l => indent ++ l ++ ['\n'])

theorem infix_memberText (name : String) (optional : Bool) (type : List Char) :
    keyText name.toList <:+: memberText name optional type ∧
      type <:+: memberText name optional type := by
  unfold memberText
  refine ⟨?_, List.infix_append_right⟩
  rw [List.append_assoc, List.append_assoc]
  exact List.infix_append_left

namespace TypeExpr

variable {t u : TypeExpr} {f : List Char}

theorem infix_object {ms : List (Member TypeExpr)} {index : Option TypeExpr} {m : Member TypeExpr}
    (hm : m ∈ ms) (level : Nat) :
    memberLines (level + 1) m <:+: textAt level (.object ms index) := by
  rw [textAt_object level (.inl (List.ne_nil_of_mem hm))]
  apply List.infix_cons
  apply List.infix_cons
  exact List.infix_append_of_infix_left (infix_flatMap hm (memberLines (level + 1)))

theorem infix_memberLines (level : Nat) (m : Member TypeExpr) :
    memberText m.name m.optional (m.type.textAt level) <:+: memberLines level m :=
  List.infix_append_of_infix_left List.infix_append_right

/-- The text of a type has those of the types in it as parts, at some level. -/
theorem Occurs.isInfix (h : Occurs u t) (level : Nat) : ∃ k, u.textAt k <:+: t.textAt level := by
  -- the members of an object are written one level deeper
  induction h generalizing level with
  | self => exact ⟨level, List.infix_rfl⟩
  | @array e _ ih =>
    obtain ⟨k, hk⟩ := ih level
    refine ⟨k, hk.trans ?_⟩
    exact List.infix_append_of_infix_left (infix_parenthesized e.isCompound _)
  | @tuple t ts ht _ ih =>
    obtain ⟨k, hk⟩ := ih level
    refine ⟨k, hk.trans ?_⟩
    rw [textAt, textsAt_eq_map]
    exact List.infix_append_of_infix_left
      (List.infix_cons (infix_intercalate (List.mem_map_of_mem ht)))
  | @union t ts ht _ ih =>
    obtain ⟨k, hk⟩ := ih level
    refine ⟨k, hk.trans ?_⟩
    rw [textAt, textsAt_eq_map]
    exact infix_intercalate (List.mem_map_of_mem ht)
  | @intersection t ts ht _ ih =>
    obtain ⟨k, hk⟩ := ih level
    refine ⟨k, hk.trans ((infix_parenthesized t.isUnion _).trans ?_)⟩
    rw [textAt, groupsAt_eq_map]
    exact infix_intercalate
      (List.mem_map_of_mem (f := fun t => parenthesized t.isUnion (t.textAt level)) ht)
  | @member m ms index hm _ ih =>
    obtain ⟨k, hk⟩ := ih (level + 1)
    exact ⟨k, hk.trans ((infix_memberText m.name m.optional _).2.trans
      ((infix_memberLines (level + 1) m).trans (infix_object hm level)))⟩
  | @index ms t _ ih =>
    obtain ⟨k, hk⟩ := ih (level + 1)
    refine ⟨k, hk.trans ?_⟩
    have hindex : t.textAt (level + 1) <:+: indexAt (level + 1) (some t) :=
      List.infix_append_of_infix_left List.infix_append_right
    rw [textAt_object level (.inr (by simp))]
    apply List.infix_cons
    apply List.infix_cons
    exact List.infix_append_of_infix_right (List.infix_append_of_infix_left hindex)

theorem Writes.isInfix (h : t.Writes f) (level : Nat) : f <:+: t.textAt level := by
  cases h with
  | literal h =>
    obtain ⟨k, hk⟩ := h.isInfix level
    exact hk
  | @key ms index m h hm =>
    obtain ⟨k, hk⟩ := h.isInfix level
    exact (infix_memberText m.name m.optional _).1.trans
      ((infix_memberLines (k + 1) m).trans ((infix_object hm k).trans hk))
  | @comment ms index m text line h hm hd hl =>
    obtain ⟨k, hk⟩ := h.isInfix level
    have hline : f <:+: memberLines (k + 1) m := by
      unfold memberLines
      rw [hd, List.append_assoc, List.append_assoc]
      exact List.infix_append_of_infix_left (infix_docComment hl)
    exact hline.trans ((infix_object hm k).trans hk)

end TypeExpr

theorem Declaration.Writes.isInfix {d : Declaration} {f : List Char} (h : d.Writes f) :
    f <:+: d.text := by
  unfold Declaration.text
  cases h with
  | type h =>
    apply List.infix_append_of_infix_right
    split
    · exact List.infix_append_of_infix_left
        (List.infix_append_of_infix_right (List.infix_cons (h.isInfix 0)))
    · exact List.infix_append_of_infix_left (List.infix_append_of_infix_right (h.isInfix 0))
  | comment hd hl =>
    rw [hd]
    exact List.infix_append_of_infix_left (infix_docComment hl)

theorem infix_declarationsText {ds : List Declaration} {d : Declaration} (hd : d ∈ ds) :
    d.text <:+: declarationsText ds := by
  unfold declarationsText
  cases hi : d.isInterface with
  | false =>
    have hmem : d ∈ ds.filter fun d => !d.isInterface := List.mem_filter.2 ⟨hd, by simp [hi]⟩
    exact List.infix_append_of_infix_left (infix_flatMap hmem Declaration.text)
  | true =>
    have hmem : d ∈ ds.filter fun d => d.isInterface := List.mem_filter.2 ⟨hd, hi⟩
    exact List.infix_append_of_infix_right (infix_flatMap hmem Declaration.text)

end found

end ApiTypes.TypeScript
