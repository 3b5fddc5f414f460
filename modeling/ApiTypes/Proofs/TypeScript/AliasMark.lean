import ApiTypes.Proofs.TypeScript.Comments
import ApiTypes.Proofs.TypeScript.Literals

namespace ApiTypes

namespace Decimal

theorem mem_positional {c : Char} {ds : List Char} {point : Int} (h : c ∈ positional ds point) :
    c = '0' ∨ c = '.' ∨ c ∈ ds := by
  unfold positional zeros at h
  split at h
  · simp only [List.mem_cons, List.mem_append, List.mem_replicate] at h
    tauto
  · split at h
    · simp only [List.mem_cons, List.mem_append] at h
      obtain h | h | h := h
      · exact .inr (.inr (List.mem_of_mem_take h))
      · exact .inr (.inl h)
      · exact .inr (.inr (List.mem_of_mem_drop h))
    · simp only [List.mem_append, List.mem_replicate] at h
      tauto

end Decimal

namespace TypeScript

def isWordChar (c : Char) : Bool :=
  isIdentifierChar c || c == '.' || c == '-'

section words

variable {c : Char} {s : List Char}

theorem blank_not_mem_of_words (hs : ∀ c ∈ s, isWordChar c) : ' ' ∉ s := by
  intro hblank
  have := hs ' ' hblank
  revert this
  decide

theorem isWordChar_of_isIdentifierChar (h : isIdentifierChar c) : isWordChar c := by
  simp [isWordChar, h]

theorem isWordChar_of_mem_toDigits {n : Nat} (h : c ∈ Nat.toDigits 10 n) : isWordChar c := by
  have hdigit := Nat.isDigit_of_mem_toDigits (by decide) (by decide) h
  exact isWordChar_of_isIdentifierChar (by simp [isIdentifierChar, Char.isAlphanum, hdigit])

theorem isWordChar_of_mem_plain {x : Float} (h : c ∈ (Decimal.plain x).toList) : isWordChar c := by
  have hsign : ∀ negative, ∀ c ∈ Decimal.sign negative, isWordChar c := by
    intro negative
    cases negative <;> exact List.all_eq_true.1 (by decide)
  unfold Decimal.plain at h
  split at h
  · have hall : ∀ c ∈ "NaN".toList, isWordChar c := List.all_eq_true.1 (by decide)
    exact hall c h
  · have hall : ∀ c ∈ "inf".toList, isWordChar c := List.all_eq_true.1 (by decide)
    rw [String.toList_ofList, List.mem_append] at h
    exact h.elim (hsign _ c) (hall c)
  · split at h
    · rw [String.toList_ofList, List.mem_append, List.mem_singleton] at h
      obtain h | rfl := h
      · exact hsign _ c h
      · decide
    · rw [String.toList_ofList, List.mem_append] at h
      obtain h | h := h
      · exact hsign _ c h
      · obtain rfl | rfl | h := Decimal.mem_positional h
        · decide
        · decide
        · exact isWordChar_of_mem_toDigits h

theorem isWordChar_of_mem_identifier (hs : isIdentifier s) (h : c ∈ s) : isWordChar c := by
  cases s with
  | nil => cases h
  | cons d s =>
    simp only [isIdentifier, Bool.and_eq_true] at hs
    exact isWordChar_of_isIdentifierChar (List.all_eq_true.1 hs.2 c h)

/-- Only the literals of texts have other characters. -/
theorem isWordChar_of_mem_literal {l : Literal} (hl : ∀ s, l ≠ .string s) (h : c ∈ l.text) :
    isWordChar c := by
  cases l with
  | string s => exact absurd rfl (hl s)
  | real x => exact isWordChar_of_mem_plain h
  | integer n =>
    have hnat : ∀ n : Nat, c ∈ (toString n).toList → isWordChar c := by
      intro n h
      rw [Nat.toString_eq_repr, Nat.repr_eq_ofList_toDigits, String.toList_ofList] at h
      exact isWordChar_of_mem_toDigits h
    cases n with
    | ofNat n => exact hnat n h
    | negSucc n =>
      change c ∈ ("-" ++ toString (n + 1)).toList at h
      rw [String.toList_append, List.mem_append] at h
      obtain h | h := h
      · obtain rfl := List.mem_singleton.1 h
        decide
      · exact hnat (n + 1) h
  | bool b =>
    have hall : ∀ c ∈ (Literal.bool b).text, isWordChar c := by
      cases b <;> exact List.all_eq_true.1 (by decide)
    exact hall c h
  | null =>
    have hall : ∀ c ∈ Literal.null.text, isWordChar c := List.all_eq_true.1 (by decide)
    exact hall c h

theorem isWordChar_of_mem_keyword {k : Keyword} (h : c ∈ k.text.toList) : isWordChar c := by
  have hall : ∀ c ∈ k.text.toList, isWordChar c := by
    cases k <;> exact List.all_eq_true.1 (by decide)
  exact hall c h

end words

def aliasMark : List Char := "export type".toList

def Free (s : List Char) : Prop := ¬ aliasMark <:+: s

variable {s u w : List Char} {c : Char}

theorem Free.append_cons (hu : Free u) (hw : Free w) (hc : c ∉ aliasMark) : Free (u ++ c :: w) := by
  intro h
  exact ((Text.infix_append_cons_iff hc (by decide)).1 h).elim hu hw

theorem Free.cons (hs : Free s) (hc : c ≠ 'e') : Free (c :: s) := by
  intro h
  obtain ⟨t, ht⟩ | h := List.infix_cons_iff.1 h
  · exact hc (List.cons.inj ht).1.symm
  · exact hs h

theorem Free.concat (hs : Free s) (hc : c ≠ 'e') : Free (s ++ [c]) := by
  intro h
  obtain ⟨t, ht⟩ | h := List.infix_concat_iff.1 h
  · have hmark : aliasMark = "export typ".toList ++ ['e'] := by decide
    rw [hmark, ← List.append_assoc] at ht
    exact hc (List.cons.inj (List.append_inj' ht rfl).2).1.symm
  · exact hs h

theorem free_of_blank_not_mem (hs : ' ' ∉ s) : Free s := by
  intro h
  exact hs (h.subset (by decide))

theorem free_of_words (hs : ∀ c ∈ s, isWordChar c) : Free s :=
  free_of_blank_not_mem (blank_not_mem_of_words hs)

/-- Separators that keep texts apart. -/
theorem free_intercalate {sep : List Char} {xs : List (List Char)}
    (hsep : ∀ u w, Free u → Free w → Free (u ++ (sep ++ w))) (h : ∀ x ∈ xs, Free x) :
    Free (sep.intercalate xs) := by
  induction xs with
  | nil => exact free_of_blank_not_mem (by simp)
  | cons x xs ih =>
    have hx : Free x := h x List.mem_cons_self
    have hxs := ih fun y hy => h y (List.mem_cons_of_mem x hy)
    cases xs with
    | nil => simpa using hx
    | cons y ys =>
      rw [List.intercalate_cons_cons, List.append_assoc]
      exact hsep x _ hx hxs

theorem Free.indented (hs : Free s) (level : Nat) : Free (indentation level ++ s) := by
  unfold indentation
  induction 2 * level with
  | zero => exact hs
  | succ n ih => exact ih.cons (by decide)

theorem Free.parenthesized (hs : Free s) (grouped : Bool) :
    Free (TypeScript.parenthesized grouped s) := by
  cases grouped with
  | false => exact hs
  | true =>
    have hclose : Free (s ++ ')' :: []) :=
      hs.append_cons (free_of_blank_not_mem (by simp)) (by decide)
    exact hclose.cons (by decide)

theorem free_commentBlock {text : List Char} (h : ∀ l ∈ commentLines text, Free l) :
    ∀ l ∈ commentBlock text, Free l := by
  intro l hl
  obtain rfl | hl | rfl := mem_commentBlock.1 hl
  · exact free_of_blank_not_mem (by decide)
  · exact h l hl
  · exact (free_of_blank_not_mem (by decide)).cons (by decide)

theorem free_docComment_append {text : List Char} (h : ∀ l ∈ commentLines text, Free l)
    (hw : Free w) (level : Nat) : Free (docComment text (indentation level) ++ w) := by
  have hall := free_commentBlock h
  rw [docComment_eq]
  generalize commentBlock text = block at hall ⊢
  induction block with
  | nil => exact hw
  | cons l ls ih =>
    have hl := (hall l List.mem_cons_self).indented level
    have hls := ih fun k hk => hall k (List.mem_cons_of_mem l hk)
    simpa using hl.append_cons hls (c := '\n') (by decide)

/-- All names in a type are identifiers, and no part that a schema gives has the mark. -/
structure TypeExpr.Harmless (t : TypeExpr) : Prop where
  names : ∀ n, t.Mentions n → isIdentifier n.toList
  parts : ∀ f, t.Writes f → Free f

namespace TypeExpr

theorem Harmless.of_occurs {t t' : TypeExpr} (h : t'.Harmless)
    (hsub : ∀ u, Occurs u t → Occurs u t') : t.Harmless where
  names n hn := h.names n (hsub _ hn)
  parts f hf := by
    apply h.parts f
    cases hf with
    | literal ho => exact .literal (hsub _ ho)
    | key ho hm => exact .key (hsub _ ho) hm
    | comment ho hm hd hl => exact .comment (hsub _ ho) hm hd hl

structure FreeMember (level : Nat) (m : Member TypeExpr) : Prop where
  key : Free (keyText m.name.toList)
  type : Free (m.type.textAt level)
  comment : ∀ d, m.description = some d → ∀ l ∈ commentLines d.toList, Free l

theorem free_memberLines_append {m : Member TypeExpr} {level : Nat} (h : FreeMember level m)
    (hw : Free w) : Free (memberLines level m ++ w) := by
  have hend : Free (m.type.textAt level ++ ';' :: '\n' :: w) :=
    h.type.append_cons (hw.cons (by decide)) (by decide)
  have hmember : Free (memberText m.name m.optional (m.type.textAt level) ++ ';' :: '\n' :: w) := by
    have hcolon := hend.cons (c := ' ') (by decide)
    unfold memberText
    cases m.optional with
    | false => simpa using h.key.append_cons hcolon (c := ':') (by decide)
    | true =>
      have hoptional := hcolon.cons (c := ':') (by decide)
      simpa using h.key.append_cons hoptional (c := '?') (by decide)
  have hline := hmember.indented level
  unfold memberLines
  cases hd : m.description with
  | none => simpa using hline
  | some d => simpa using free_docComment_append (h.comment d hd) hline level

theorem free_indexAt {index : Option TypeExpr} {level : Nat}
    (htype : ∀ t, index = some t → Free (t.textAt level)) (hw : Free w) :
    Free (indexAt level index ++ w) := by
  cases index with
  | none => exact hw
  | some t =>
    have hk : Free "[k: string]".toList := by
      unfold Free
      decide
    have htext := (htype t rfl).append_cons (hw.cons (c := '\n') (by decide)) (c := ';') (by decide)
    have hline := (hk.append_cons (htext.cons (c := ' ') (by decide)) (c := ':')
      (by decide)).indented level
    simpa [indexAt] using hline

/-- Behind the text of a member stands that of the members after it. -/
theorem free_members_append {ms : List (Member TypeExpr)} {level : Nat}
    (h : ∀ m ∈ ms, FreeMember level m) (hw : Free w) :
    Free (ms.flatMap (memberLines level) ++ w) := by
  induction ms with
  | nil => exact hw
  | cons m ms ih =>
    have hrest := ih fun m' hm => h m' (List.mem_cons_of_mem m hm)
    rw [List.flatMap_cons, List.append_assoc]
    exact free_memberLines_append (h m List.mem_cons_self) hrest

theorem free_object {ms : List (Member TypeExpr)} {index : Option TypeExpr} {level : Nat}
    (hmembers : ∀ m ∈ ms, FreeMember (level + 1) m)
    (hindex : ∀ t, index = some t → Free (t.textAt (level + 1))) :
    Free ((object ms index).textAt level) := by
  have hend : Free (indentation level ++ ['}']) :=
    (free_of_blank_not_mem (by decide)).indented level
  by_cases hne : ms ≠ [] ∨ index ≠ none
  · rw [textAt_object level hne]
    exact ((free_members_append hmembers (free_indexAt hindex hend)).cons (by decide)).cons
      (by decide)
  · simp only [ne_eq, not_or, not_not] at hne
    obtain ⟨rfl, rfl⟩ := hne
    exact free_of_blank_not_mem (show ' ' ∉ ['{', '}'] by decide)

theorem free_textAt (t : TypeExpr) (h : t.Harmless) (level : Nat) : Free (t.textAt level) := by
  -- parts are joined by characters that the mark does not have, so it could only lie inside one of
  -- them
  induction t using TypeExpr.induction generalizing level with
  | keyword k => exact free_of_words fun _ => isWordChar_of_mem_keyword
  | literal l =>
    cases l with
    | string s => exact h.parts _ (.literal .self)
    | _ => exact free_of_words fun _ => isWordChar_of_mem_literal (by simp)
  | named n => exact free_of_words fun _ => isWordChar_of_mem_identifier (h.names n .self)
  | array e ih =>
    have he := ih (h.of_occurs fun _ => .array) level
    have hclose : Free [']'] := free_of_blank_not_mem (by decide)
    exact (he.parenthesized e.isCompound).append_cons hclose (by decide)
  | tuple ts ih =>
    rw [textAt, textsAt_eq_map]
    have hts : Free (List.intercalate [',', ' '] (ts.map (textAt level))) := by
      refine free_intercalate (fun u w hu hw => ?_) ?_
      · exact hu.append_cons (hw.cons (by decide)) (by decide)
      · intro x hx
        obtain ⟨t, ht, rfl⟩ := List.mem_map.1 hx
        exact ih t ht (h.of_occurs fun _ => .tuple ht) level
    exact (hts.append_cons (free_of_blank_not_mem (by simp)) (by decide)).cons (by decide)
  | union ts ih =>
    rw [textAt, textsAt_eq_map]
    refine free_intercalate (fun u w hu hw => ?_) ?_
    · simpa using (hu.concat (by decide)).append_cons (hw.cons (c := ' ') (by decide)) (c := '|')
        (by decide)
    · intro x hx
      obtain ⟨t, ht, rfl⟩ := List.mem_map.1 hx
      exact ih t ht (h.of_occurs fun _ => .union ht) level
  | intersection ts ih =>
    rw [textAt, groupsAt_eq_map]
    refine free_intercalate (fun u w hu hw => ?_) ?_
    · simpa using (hu.concat (by decide)).append_cons (hw.cons (c := ' ') (by decide)) (c := '&')
        (by decide)
    · intro x hx
      obtain ⟨t, ht, rfl⟩ := List.mem_map.1 hx
      exact (ih t ht (h.of_occurs fun _ => .intersection ht) level).parenthesized t.isUnion
  | object ms index ihm ihi =>
    refine free_object (fun m hm => ⟨h.parts _ (.key .self hm), ?_, ?_⟩) fun t hindex => ?_
    · exact ihm m hm (h.of_occurs fun _ => .member hm) (level + 1)
    · exact fun d hd l hl => h.parts l (.comment .self hm hd hl)
    · exact ihi t hindex (h.of_occurs fun _ hn => hindex ▸ .index hn) (level + 1)

end TypeExpr

def Broken (s : List Char) : Prop :=
  ∃ c f, c ∉ aliasMark ∧ '\n' ∉ c :: f ∧ aliasMark <:+: f ∧ c :: f <:+: s

theorem broken_quoted {s : List Char} (h : ¬ Free (quoted s)) : Broken (quoted s) := by
  have hmark : aliasMark <:+: escape s ++ ['"'] := by
    obtain ⟨t, ht⟩ | h := List.infix_cons_iff.1 (not_not.1 h)
    · cases ht
    · exact h
  exact ⟨'"', _, by decide, newline_not_mem_quoted s, hmark, List.infix_rfl⟩

theorem broken_keyText {s : List Char} (h : ¬ Free (keyText s)) : Broken (keyText s) := by
  unfold keyText at h ⊢
  split at h
  · next hi => exact absurd (free_of_words fun _ => isWordChar_of_mem_identifier hi) h
  · next hi =>
    rw [if_neg hi]
    exact broken_quoted h

theorem broken_commentLines {text line : List Char} (hl : line ∈ commentLines text)
    (h : ¬ Free line) : Broken line := by
  have hnl := newline_not_mem_commentLines hl
  obtain ⟨⟨s, rfl⟩, -⟩ := exists_star_of_commentLines hl
  have hmark : aliasMark <:+: s := by
    by_contra hfree
    have hrest : Free s := hfree
    exact h ((hrest.cons (by decide)).cons (by decide))
  -- the star before every line of a comment is not in the mark
  exact ⟨'*', s, by decide, fun hmem => hnl (List.mem_cons_of_mem _ hmem), hmark,
    List.infix_cons List.infix_rfl⟩

theorem TypeExpr.Writes.broken {t : TypeExpr} {f : List Char} (hw : t.Writes f) (h : ¬ Free f) :
    Broken f := by
  cases hw with
  | literal => exact broken_quoted h
  | key => exact broken_keyText h
  | comment _ _ _ hl => exact broken_commentLines hl h

theorem Declaration.Writes.broken {d : Declaration} {f : List Char} (hw : d.Writes f)
    (h : ¬ Free f) : Broken f := by
  cases hw with
  | type hw => exact hw.broken h
  | comment _ hl => exact broken_commentLines hl h

end TypeScript

end ApiTypes
