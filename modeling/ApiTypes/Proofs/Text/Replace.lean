import ApiTypes.Text.Search
import Mathlib.Data.List.Infix

namespace ApiTypes.Text

variable {p u w s : List Char} {c : Char}

theorem startsWith_iff : startsWith p s ↔ p <+: s := by
  unfold startsWith
  constructor
  · intro h
    obtain ⟨rest, hrest⟩ := Option.isSome_iff_exists.1 h
    exact ⟨rest, (eq_append_of_after? hrest).symm⟩
  · rintro ⟨rest, rfl⟩
    rw [after?_append]
    rfl

theorem prefix_of_prefix_append_cons (hc : c ∉ p) (h : p <+: u ++ c :: w) : p <+: u := by
  obtain ⟨t, ht⟩ := h
  obtain ⟨v, hv, -⟩ | ⟨v, rfl, hv⟩ := List.append_eq_append_iff.1 ht
  · exact ⟨v, hv.symm⟩
  · cases v with
    | nil => simp
    | cons d v =>
      obtain ⟨rfl, -⟩ := List.cons.inj hv
      simp at hc

theorem infix_append_cons_iff (hc : c ∉ p) (hp : p ≠ []) :
    p <:+: u ++ c :: w ↔ p <:+: u ∨ p <:+: w := by
  constructor
  · rintro ⟨a, b, h⟩
    rw [List.append_assoc] at h
    -- an occurrence that begins before `c` ends before it
    obtain ⟨v, rfl, hv⟩ | ⟨v, rfl, hv⟩ := List.append_eq_append_iff.1 h
    · exact .inl ((prefix_of_prefix_append_cons hc ⟨b, hv⟩).isInfix.trans
        List.infix_append_right)
    · cases v with
      | nil =>
        cases p with
        | nil => exact absurd rfl hp
        | cons d p =>
          obtain ⟨rfl, -⟩ := List.cons.inj hv
          simp at hc
      | cons d v =>
        obtain ⟨-, rfl⟩ := List.cons.inj hv
        exact .inr ⟨v, b, by simp⟩
  · rintro (h | h)
    · exact List.infix_append_of_infix_left h
    · exact List.infix_append_of_infix_right (List.infix_cons h)

section replace

variable {old new : List Char}

theorem replaceFrom_eq (k : Nat) (s : List Char) :
    replaceFrom old new k s = replaceAll old new (s.drop k) := by
  induction s generalizing k with
  | nil => cases k <;> rfl
  | cons c s ih =>
    cases k with
    | zero => rfl
    | succ k => exact ih k

theorem replaceAll_append (hold : old ≠ []) (s : List Char) :
    replaceAll old new (old ++ s) = new ++ replaceAll old new s := by
  obtain ⟨c, p, rfl⟩ := List.exists_cons_of_ne_nil hold
  have hstart : startsWith (c :: p) (c :: (p ++ s)) := startsWith_iff.2 ⟨s, rfl⟩
  rw [List.cons_append, replaceAll, replaceFrom, if_pos hstart, replaceFrom_eq]
  simp

theorem replaceAll_cons (h : ¬ old <+: c :: s) :
    replaceAll old new (c :: s) = c :: replaceAll old new s := by
  rw [replaceAll, replaceFrom, if_neg (mt startsWith_iff.1 h)]
  rfl

theorem replaceAll_eq_self (h : ¬ old <:+: s) : replaceAll old new s = s := by
  induction s with
  | nil => rfl
  | cons c s ih =>
    have hs := not_or.1 (mt List.infix_cons_iff.2 h)
    rw [replaceAll_cons hs.1, ih hs.2]

/-- A text begins with an occurrence, which is passed as a whole, or with a character that stays. -/
theorem replace_induction {P : List Char → Prop} (hold : old ≠ []) (nil : P [])
    (found : ∀ s, P s → P (old ++ s)) (kept : ∀ c s, ¬ old <+: c :: s → P s → P (c :: s))
    (s : List Char) : P s := by
  induction hn : s.length using Nat.strong_induction_on generalizing s with
  | _ n ih =>
    subst hn
    by_cases hs : old <+: s
    · obtain ⟨t, rfl⟩ := hs
      have hlt : t.length < (old ++ t).length := by
        have := List.length_pos_of_ne_nil hold
        rw [List.length_append]
        omega
      exact found t (ih _ hlt t rfl)
    · cases s with
      | nil => exact nil
      | cons c t => exact kept c t hs (ih _ (by simp) t rfl)

/-- An occurrence that takes in a character begins there if the replaced text has that character
only at its beginning. -/
theorem replaceAll_append_start (hold : old ≠ []) (hc : c ∉ old.tail) (u w : List Char) :
    replaceAll old new (u ++ c :: w) = replaceAll old new u ++ replaceAll old new (c :: w) := by
  induction u using replace_induction hold with
  | nil => rfl
  | found u ih =>
    rw [List.append_assoc, replaceAll_append hold, replaceAll_append hold, ih, List.append_assoc]
  | kept d u hu ih =>
    have hall : ¬ old <+: d :: (u ++ c :: w) := by
      intro h
      obtain ⟨e, p, rfl⟩ := List.exists_cons_of_ne_nil hold
      obtain ⟨rfl, hp⟩ := List.cons_prefix_cons.1 h
      exact hu (List.cons_prefix_cons.2 ⟨rfl, prefix_of_prefix_append_cons hc hp⟩)
    rw [List.cons_append, replaceAll_cons hall, replaceAll_cons hu, ih, List.cons_append]

theorem replaceAll_append_cons (hold : old ≠ []) (hc : c ∉ old) (u w : List Char) :
    replaceAll old new (u ++ c :: w) = replaceAll old new u ++ c :: replaceAll old new w := by
  have hw : ¬ old <+: c :: w := fun h =>
    hold (List.prefix_nil.1 (prefix_of_prefix_append_cons (u := []) hc h))
  rw [replaceAll_append_start hold (fun h => hc (List.mem_of_mem_tail h)), replaceAll_cons hw]

theorem mem_of_mem_replaceAll (hold : old ≠ []) (h : c ∈ replaceAll old new s) :
    c ∈ new ∨ c ∈ s := by
  induction s using replace_induction hold with
  | nil => exact .inr h
  | found s ih =>
    rw [replaceAll_append hold] at h
    obtain h | h := List.mem_append.1 h
    · exact .inl h
    · exact (ih h).imp_right (List.mem_append_right old)
  | kept d s hs ih =>
    rw [replaceAll_cons hs] at h
    obtain rfl | h := List.mem_cons.1 h
    · exact .inr List.mem_cons_self
    · exact (ih h).imp_right (List.mem_cons_of_mem d)

theorem replaceAll_eq_nil (hold : old ≠ []) (hnew : new ≠ []) (h : replaceAll old new s = []) :
    s = [] := by
  induction s using replace_induction hold with
  | nil => rfl
  | found s =>
    rw [replaceAll_append hold] at h
    exact absurd (List.append_eq_nil_iff.1 h).1 hnew
  | kept c s hs =>
    rw [replaceAll_cons hs] at h
    cases h

/-- What a replaced text ends with it ended with before, if the new text does not have it. -/
theorem getLast?_of_replaceAll (hold : old ≠ []) (hnew : new ≠ []) (hc : c ∉ new)
    (h : (replaceAll old new s).getLast? = some c) : s.getLast? = some c := by
  induction s using replace_induction hold with
  | nil => exact h
  | found s ih =>
    rw [replaceAll_append hold, List.getLast?_append] at h
    obtain h | ⟨-, h⟩ := Option.or_eq_some_iff.1 h
    · rw [List.getLast?_append, ih h]
      rfl
    · exact absurd (List.mem_of_getLast? h) hc
  | kept d s hs ih =>
    rw [replaceAll_cons hs] at h
    by_cases hnil : replaceAll old new s = []
    · rw [hnil] at h
      rwa [replaceAll_eq_nil hold hnew hnil]
    · rw [List.getLast?_cons_of_ne_nil hnil] at h
      rw [List.getLast?_cons, ih h]
      rfl

/-- What a replaced text begins with it began with before, if the new text begins otherwise. -/
theorem prefix_of_prefix_replaceAll {q : List Char} (hold : old ≠ []) (hc : c ∉ q)
    (h : q <+: replaceAll old (c :: new) s) : q <+: s := by
  induction q generalizing s with
  | nil => exact List.nil_prefix
  | cons a q ih =>
    have hne : a ≠ c := fun hac => hc (hac ▸ List.mem_cons_self)
    cases s with
    | nil => exact h
    | cons d s =>
      -- a replacement would begin with `c`, which `q` does not have
      by_cases hs : old <+: d :: s
      · obtain ⟨t, ht⟩ := hs
        rw [← ht, replaceAll_append hold] at h
        exact absurd (List.cons_prefix_cons.1 h).1 hne
      · rw [replaceAll_cons hs] at h
        obtain ⟨rfl, hrest⟩ := List.cons_prefix_cons.1 h
        exact List.cons_prefix_cons.2 ⟨rfl, ih (fun hq => hc (List.mem_cons_of_mem a hq)) hrest⟩

/-- The first occurrence is replaced. -/
theorem exists_replaceAll_of_infix (hold : old ≠ []) (h : old <:+: s) :
    ∃ a b, s = a ++ old ++ b ∧ replaceAll old new s = a ++ new ++ replaceAll old new b := by
  induction s with
  | nil => exact absurd (List.infix_nil.1 h) hold
  | cons c s ih =>
    by_cases hs : old <+: c :: s
    · obtain ⟨b, hb⟩ := hs
      refine ⟨[], b, hb.symm, ?_⟩
      rw [← hb, replaceAll_append hold]
      rfl
    · obtain ⟨a, b, rfl, hr⟩ := ih ((List.infix_cons_iff.1 h).resolve_left hs)
      refine ⟨c :: a, b, rfl, ?_⟩
      rw [replaceAll_cons hs, hr]
      rfl

/-- Nothing was replaced if a character of the new text is not there. -/
theorem replaceAll_eq_self_of_not_mem {c : Char} (hold : old ≠ []) (hnew : c ∈ new)
    (hc : c ∉ replaceAll old new s) : replaceAll old new s = s := by
  refine replaceAll_eq_self fun h => hc ?_
  obtain ⟨a, b, -, hr⟩ : ∃ a b, s = a ++ old ++ b ∧
      replaceAll old new s = a ++ new ++ replaceAll old new b := exists_replaceAll_of_infix hold h
  rw [hr]
  simp [hnew]

/-- A text, and what becomes of it where its first occurrence of `old` is replaced if there is
one. -/
inductive ReplacedFirst (old new : List Char) : List Char → List Char → Prop
  | absent {s : List Char} (h : ¬ old <:+: s) : ReplacedFirst old new s s
  | first {u w : List Char}
    (h : ∀ u' w', u ++ old ++ w = u' ++ old ++ w' → u.length ≤ u'.length) :
    ReplacedFirst old new (u ++ old ++ w) (u ++ new ++ w)

theorem ReplacedFirst.start (w : List Char) : ReplacedFirst old new (old ++ w) (new ++ w) :=
  .first (u := []) fun _ _ _ => Nat.zero_le _

/-- A character that no occurrence begins with is passed. -/
theorem ReplacedFirst.cons {t : List Char} (hc : ¬ old <+: c :: s)
    (h : ReplacedFirst old new s t) : ReplacedFirst old new (c :: s) (c :: t) := by
  cases h with
  | absent h => exact .absent fun hs => (List.infix_cons_iff.1 hs).elim hc h
  | @first u w h =>
    refine .first (u := c :: u) fun u' w' heq => ?_
    cases u' with
    | nil => exact absurd ⟨w', heq.symm⟩ hc
    | cons d u' => exact Nat.succ_le_succ (h u' w' (List.cons.inj heq).2)

theorem replacedFirst_replaceFirst (old new s : List Char) :
    ReplacedFirst old new s (replaceFirst old new s) := by
  induction s with
  | nil =>
    unfold replaceFirst
    split
    · next rest hrest =>
      rw [eq_append_of_after? hrest]
      exact .start rest
    · next hnone =>
      refine .absent fun h => ?_
      obtain rfl := List.infix_nil.1 h
      cases hnone
  | cons c s ih =>
    unfold replaceFirst
    split
    · next rest hrest =>
      rw [eq_append_of_after? hrest]
      exact .start rest
    · next hnone =>
      have hc : ¬ old <+: c :: s := by
        rw [← startsWith_iff, startsWith, hnone]
        exact Bool.false_ne_true
      exact ih.cons hc

/-- Replacing a text without characters of a kind keeps those that are there. -/
theorem any_replaceFirst {kind : Char → Bool} (hold : old.any kind = false) (h : s.any kind) :
    (replaceFirst old new s).any kind := by
  have hreplaced := replacedFirst_replaceFirst old new s
  generalize replaceFirst old new s = t at hreplaced
  cases hreplaced with
  | absent => exact h
  | first =>
    simp only [List.any_append, hold, Bool.or_false, Bool.or_eq_true] at h ⊢
    exact h.imp_left .inl

end replace

end ApiTypes.Text
