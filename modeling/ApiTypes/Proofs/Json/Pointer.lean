import ApiTypes.Json.Pointer
import ApiTypes.Proofs.Text.Replace

namespace ApiTypes

namespace Text

/-- A single character is replaced wherever it stands. -/
theorem replaceAll_singleton (c : Char) (new s : List Char) :
    replaceAll [c] new s = s.flatMap fun d => if d = c then new else [d] := by
  induction s with
  | nil => rfl
  | cons d s ih =>
    rw [List.flatMap_cons]
    by_cases hd : d = c
    · subst hd
      have happend : replaceAll [d] new ([d] ++ s) = new ++ replaceAll [d] new s :=
        replaceAll_append (List.cons_ne_nil d []) s
      rw [if_pos rfl, ← ih]
      exact happend
    · have hstart : ¬ [c] <+: d :: s := by
        simpa [List.cons_prefix_cons] using Ne.symm hd
      rw [if_neg hd, replaceAll_cons hstart, ih]
      rfl

end Text

namespace Json.Pointer

open Text

def written (c : Char) : List Char :=
  if c = '~' then ['~', '0'] else if c = '/' then ['~', '1'] else [c]

theorem toList_escape (key : String) : (escape key).toList = key.toList.flatMap written := by
  unfold escape
  rw [String.toList_ofList, replaceAll_singleton, replaceAll_singleton, List.flatMap_assoc]
  congr 1
  funext c
  by_cases htilde : c = '~'
  · subst htilde
    rfl
  · by_cases hslash : c = '/' <;> simp [written, htilde, hslash]

theorem not_mem_written {c d : Char} (h : d ≠ c) (hc : c ∉ ['~', '0', '1']) : c ∉ written d := by
  simp only [List.mem_cons, List.not_mem_nil, or_false, not_or] at hc
  unfold written
  split
  · simp [hc]
  · split
    · simp [hc]
    · simpa using Ne.symm h

/-- Escaping brings in no characters but its own. -/
theorem not_mem_escape {c : Char} {key : String} (h : c ∉ key.toList) (hc : c ∉ ['~', '0', '1']) :
    c ∉ (escape key).toList := by
  rw [toList_escape]
  intro hmem
  obtain ⟨d, hd, hcd⟩ := List.mem_flatMap.1 hmem
  have hne : d ≠ c := fun he => h (he ▸ hd)
  exact not_mem_written hne hc hcd

/-- An escaped key has no slash, so it is one part of a pointer. -/
theorem slash_not_mem_escape (key : String) : '/' ∉ (escape key).toList := by
  rw [toList_escape]
  intro hmem
  obtain ⟨d, -, hd⟩ := List.mem_flatMap.1 hmem
  by_cases hslash : d = '/'
  · subst hslash
    revert hd
    decide
  · exact not_mem_written hslash (by decide) hd

/-- The first replacement of reading takes slashes back and leaves the tildes written. -/
theorem replaceAll_slash_written (s : List Char) :
    replaceAll ['~', '1'] ['/'] (s.flatMap written) =
      s.flatMap fun c => if c = '~' then ['~', '0'] else [c] := by
  induction s with
  | nil => rfl
  | cons c s ih =>
    rw [List.flatMap_cons, List.flatMap_cons, ← ih]
    by_cases htilde : c = '~'
    · subst htilde
      -- the mark of a tilde is no mark of a slash, nor does one begin inside it
      have hfirst : ¬ ['~', '1'] <+: '~' :: '0' :: s.flatMap written := by
        simp [List.cons_prefix_cons]
      have hsecond : ¬ ['~', '1'] <+: '0' :: s.flatMap written := by
        simp [List.cons_prefix_cons]
      change replaceAll _ _ ('~' :: '0' :: s.flatMap written) = _
      rw [replaceAll_cons hfirst, replaceAll_cons hsecond]
      rfl
    · rw [if_neg htilde]
      by_cases hslash : c = '/'
      · subst hslash
        exact replaceAll_append (by decide) (s.flatMap written)
      · have hwritten : written c = [c] := by simp [written, htilde, hslash]
        have hstart : ¬ ['~', '1'] <+: c :: s.flatMap written := by
          simp [List.cons_prefix_cons, Ne.symm htilde]
        rw [hwritten]
        exact replaceAll_cons hstart

theorem replaceAll_tilde_written (s : List Char) :
    replaceAll ['~', '0'] ['~'] (s.flatMap fun c => if c = '~' then ['~', '0'] else [c]) = s := by
  induction s with
  | nil => rfl
  | cons c s ih =>
    rw [List.flatMap_cons]
    by_cases htilde : c = '~'
    · subst htilde
      rw [if_pos rfl, replaceAll_append (by decide), ih]
      rfl
    · have hstart : ∀ w, ¬ ['~', '0'] <+: c :: w := by
        simp [List.cons_prefix_cons, Ne.symm htilde]
      rw [if_neg htilde, List.singleton_append, replaceAll_cons (hstart _), ih]

/-- Reading an escaped key gives back the key. -/
theorem unescape_escape (key : String) : unescape (escape key).toList = key := by
  unfold unescape
  rw [toList_escape, replaceAll_slash_written, replaceAll_tilde_written, String.ofList_toList]

theorem escape_injective : Function.Injective escape := by
  intro key key' h
  have hread := congrArg (fun w : String => unescape w.toList) h
  simpa only [unescape_escape] using hread

theorem splitOn_escape (key : String) :
    (escape key).toList.splitOn '/' = [(escape key).toList] :=
  List.splitOn_eq_singleton (slash_not_mem_escape key)

end Json.Pointer

end ApiTypes
