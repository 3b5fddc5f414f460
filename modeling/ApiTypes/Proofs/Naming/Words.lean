import ApiTypes.Proofs.Naming.Collisions
import ApiTypes.Proofs.Text.NonEmptyLines

namespace ApiTypes.Naming

/-- The words of a text: its longest parts of letters and digits. -/
def words (s : List Char) : List (List Char) :=
  (s.splitOnP fun c => !c.isAlphanum).filter fun w => !w.isEmpty

/-- A character that is not kept parts what is made of a text. -/
theorem joinWords_append_break {keep : Char → Bool} {c : Char} (hc : keep c = false)
    (wordStart : Bool) (s t : List Char) :
    joinWords keep wordStart (s ++ c :: t) =
      joinWords keep wordStart s ++ joinWords keep true t := by
  induction s generalizing wordStart with
  | nil => simp [joinWords, hc]
  | cons d s ih =>
    rw [List.cons_append, joinWords, joinWords]
    split
    · rw [ih, List.cons_append]
    · exact ih true

/-- What is made of a text part by part is made of its words. -/
theorem eq_flatMap_words {f g : List Char → List Char} (hempty : f [] = [])
    (hpart : ∀ s, s.all Char.isAlphanum → g s = f s)
    (hbreak : ∀ s c t, c.isAlphanum = false → g (s ++ c :: t) = g s ++ g t) (s : List Char) :
    g s = (words s).flatMap f := by
  -- a part is one word, or none if it is empty
  have hword : ∀ s, s.any (fun c => !c.isAlphanum) = false → g s = (words s).flatMap f := by
    intro s hs
    have hsplit : s.splitOnP (fun c => !c.isAlphanum) = [s] :=
      List.splitOnP_eq_singleton fun c hc => by simpa using List.any_eq_false.1 hs c hc
    rw [hpart s (by simpa using hs), words, hsplit]
    cases s with
    | nil => exact hempty
    | cons c s => exact (List.append_nil _).symm
  induction s using Text.break_induction fun c => !c.isAlphanum with
  | last s hs => exact hword s hs
  | part u c w hu hc ih =>
    rw [hbreak u c w (by simpa using hc), hword u hu, ih, ← List.flatMap_append]
    unfold words
    rw [List.splitOnP_append_cons u w hc, List.filter_append]

theorem joinWords_eq_flatMap (s : List Char) :
    joinWords Char.isAlphanum true s = (words s).flatMap (List.modifyHead Char.toUpper) :=
  eq_flatMap_words rfl (fun _ => joinWords_word)
    (fun s _ t hc => joinWords_append_break hc true s t) s

/-- Nothing but the breaks is lost between words. -/
theorem flatten_words (s : List Char) : (words s).flatten = s.filter Char.isAlphanum := by
  have hpart : ∀ s : List Char, s.all Char.isAlphanum → s.filter Char.isAlphanum = s :=
    fun s hs => List.filter_eq_self.2 (List.all_eq_true.1 hs)
  have hbreak : ∀ (s : List Char) (c : Char) (t : List Char), c.isAlphanum = false →
      (s ++ c :: t).filter Char.isAlphanum =
        s.filter Char.isAlphanum ++ t.filter Char.isAlphanum := by
    intro s c t hc
    rw [List.filter_append, List.filter_cons_of_neg (by simp [hc])]
  rw [eq_flatMap_words (f := id) rfl hpart hbreak, List.flatMap_id]

theorem toList_normalizeTitle (title : String) :
    (normalizeTitle title).toList = joinWords Char.isAlphanum true title.toList :=
  String.toList_ofList

theorem all_normalizeTitle (title : String) :
    (normalizeTitle title).toList.all Char.isAlphanum := by
  rw [toList_normalizeTitle]
  exact all_joinWords (TypeScript.keep_toUpper fun _ => TypeScript.isAlphanum_of_isUpper) true
    title.toList

theorem normalizeTitle_append_break {c : Char} (hc : c.isAlphanum = false) (a b : String) :
    normalizeTitle (a ++ String.singleton c ++ b) = normalizeTitle a ++ normalizeTitle b := by
  apply String.toList_inj.1
  rw [String.toList_append, toList_normalizeTitle, toList_normalizeTitle, toList_normalizeTitle,
    String.toList_append, String.toList_append, String.toList_singleton, List.append_assoc]
  exact joinWords_append_break hc true a.toList b.toList

/-- A normalized title is one word, and it has its capital. -/
theorem normalizeTitle_normalizeTitle (title : String) :
    normalizeTitle (normalizeTitle title) = normalizeTitle title := by
  have hhead : ∀ c ∈ (normalizeTitle title).toList.head?, ¬ c.isLower := by
    rw [toList_normalizeTitle]
    exact TypeScript.not_isLower_head?_joinWords Char.isAlphanum title.toList
  apply String.toList_inj.1
  rw [toList_normalizeTitle,
    TypeScript.joinWords_eq_self (all_normalizeTitle title) hhead]

/-- A break parts what is made of a title, and what was made of one stays as it is.  It consists of
the letters and digits of the title in their order, where each word has got a capital.  The name of
an endpoint whose path has a letter or digit is made in the same way: its base is the path as a
title, after the first wildcard segment was spelled out. -/
theorem normalizeTitle_words :
    (∀ (a b : String) (c : Char), c.isAlphanum = false →
      normalizeTitle (a ++ String.singleton c ++ b) = normalizeTitle a ++ normalizeTitle b) ∧
    (∀ title, normalizeTitle (normalizeTitle title) = normalizeTitle title) ∧
    (∀ title, (normalizeTitle title).toList.all Char.isAlphanum ∧
      (words title.toList).flatten = title.toList.filter Char.isAlphanum ∧
      (normalizeTitle title).toList =
        (words title.toList).flatMap (List.modifyHead Char.toUpper)) ∧
    ∀ (r : Registry) (path : String), path.toList.any Char.isAlphanum →
      Text.ReplacedFirst "/*".toList "/all".toList path.toList (spelledOut path) ∧
        ∃ base, base = normalizeTitle (String.ofList (spelledOut path)) ∧
          r.endpointName path = (Compile.candidate base (r.count base), r.record base) := by
  refine ⟨fun a b c hc => normalizeTitle_append_break hc a b, normalizeTitle_normalizeTitle,
    fun title => ⟨all_normalizeTitle title, flatten_words title.toList, ?_⟩,
    fun r path hpath => ⟨Text.replacedFirst_replaceFirst _ _ _, baseName path, rfl, ?_⟩⟩
  · rw [toList_normalizeTitle, joinWords_eq_flatMap]
  · exact r.endpointName_of_baseName_ne (baseName_ne_empty hpath)

/-- A letter that is not one of ASCII parts a word, and the second wildcard of a path is none of its
words. -/
theorem normalizeTitle_words_accented :
    'é'.isAlphanum = false ∧
    normalizeTitle ("custom r" ++ String.singleton 'é' ++ "sumé-2x") = "CustomRSum2x" ∧
    normalizeTitle (normalizeTitle "custom résumé-2x") = "CustomRSum2x" ∧
    "/files/*/x-y/*".toList.any Char.isAlphanum ∧
    ((Registry.empty.record "FilesAllXY").endpointName "/files/*/x-y/*").1 = "FilesAllXY1" := by
  obtain ⟨happend, htwice, -, hname⟩ := normalizeTitle_words
  have hbreak : 'é'.isAlphanum = false := by decide
  have hpath : "/files/*/x-y/*".toList.any Char.isAlphanum := by decide
  obtain ⟨-, base, rfl, hendpoint⟩ :=
    hname (Registry.empty.record "FilesAllXY") "/files/*/x-y/*" hpath
  refine ⟨hbreak, (happend _ _ _ hbreak).trans (by decide +kernel),
    (htwice _).trans (by decide +kernel), hpath, ?_⟩
  rw [hendpoint]
  decide +kernel

end ApiTypes.Naming
