import ApiTypes.Compile.State
import Mathlib.Data.List.Nodup

namespace ApiTypes

namespace Naming

/-- A capital of a kept character is kept. -/
theorem all_joinWords {keep : Char → Bool} (hkeep : ∀ c, keep c → keep c.toUpper) (wordStart : Bool)
    (s : List Char) : (joinWords keep wordStart s).all keep := by
  induction s generalizing wordStart with
  | nil => rfl
  | cons c s ih =>
    by_cases hc : keep c
    · cases wordStart <;> simp [joinWords, hc, ih, hkeep c hc]
    · simp [joinWords, hc, ih]

/-- Kept characters within a word stay as they are. -/
theorem joinWords_of_all {keep : Char → Bool} {s : List Char} (h : s.all keep) :
    joinWords keep false s = s := by
  induction s with
  | nil => rfl
  | cons c s ih =>
    obtain ⟨hc, hs⟩ := Bool.and_eq_true_iff.1 h
    rw [joinWords, if_pos hc, ih hs]
    rfl

/-- A text of kept characters is one word and gets a capital. -/
theorem joinWords_word {keep : Char → Bool} {s : List Char} (h : s.all keep) :
    joinWords keep true s = s.modifyHead Char.toUpper := by
  cases s with
  | nil => rfl
  | cons c s =>
    obtain ⟨hc, hs⟩ := Bool.and_eq_true_iff.1 h
    rw [joinWords, if_pos hc, joinWords_of_all hs]
    rfl

end Naming

namespace TypeScript

theorem isLower_iff {c : Char} : c.isLower ↔ 'a'.val ≤ c.val ∧ c.val ≤ 'z'.val :=
  Bool.and_eq_true_iff.trans (and_congr decide_eq_true_iff decide_eq_true_iff)

theorem isUpper_iff {c : Char} : c.isUpper ↔ 'A'.val ≤ c.val ∧ c.val ≤ 'Z'.val :=
  decide_eq_true_iff

/-- The capital of a lower-case letter is 32 code points below it. -/
theorem isUpper_toUpper {c : Char} (h : c.isLower) : c.toUpper.isUpper := by
  have hc := isLower_iff.1 h
  have hlow := UInt32.le_iff_toNat_le.1 hc.1
  have hhigh := UInt32.le_iff_toNat_le.1 hc.2
  have ha : 'a'.val.toNat = 97 := by decide
  have hz : 'z'.val.toNat = 122 := by decide
  have hval : c.toUpper.val = c.val + ('A'.val - 'a'.val) := by
    delta Char.toUpper
    rw [dif_pos hc]
  have hn : c.toUpper.val.toNat = c.val.toNat - 32 := by
    rw [hval, UInt32.toNat_add]
    have : ('A'.val - 'a'.val).toNat = 4294967264 := by decide
    omega
  apply decide_eq_true
  constructor
  · apply UInt32.le_iff_toNat_le.2
    have : 'A'.val.toNat = 65 := by decide
    omega
  · apply UInt32.le_iff_toNat_le.2
    have : 'Z'.val.toNat = 90 := by decide
    omega

theorem toUpper_of_not_isLower {c : Char} (h : ¬ c.isLower) : c.toUpper = c := by
  delta Char.toUpper
  rw [dif_neg (mt isLower_iff.2 h)]

theorem not_isLower_of_isUpper {c : Char} (h : c.isUpper) : ¬ c.isLower := by
  intro hl
  have hlow := UInt32.le_iff_toNat_le.1 (isLower_iff.1 hl).1
  have hhigh := UInt32.le_iff_toNat_le.1 (isUpper_iff.1 h).2
  have ha : 'a'.val.toNat = 97 := by decide
  have hZ : 'Z'.val.toNat = 90 := by decide
  omega

theorem not_isLower_toUpper (c : Char) : ¬ c.toUpper.isLower := by
  by_cases h : c.isLower
  · exact not_isLower_of_isUpper (isUpper_toUpper h)
  · rwa [toUpper_of_not_isLower h]

theorem isAlphanum_of_isUpper {c : Char} (h : c.isUpper) : c.isAlphanum :=
  Bool.or_eq_true_iff.2 (.inl (Bool.or_eq_true_iff.2 (.inl h)))

theorem isAlphanum_of_isDigit {c : Char} (h : c.isDigit) : c.isAlphanum :=
  Bool.or_eq_true_iff.2 (.inr h)

/-- Where capitals are kept, the capital of a kept character is. -/
theorem keep_toUpper {keep : Char → Bool} (hkeep : ∀ c, c.isUpper → keep c) (c : Char)
    (h : keep c) : keep c.toUpper := by
  by_cases hl : c.isLower
  · exact hkeep _ (isUpper_toUpper hl)
  · rwa [toUpper_of_not_isLower hl]

/-- The code points of ASCII letters and digits are between those of `0` and `z`. -/
theorem toNat_of_isAlphanum {c : Char} (h : c.isAlphanum) : 48 ≤ c.toNat ∧ c.toNat ≤ 122 := by
  have hbounds : ∀ {a b : Char}, a.val ≤ c.val ∧ c.val ≤ b.val → a.toNat ≤ c.toNat ∧
      c.toNat ≤ b.toNat := fun h => ⟨UInt32.le_iff_toNat_le.1 h.1, UInt32.le_iff_toNat_le.1 h.2⟩
  have hA : 'A'.toNat = 65 ∧ 'Z'.toNat = 90 := by decide
  have ha : 'a'.toNat = 97 ∧ 'z'.toNat = 122 := by decide
  have h0 : '0'.toNat = 48 ∧ '9'.toNat = 57 := by decide
  obtain halpha | hdigit := Bool.or_eq_true_iff.1 h
  · obtain hupper | hlower := Bool.or_eq_true_iff.1 halpha
    · have := hbounds (isUpper_iff.1 hupper)
      omega
    · have := hbounds (isLower_iff.1 hlower)
      omega
  · have hdigit' : '0'.val ≤ c.val ∧ c.val ≤ '9'.val := by
      obtain ⟨hlow, hhigh⟩ := Bool.and_eq_true_iff.1 hdigit
      exact ⟨of_decide_eq_true hlow, of_decide_eq_true hhigh⟩
    have := hbounds hdigit'
    omega

theorem isIdentifierChar_of_isAlphanum {c : Char} (h : c.isAlphanum) : isIdentifierChar c := by
  simp [isIdentifierChar, h]

theorem isIdentifierChar_toUpper (c : Char) (h : isIdentifierChar c) :
    isIdentifierChar c.toUpper :=
  keep_toUpper (fun _ hu => isIdentifierChar_of_isAlphanum (isAlphanum_of_isUpper hu)) c h

theorem isIdentifierChar_of_isDigit {c : Char} (h : c.isDigit) : isIdentifierChar c :=
  isIdentifierChar_of_isAlphanum (isAlphanum_of_isDigit h)

theorem isIdentifier_safeNameChars (hint : List Char) : isIdentifier (safeNameChars hint) := by
  have hall := Naming.all_joinWords isIdentifierChar_toUpper true hint
  unfold safeNameChars
  split
  · rfl
  · next c s hw =>
    rw [hw] at hall
    split
    · have hT : isIdentifierChar 'T' := by decide
      simpa [isIdentifier, hT] using hall
    · next hd => simpa [isIdentifier, hd] using hall

theorem isIdentifier_safeName (hint : String) : isIdentifier (safeName hint).toList := by
  simpa [safeName] using isIdentifier_safeNameChars hint.toList

theorem not_isLower_head?_joinWords (keep : Char → Bool) (s : List Char) :
    ∀ c ∈ (Naming.joinWords keep true s).head?, ¬ c.isLower := by
  induction s with
  | nil => simp [Naming.joinWords]
  | cons d s ih =>
    unfold Naming.joinWords
    split
    · intro c hc
      obtain rfl := Option.some.inj hc
      exact not_isLower_toUpper d
    · exact ih

/-- A word that does not begin with a lower-case letter stays as it is. -/
theorem joinWords_eq_self {keep : Char → Bool} {s : List Char} (h : s.all keep)
    (hhead : ∀ c ∈ s.head?, ¬ c.isLower) : Naming.joinWords keep true s = s := by
  rw [Naming.joinWords_word h]
  cases s with
  | nil => rfl
  | cons c s => exact congrArg (· :: s) (toUpper_of_not_isLower (hhead c rfl))

/-- The name of a declaration does not begin with a lower-case letter, as all keywords do. -/
theorem not_isLower_head?_safeNameChars (hint : List Char) :
    ∀ c ∈ (safeNameChars hint).head?, ¬ c.isLower := by
  have hhead := not_isLower_head?_joinWords isIdentifierChar hint
  have hT : 'T'.isLower = false := by decide
  unfold safeNameChars
  split
  · simp [hT]
  · next c s hs =>
    rw [hs] at hhead
    split
    · simp [hT]
    · exact hhead

/-- An identifier that does not begin with a lower-case letter is the name made from it. -/
theorem safeNameChars_of_isIdentifier {s : List Char} (hs : isIdentifier s)
    (hhead : ∀ c ∈ s.head?, ¬ c.isLower) : safeNameChars s = s := by
  cases s with
  | nil => cases hs
  | cons c s =>
    obtain ⟨hdigit, hall⟩ := Bool.and_eq_true_iff.1 hs
    rw [safeNameChars, joinWords_eq_self hall hhead]
    simpa using hdigit

theorem safeName_of_isIdentifier {name : String} (h : isIdentifier name.toList)
    (hhead : ∀ c ∈ name.toList.head?, ¬ c.isLower) : safeName name = name := by
  rw [safeName, safeNameChars_of_isIdentifier h hhead, String.ofList_toList]

theorem not_isLower_head?_safeName (hint : String) :
    ∀ c ∈ (safeName hint).toList.head?, ¬ c.isLower := by
  rw [safeName, String.toList_ofList]
  exact not_isLower_head?_safeNameChars hint.toList

theorem isIdentifier_append_digits {s ds : List Char} (hs : isIdentifier s)
    (hds : ∀ c ∈ ds, c.isDigit) : isIdentifier (s ++ ds) := by
  cases s with
  | nil => simp [isIdentifier] at hs
  | cons c s =>
    simp only [isIdentifier, List.cons_append, Bool.and_eq_true, List.all_cons, List.all_append,
      List.all_eq_true] at hs ⊢
    exact ⟨hs.1, hs.2.1, hs.2.2, fun d hd => isIdentifierChar_of_isDigit (hds d hd)⟩

end TypeScript

namespace Compile

open TypeScript

theorem toList_candidate_succ (base : String) (k : Nat) :
    (candidate base (k + 1)).toList = base.toList ++ Nat.toDigits 10 (k + 1) := by
  simp [candidate, Nat.toString_eq_repr, Nat.repr_eq_ofList_toDigits]

theorem candidate_injective (base : String) : Function.Injective (candidate base) := by
  intro j k h
  have hl := congrArg String.toList h
  cases j with
  | zero =>
    cases k with
    | zero => rfl
    | succ k =>
      rw [toList_candidate_succ] at hl
      exact absurd (List.self_eq_append_right.1 hl) Nat.toDigits_ne_nil
  | succ j =>
    cases k with
    | zero =>
      rw [toList_candidate_succ] at hl
      exact absurd (List.append_right_eq_self.1 hl) Nat.toDigits_ne_nil
    | succ k =>
      -- numbers with the same digits are equal
      rw [toList_candidate_succ, toList_candidate_succ] at hl
      have hd := congrArg (fun ds => Nat.ofDigitChars 10 ds 0) (List.append_cancel_left hl)
      simpa [Nat.ofDigitChars_toDigits] using hd

/-- More candidates than names leave one that is not in use. -/
theorem exists_candidate_not_mem (names : List String) (base : String) :
    ∃ k ∈ List.range (names.length + 1), candidate base k ∉ names := by
  -- otherwise more names than there are would be in use
  by_contra! hall
  have hnodup : ((List.range (names.length + 1)).map (candidate base)).Nodup :=
    List.nodup_range.map (candidate_injective base)
  have hsub : (List.range (names.length + 1)).map (candidate base) ⊆ names := by
    intro n hn
    obtain ⟨k, hk, rfl⟩ := List.mem_map.1 hn
    exact hall k hk
  have hle := hnodup.length_le_of_subset hsub
  simp only [List.length_map, List.length_range] at hle
  omega

/-- The search for a name ends: at most as many candidates as there are names are in use before the
one that is taken. -/
theorem exists_freshName (names : List String) (base : String) :
    ∃ k ≤ names.length, freshName names base = candidate base k ∧ candidate base k ∉ names ∧
      ∀ j < k, candidate base j ∈ names := by
  obtain ⟨i, hi, hfree⟩ := exists_candidate_not_mem names base
  have hfound : ((List.range (names.length + 1)).find? fun k =>
      !names.contains (candidate base k)).isSome :=
    List.find?_isSome.2 ⟨i, hi, by simpa using hfree⟩
  obtain ⟨k, hk⟩ := Option.isSome_iff_exists.1 hfound
  obtain ⟨hnew, hrange, hbefore⟩ := List.find?_range_eq_some.1 hk
  have hle : k ≤ names.length := Nat.lt_succ_iff.1 (List.mem_range.1 hrange)
  refine ⟨k, hle, ?_, by simpa using hnew, fun j hj => by simpa using hbefore j hj⟩
  rw [freshName, hk, Option.getD_some]

theorem freshName_not_mem (names : List String) (base : String) : freshName names base ∉ names := by
  obtain ⟨k, -, hk, hnew, -⟩ := exists_freshName names base
  rwa [hk]

theorem isIdentifier_candidate {base : String} (h : isIdentifier base.toList) (k : Nat) :
    isIdentifier (candidate base k).toList := by
  cases k with
  | zero => exact h
  | succ k =>
    rw [toList_candidate_succ]
    exact isIdentifier_append_digits h fun c hc =>
      Nat.isDigit_of_mem_toDigits (by decide) (by decide) hc

theorem isIdentifier_freshName (names : List String) {base : String}
    (h : isIdentifier base.toList) : isIdentifier (freshName names base).toList := by
  obtain ⟨k, -, hk, -⟩ := exists_freshName names base
  rw [hk]
  exact isIdentifier_candidate h k

theorem head?_candidate {base : String} (h : isIdentifier base.toList) (k : Nat) :
    (candidate base k).toList.head? = base.toList.head? := by
  cases k with
  | zero => rfl
  | succ k =>
    rw [toList_candidate_succ]
    cases hbase : base.toList with
    | nil =>
      rw [hbase] at h
      cases h
    | cons c s => rfl

/-- A name that is given out is the name made from itself. -/
theorem safeName_freshName (names : List String) (hint : String) :
    safeName (freshName names (safeName hint)) = freshName names (safeName hint) := by
  have hid := isIdentifier_safeName hint
  obtain ⟨k, -, hk, -⟩ := exists_freshName names (safeName hint)
  rw [hk]
  apply safeName_of_isIdentifier (isIdentifier_candidate hid k)
  rw [head?_candidate hid]
  exact not_isLower_head?_safeName hint

end Compile

end ApiTypes
