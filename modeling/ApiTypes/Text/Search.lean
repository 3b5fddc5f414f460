namespace ApiTypes.Text

/-- What follows `p` in `s`, if `s` starts with `p`. -/
def after? (p s : List Char) : Option (List Char) :=
  match p, s with
  | [], s => some s
  | _ :: _, [] => none
  | a :: p, b :: s => if a = b then after? p s else none

def startsWith (p s : List Char) : Bool :=
  (after? p s).isSome

def contains (p : List Char) : List Char → Bool
  | [] => p.isEmpty
  | c :: s => startsWith p (c :: s) || contains p s

/-- `replaceFrom old new k s` skips `k` characters of `s`, then writes `new` for every occurrence
of `old`.  The skipped characters are the rest of an occurrence already written. -/
def replaceFrom (old new : List Char) : Nat → List Char → List Char
  | _, [] => []
  | k + 1, _ :: s => replaceFrom old new k s
  | 0, c :: s =>
    if startsWith old (c :: s) then new ++ replaceFrom old new (old.length - 1) s
    else c :: replaceFrom old new 0 s

def replaceAll (old new s : List Char) : List Char :=
  replaceFrom old new 0 s

def replaceFirst (old new s : List Char) : List Char :=
  match after? old s with
  | some rest => new ++ rest
  | none =>
    match s with
    | [] => []
    | c :: s => c :: replaceFirst old new s

def splitFirst? (c : Char) : List Char → Option (List Char × List Char)
  | [] => none
  | d :: s => if d = c then some ([], s) else (splitFirst? c s).map fun (a, b) => (d :: a, b)

def splitLast? (c : Char) (s : List Char) : Option (List Char × List Char) :=
  (splitFirst? c s.reverse).map fun (a, b) => (b.reverse, a.reverse)

theorem after?_append (p s : List Char) : after? p (p ++ s) = some s := by
  induction p with
  | nil => rfl
  | cons a p ih => simp [after?, ih]

theorem eq_append_of_after? {p s rest : List Char} (h : after? p s = some rest) :
    s = p ++ rest := by
  induction p generalizing s with
  | nil => simpa [after?] using h
  | cons a p ih =>
    cases s with
    | nil => simp [after?] at h
    | cons b s =>
      by_cases hab : a = b
      · simp only [after?, hab, if_true] at h
        simp [hab, ih h]
      · simp [after?, hab] at h

theorem eq_append_of_splitFirst? {c : Char} {s a b : List Char}
    (h : splitFirst? c s = some (a, b)) : s = a ++ c :: b ∧ c ∉ a := by
  induction s generalizing a with
  | nil => simp [splitFirst?] at h
  | cons d s ih =>
    by_cases hd : d = c
    · simp only [splitFirst?, hd, if_true, Option.some.injEq, Prod.mk.injEq] at h
      simp [← h.1, ← h.2, hd]
    · simp only [splitFirst?, hd, if_false, Option.map_eq_some_iff] at h
      obtain ⟨⟨a', b'⟩, hs, he⟩ := h
      simp only [Prod.mk.injEq] at he
      obtain ⟨rfl, rfl⟩ := he
      obtain ⟨rfl, hm⟩ := ih hs
      exact ⟨rfl, by simp [hm, Ne.symm hd]⟩

end ApiTypes.Text
