namespace ApiTypes.Text

def lines : List Char → List (List Char)
  | [] => []
  | '\n' :: s => [] :: lines s
  | '\r' :: '\n' :: s => [] :: lines s
  | c :: s =>
    match lines s with
    | [] => [[c]]
    | line :: rest => (c :: line) :: rest

def unlines (ls : List (List Char)) : List Char :=
  ls.flatMap fun l => l ++ ['\n']

theorem lines_append_newline {l s : List Char} (hn : '\n' ∉ l) (hr : l.getLast? ≠ some '\r') :
    lines (l ++ '\n' :: s) = l :: lines s := by
  induction l with
  | nil => simp [lines]
  | cons c l ih =>
    rw [List.mem_cons, not_or] at hn
    have hl : l.getLast? ≠ some '\r' := by
      intro hl
      rw [List.getLast?_cons, hl] at hr
      exact hr rfl
    have hcrlf : ∀ t, c = '\r' → l ++ '\n' :: s = '\n' :: t → False := by
      rintro t rfl h
      cases l with
      | nil => exact hr rfl
      | cons d l => exact hn.2 ((List.cons.inj h).1 ▸ List.mem_cons_self)
    rw [List.cons_append, lines.eq_4 _ _ (Ne.symm hn.1) hcrlf, ih hn.2 hl]

theorem lines_unlines {ls : List (List Char)} (h : ∀ l ∈ ls, '\n' ∉ l ∧ l.getLast? ≠ some '\r') :
    lines (unlines ls) = ls := by
  induction ls with
  | nil => rfl
  | cons l ls ih =>
    obtain ⟨hn, hr⟩ := h l List.mem_cons_self
    have hls := ih fun x hx => h x (List.mem_cons_of_mem _ hx)
    rw [unlines, List.flatMap_cons, List.append_assoc]
    exact (lines_append_newline hn hr).trans (congrArg (l :: ·) hls)

end ApiTypes.Text
