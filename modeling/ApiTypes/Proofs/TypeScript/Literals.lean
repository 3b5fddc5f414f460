import ApiTypes.Json.Reader
import ApiTypes.TypeScript.Quoted

namespace ApiTypes.TypeScript

/-- The character that a backslash and `e` stand for; escapes with a code are not among these. -/
def escaped? (e : Char) : Option Char :=
  match e with
  | 'n' => some '\n'
  | 'r' => some '\r'
  | 't' => some '\t'
  | 'b' => some '\x08'
  | 'f' => some '\x0c'
  | 'v' => some '\x0b'
  | 'u' | 'x' | '\n' | '\r' => none
  | e => if e.isDigit then none else some e

def unitChar? (a b c d : Char) : Option Char := do
  let unit := 4096 * (← Json.Reader.hexValue? a) + 256 * (← Json.Reader.hexValue? b) +
    16 * (← Json.Reader.hexValue? c) + (← Json.Reader.hexValue? d)
  if unit.isValidChar then some (Char.ofNat unit) else none

/-- The text of a literal and the source behind it, read from behind its opening quote `q`. -/
def literal? (q : Char) : List Char → Option (List Char × List Char)
  | [] => none
  | '\\' :: 'u' :: a :: b :: c :: d :: s => do
    let x ← unitChar? a b c d
    let (text, rest) ← literal? q s
    return (x :: text, rest)
  | '\\' :: e :: s => do
    let x ← escaped? e
    let (text, rest) ← literal? q s
    return (x :: text, rest)
  | c :: s =>
    if c = q then some ([], s)
    else if c = '\n' ∨ c = '\r' then none
    else do
      let (text, rest) ← literal? q s
      return (c :: text, rest)

variable {q : Char} {s text rest : List Char}

theorem length_lt_of_literal? (h : literal? q s = some (text, rest)) : rest.length < s.length := by
  fun_induction literal? q s generalizing text with
  | case1 => cases h
  | case2 a b c d s ih =>
    obtain ⟨x, -, h⟩ := Option.bind_eq_some_iff.1 h
    obtain ⟨⟨u, w⟩, hs, h⟩ := Option.bind_eq_some_iff.1 h
    obtain ⟨-, rfl⟩ := Prod.mk.inj (Option.some.inj h)
    have := ih hs
    simp only [List.length_cons]
    omega
  | case3 e s hu ih =>
    obtain ⟨x, -, h⟩ := Option.bind_eq_some_iff.1 h
    obtain ⟨⟨u, w⟩, hs, h⟩ := Option.bind_eq_some_iff.1 h
    obtain ⟨-, rfl⟩ := Prod.mk.inj (Option.some.inj h)
    have := ih hs
    simp only [List.length_cons]
    omega
  | case4 s =>
    obtain ⟨-, rfl⟩ := Prod.mk.inj (Option.some.inj h)
    exact Nat.lt_succ_self _
  | case5 => cases h
  | case6 c s _ _ _ _ ih =>
    obtain ⟨⟨u, w⟩, hs, h⟩ := Option.bind_eq_some_iff.1 h
    obtain ⟨-, rfl⟩ := Prod.mk.inj (Option.some.inj h)
    have := ih hs
    simp only [List.length_cons]
    omega

/-- A character that is neither the quote nor a backslash nor a line break stands for itself. -/
theorem literal?_cons {c : Char} (hq : c ≠ q) (hb : c ≠ '\\') (hn : c ≠ '\n') (hr : c ≠ '\r')
    (h : literal? q s = some (text, rest)) : literal? q (c :: s) = some (c :: text, rest) := by
  rw [literal?.eq_4]
  · simp [hq, hn, hr, h]
  all_goals simp [hb]

theorem literal?_close (hb : q ≠ '\\') (s : List Char) : literal? q (q :: s) = some ([], s) := by
  rw [literal?.eq_4]
  · simp
  all_goals simp [hb]

theorem hexValue?_hexDigit {k : Nat} (h : k < 16) :
    Json.Reader.hexValue? (Json.hexDigit k) = some k := by
  have hall : ∀ k < 16, Json.Reader.hexValue? (Json.hexDigit k) = some k := by decide
  exact hall k h

theorem literal?_hex4 {c : Char} (hc : c.toNat < 65536) (h : literal? q s = some (text, rest)) :
    literal? q ('\\' :: 'u' :: (Json.hex4 c.toNat ++ s)) = some (c :: text, rest) := by
  have hvalue : 4096 * (c.toNat / 4096 % 16) + 256 * (c.toNat / 256 % 16) +
      16 * (c.toNat / 16 % 16) + c.toNat % 16 = c.toNat := by omega
  have hchar : Char.ofNat c.toNat = c := Char.ofNat_toNat c
  have hvalid : c.toNat.isValidChar := c.valid
  simp only [Json.hex4, List.map_cons, List.map_nil, List.cons_append, List.nil_append, literal?,
    unitChar?]
  simp [hexValue?_hexDigit, Nat.mod_lt, hvalue, hchar, hvalid, h]

/-- What is written for one character reads back as that character. -/
theorem literal?_escapeChar (c : Char) (h : literal? '"' s = some (text, rest)) :
    literal? '"' (escapeChar c ++ s) = some (c :: text, rest) := by
  unfold escapeChar
  split
  -- the last case is that of the characters without a short escape
  case h_6 hb hq hn hr _ =>
    split
    · next hcontrol =>
      have hc : c.toNat < 65536 := by
        simp only [Text.isControl, Text.isLineSeparator, Bool.or_eq_true, Bool.and_eq_true,
          decide_eq_true_eq, beq_iff_eq] at hcontrol
        omega
      exact literal?_hex4 hc h
    · exact literal?_cons hq hb hn hr h
  all_goals simp [literal?, escaped?, h]

theorem literal?_escape (s rest : List Char) :
    literal? '"' (escape s ++ '"' :: rest) = some (s, rest) := by
  induction s with
  | nil => exact literal?_close (by decide) rest
  | cons c s ih =>
    rw [escape, List.flatMap_cons, List.append_assoc]
    exact literal?_escapeChar c ih

/-- A text without escapes is the literal of itself between quotes that it does not have. -/
theorem literal?_plain {content : List Char} (hq : q ∉ content) (hb : '\\' ∉ content)
    (hn : '\n' ∉ content) (hr : '\r' ∉ content) (hquote : q ≠ '\\') (rest : List Char) :
    literal? q (content ++ q :: rest) = some (content, rest) := by
  induction content with
  | nil => exact literal?_close hquote rest
  | cons c content ih =>
    simp only [List.mem_cons, not_or] at hq hb hn hr
    exact literal?_cons (Ne.symm hq.1) (Ne.symm hb.1) (Ne.symm hn.1) (Ne.symm hr.1)
      (ih hq.2 hb.2 hn.2 hr.2)

/-- Neither line endings nor any other control characters are written as they are. -/
theorem isControl_of_mem_escapeChar {c d : Char} (hd : d ∈ escapeChar c) :
    Text.isControl d = false ∧ Text.isLineSeparator d = false := by
  have hdigit : ∀ k < 16, Text.isControl (Json.hexDigit k) = false ∧
      Text.isLineSeparator (Json.hexDigit k) = false := by decide
  unfold escapeChar at hd
  split at hd
  case h_6 =>
    split at hd
    · obtain rfl | rfl | hd := by simpa only [List.mem_cons] using hd
      · decide
      · decide
      · obtain ⟨k, hk, rfl⟩ := List.mem_map.1 hd
        apply hdigit
        simp only [List.mem_cons, List.not_mem_nil, or_false] at hk
        omega
    · next hplain =>
      obtain rfl := List.mem_singleton.1 hd
      simpa using hplain
  all_goals
    simp only [List.mem_cons, List.not_mem_nil, or_false] at hd
    obtain rfl | rfl := hd <;> decide

theorem isControl_of_mem_quoted {s : List Char} {d : Char} (hd : d ∈ quoted s) :
    Text.isControl d = false ∧ Text.isLineSeparator d = false := by
  simp only [quoted, escape, List.mem_cons, List.mem_append, List.mem_flatMap, List.not_mem_nil,
    or_false] at hd
  obtain (rfl | ⟨c, -, hd⟩) | rfl := hd
  · decide
  · exact isControl_of_mem_escapeChar hd
  · decide

theorem ne_of_mem_quoted {s : List Char} {d : Char} (hd : d ∈ quoted s) :
    d ≠ '\n' ∧ d ≠ '\r' := by
  constructor <;> rintro rfl <;> exact absurd (isControl_of_mem_quoted hd).1 (by decide)

theorem newline_not_mem_quoted (s : List Char) : '\n' ∉ quoted s := fun h =>
  (ne_of_mem_quoted h).1 rfl

end ApiTypes.TypeScript
