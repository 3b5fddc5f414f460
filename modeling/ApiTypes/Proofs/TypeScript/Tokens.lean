import ApiTypes.Proofs.Compile.Names
import ApiTypes.Proofs.TypeScript.Comments
import ApiTypes.Proofs.TypeScript.Literals

namespace ApiTypes.TypeScript

inductive Token where
  | symbol (c : Char)
  | word (w : String)
  | number (n : Nat)
  | text (s : String)
  deriving DecidableEq, Repr

def isSymbol (c : Char) : Bool :=
  ['[', ']', '{', '}', '(', ')', '|', '&', ',', ':', ';', '?', '-'].contains c

/-- A run of characters of identifiers: a number, or a word that does not begin with a digit. -/
def runToken? (run : List Char) : Option Token :=
  if run.all Char.isDigit then some (.number (Nat.ofDigitChars 10 run 0))
  else if isIdentifier run then some (.word (String.ofList run))
  else none

/-- The source behind a block comment, read from behind the slash that opens it. -/
def comment? : List Char → Option (List Char)
  | '*' :: s => afterClose? s
  | _ => none
where
  afterClose? : List Char → Option (List Char)
    | [] => none
    | '*' :: '/' :: s => some s
    | _ :: s => afterClose? s

theorem length_le_of_afterClose? {s rest : List Char} (h : comment?.afterClose? s = some rest) :
    rest.length ≤ s.length := by
  fun_induction comment?.afterClose? s with
  | case1 => cases h
  | case2 s =>
    obtain rfl := Option.some.inj h
    simp only [List.length_cons]
    omega
  | case3 c s _ ih => exact (ih h).trans (Nat.le_succ _)

theorem length_lt_of_comment? {s rest : List Char} (h : comment? s = some rest) :
    rest.length < s.length := by
  unfold comment? at h
  split at h
  · exact Nat.lt_succ_of_le (length_le_of_afterClose? h)
  · cases h

/-- The tokens of a source; blanks and comments stand between them. -/
def tokens? : List Char → Option (List Token)
  | [] => some []
  | c :: s =>
    if Text.isBlank c then tokens? s
    else if isSymbol c then (tokens? s).map (.symbol c :: ·)
    else if isIdentifierChar c then do
      let token ← runToken? (c :: s.takeWhile isIdentifierChar)
      (tokens? (s.dropWhile isIdentifierChar)).map (token :: ·)
    else if c = '"' then
      match _h : literal? '"' s with
      | some (text, rest) => (tokens? rest).map (.text (String.ofList text) :: ·)
      | none => none
    else if c = '/' then
      match _h : comment? s with
      | some rest => tokens? rest
      | none => none
    else none
termination_by s => s.length
decreasing_by
  · simp
  · simp
  · exact Nat.lt_succ_of_le (List.dropWhile_suffix _).length_le
  · exact Nat.lt_succ_of_lt (length_lt_of_literal? _h)
  · exact Nat.lt_succ_of_lt (length_lt_of_comment? _h)

def Lexes (s : List Char) (ts : List Token) : Prop :=
  tokens? s = some ts

def Apart (s : List Char) : Prop :=
  ∀ c ∈ s.head?, isIdentifierChar c = false

theorem Apart.takeWhile_eq {s : List Char} (h : Apart s) : s.takeWhile isIdentifierChar = [] := by
  cases s with
  | nil => rfl
  | cons c s => simp [h c rfl]

theorem Apart.dropWhile_eq {s : List Char} (h : Apart s) : s.dropWhile isIdentifierChar = s := by
  cases s with
  | nil => rfl
  | cons c s => simp [h c rfl]

section lexes

variable {s w : List Char} {ts : List Token} {c : Char}

theorem lexes_nil : Lexes [] [] := by
  rw [Lexes, tokens?]

theorem isBlank_of_isIdentifierChar (h : isIdentifierChar c) : Text.isBlank c = false := by
  simp only [isIdentifierChar, Bool.or_eq_true, beq_iff_eq] at h
  obtain (h | rfl) | rfl := h
  · have hrange := toNat_of_isAlphanum h
    simp only [Text.isBlank, Bool.or_eq_false_iff, Bool.and_eq_false_iff, decide_eq_false_iff_not,
      beq_eq_false_iff_ne]
    omega
  all_goals decide

theorem Lexes.blank (h : Lexes s ts) (hc : Text.isBlank c) : Lexes (c :: s) ts := by
  rw [Lexes, tokens?, if_pos hc]
  exact h

theorem isBlank_of_isSymbol (hc : isSymbol c) :
    Text.isBlank c = false ∧ isIdentifierChar c = false := by
  have hall : ['[', ']', '{', '}', '(', ')', '|', '&', ',', ':', ';', '?', '-'].all
      fun c => !Text.isBlank c && !isIdentifierChar c := by decide
  simpa using List.all_eq_true.1 hall c (List.contains_iff_mem.1 hc)

theorem Lexes.symbol (h : Lexes s ts) (hc : isSymbol c) : Lexes (c :: s) (.symbol c :: ts) := by
  have hblank := (isBlank_of_isSymbol hc).1
  rw [Lexes, tokens?, if_neg (by simp [hblank]), if_pos hc, h]
  rfl

/-- A run of characters of identifiers is taken as a whole. -/
theorem Lexes.run {token : Token} {run : List Char} (h : Lexes s ts) (hs : Apart s)
    (hne : run ≠ []) (hrun : ∀ c ∈ run, isIdentifierChar c) (htoken : runToken? run = some token) :
    Lexes (run ++ s) (token :: ts) := by
  obtain ⟨c, run, rfl⟩ := List.exists_cons_of_ne_nil hne
  have hc : isIdentifierChar c := hrun c List.mem_cons_self
  have hblank := isBlank_of_isIdentifierChar hc
  have hsymbol : isSymbol c = false := by
    by_contra hsymbol
    have := (isBlank_of_isSymbol (Bool.not_eq_false _ ▸ hsymbol)).2
    rw [hc] at this
    cases this
  have hbefore : ∀ d ∈ run, isIdentifierChar d := fun d hd => hrun d (List.mem_cons_of_mem c hd)
  -- the run ends where the text behind it begins
  have htake : (run ++ s).takeWhile isIdentifierChar = run := by
    rw [List.takeWhile_append_of_pos hbefore, hs.takeWhile_eq, List.append_nil]
  have hdrop : (run ++ s).dropWhile isIdentifierChar = s := by
    rw [List.dropWhile_append_of_pos hbefore, hs.dropWhile_eq]
  rw [Lexes, List.cons_append, tokens?, if_neg (by simp [hblank]), if_neg (by simp [hsymbol]),
    if_pos hc, htake, hdrop, htoken, h]
  rfl

theorem Lexes.word {name : List Char} (h : Lexes s ts) (hs : Apart s) (hn : isIdentifier name) :
    Lexes (name ++ s) (.word (String.ofList name) :: ts) := by
  cases name with
  | nil => cases hn
  | cons c name =>
    have hn' := hn
    simp only [isIdentifier, Bool.and_eq_true, Bool.not_eq_true', List.all_eq_true] at hn'
    refine h.run hs (by simp) hn'.2 ?_
    rw [runToken?, if_neg (by simp [hn'.1]), if_pos hn]

theorem Lexes.number (h : Lexes s ts) (hs : Apart s) (n : Nat) :
    Lexes (Nat.toDigits 10 n ++ s) (.number n :: ts) := by
  have hdigit : ∀ c ∈ Nat.toDigits 10 n, c.isDigit := fun c hc =>
    Nat.isDigit_of_mem_toDigits (by decide) (by decide) hc
  refine h.run hs Nat.toDigits_ne_nil (fun c hc => isIdentifierChar_of_isDigit (hdigit c hc)) ?_
  rw [runToken?, if_pos (List.all_eq_true.2 hdigit), Nat.ofDigitChars_toDigits]
  all_goals decide

theorem Lexes.text (h : Lexes s ts) (text : List Char) :
    Lexes (quoted text ++ s) (.text (String.ofList text) :: ts) := by
  have hread : quoted text ++ s = '"' :: (escape text ++ '"' :: s) := by simp [quoted]
  have hblank : Text.isBlank '"' = false := by decide
  have hsymbol : isSymbol '"' = false := by decide
  have hword : isIdentifierChar '"' = false := by decide
  rw [Lexes, hread, tokens?, if_neg (by simp [hblank]), if_neg (by simp [hsymbol]),
    if_neg (by simp [hword]), if_pos rfl]
  split
  · next x rest hx =>
    obtain ⟨rfl, rfl⟩ := Prod.mk.inj (Option.some.inj ((literal?_escape text s).symm.trans hx))
    rw [h]
    rfl
  · next hx =>
    rw [literal?_escape] at hx
    cases hx

theorem Lexes.indented (h : Lexes s ts) (level : Nat) : Lexes (indentation level ++ s) ts := by
  unfold indentation
  induction 2 * level with
  | zero => exact h
  | succ n ih => exact ih.blank (by decide)

/-- A comment goes on as long as its closing mark does not come. -/
theorem afterClose?_append_cons {u : List Char} (hu : ¬ closeMark <:+: u) (hc : c ≠ '/') :
    comment?.afterClose? (u ++ c :: s) = comment?.afterClose? (c :: s) := by
  induction u with
  | nil => rfl
  | cons d u ih =>
    obtain ⟨hd, hu⟩ := not_or.1 (mt closeMark_infix_cons_iff.2 hu)
    rw [List.cons_append, comment?.afterClose?.eq_3, ih hu]
    rintro t rfl ht
    cases u with
    | nil => exact hc (List.cons.inj ht).1
    | cons e u => exact hd ⟨rfl, congrArg some (List.cons.inj ht).1⟩

theorem closeMark_not_infix_indented (hs : ¬ closeMark <:+: s) (level : Nat) :
    ¬ closeMark <:+: indentation level ++ s := by
  unfold indentation
  induction 2 * level with
  | zero => exact hs
  | succ n ih => simpa [List.replicate_succ, closeMark_infix_cons_iff] using ih

theorem closeMark_not_infix_block {ls : List (List Char)} (hls : ∀ l ∈ ls, ¬ closeMark <:+: l)
    (level : Nat) :
    ¬ closeMark <:+: (ls.flatMap fun l => indentation level ++ l ++ ['\n']) ++
      (indentation level ++ [' ']) := by
  induction ls with
  | nil => exact closeMark_not_infix_indented (by decide) level
  | cons l ls ih =>
    have hl := closeMark_not_infix_indented (hls l List.mem_cons_self) level
    have hrest := ih fun k hk => hls k (List.mem_cons_of_mem l hk)
    -- a line break is no part of the mark, so the mark does not reach over it
    have hboth := mt (Text.infix_append_cons_iff (c := '\n') (by decide) (by decide)).1
      (not_or.2 ⟨hl, hrest⟩)
    simpa using hboth

/-- A comment is skipped, whatever its text. -/
theorem Lexes.comment (h : Lexes s ts) (text : List Char) (level : Nat) :
    Lexes (docComment text (indentation level) ++ s) ts := by
  -- the comment is skipped up to its own last line, since no line before closes it
  have hbody : ¬ closeMark <:+: '*' :: '\n' ::
      (((commentLines text).flatMap fun l => indentation level ++ l ++ ['\n']) ++
        (indentation level ++ [' '])) := by
    have hblock := closeMark_not_infix_block
      (fun l (hl : l ∈ commentLines text) => closeMark_not_infix_commentLines hl) level
    simpa [closeMark_infix_cons_iff] using hblock
  have hskip := afterClose?_append_cons (s := '/' :: '\n' :: s) hbody (c := '*') (by decide)
  have htext : docComment text (indentation level) ++ s = indentation level ++ '/' :: '*' ::
      (('*' :: '\n' :: (((commentLines text).flatMap fun l => indentation level ++ l ++ ['\n']) ++
        (indentation level ++ [' ']))) ++ '*' :: '/' :: '\n' :: s) := by
    simp [docComment_eq, commentBlock]
  have hblank : Text.isBlank '/' = false := by decide
  have hsymbol : isSymbol '/' = false := by decide
  have hword : isIdentifierChar '/' = false := by decide
  rw [htext]
  refine Lexes.indented ?_ level
  rw [Lexes, tokens?, if_neg (by simp [hblank]), if_neg (by simp [hsymbol]),
    if_neg (by simp [hword]), if_neg (by decide), if_pos rfl]
  split
  · next rest hrest =>
    obtain rfl := Option.some.inj (hskip.symm.trans hrest)
    exact h.blank (by decide)
  · next hrest =>
    cases hskip.symm.trans hrest

end lexes

/-- The tokens of a literal; a real number has none here. -/
def Literal.tokens : Literal → List Token
  | .string s => [.text s]
  | .real _ => []
  | .integer n => (if n < 0 then [.symbol '-'] else []) ++ [.number n.natAbs]
  | .bool b => [.word (if b then "true" else "false")]
  | .null => [.word "null"]

def keyToken (name : String) : Token :=
  if isIdentifier name.toList then .word name else .text name

def groupedTokens (grouped : Bool) (ts : List Token) : List Token :=
  if grouped then .symbol '(' :: ts ++ [.symbol ')'] else ts

namespace TypeExpr

mutual

/-- The tokens of a type; the descriptions of members are not among them. -/
def tokens : TypeExpr → List Token
  | .keyword k => [.word k.text]
  | .array element => groupedTokens element.isCompound element.tokens ++ [.symbol '[', .symbol ']']
  | .tuple items => .symbol '[' :: [.symbol ','].intercalate (tokensOf items) ++ [.symbol ']']
  | .union members => [.symbol '|'].intercalate (tokensOf members)
  | .intersection members => [.symbol '&'].intercalate (groupTokens members)
  | .object members index =>
    .symbol '{' :: memberTokens members ++ indexTokens index ++ [.symbol '}']
  | .literal l => l.tokens
  | .named name => [.word name]

def tokensOf : List TypeExpr → List (List Token)
  | [] => []
  | t :: types => t.tokens :: tokensOf types

def groupTokens : List TypeExpr → List (List Token)
  | [] => []
  | t :: types => groupedTokens t.isUnion t.tokens :: groupTokens types

def memberTokens : List (Member TypeExpr) → List Token
  | [] => []
  | ⟨name, type, optional, _⟩ :: members =>
    keyToken name :: (if optional then [.symbol '?'] else []) ++ .symbol ':' :: type.tokens ++
      .symbol ';' :: memberTokens members

def indexTokens : Option TypeExpr → List Token
  | none => []
  | some type =>
    [.symbol '[', .word "k", .symbol ':', .word "string", .symbol ']', .symbol ':'] ++
      type.tokens ++ [.symbol ';']

end

theorem tokensOf_eq_map (ts : List TypeExpr) : tokensOf ts = ts.map tokens := by
  induction ts with
  | nil => rfl
  | cons t ts ih => simp [tokensOf, ih]

theorem groupTokens_eq_map (ts : List TypeExpr) :
    groupTokens ts = ts.map fun t => groupedTokens t.isUnion t.tokens := by
  induction ts with
  | nil => rfl
  | cons t ts ih => simp [groupTokens, ih]

/-- The names in a type are identifiers, and no number in it is real. -/
structure Readable (t : TypeExpr) : Prop where
  names : ∀ n, t.Mentions n → isIdentifier n.toList
  real : ∀ x, ¬ Occurs (.literal (.real x)) t

theorem Readable.of_occurs {t t' : TypeExpr} (h : t'.Readable)
    (hsub : ∀ u, Occurs u t → Occurs u t') : t.Readable where
  names n hn := h.names n (hsub _ hn)
  real x hx := h.real x (hsub _ hx)

end TypeExpr

section lexes

variable {s : List Char} {ts : List Token} {c : Char}

theorem apart_cons (h : isIdentifierChar c = false) (s : List Char) : Apart (c :: s) := by
  intro d hd
  obtain rfl := Option.some.inj hd
  exact h

theorem lexes_literal {l : Literal} (hl : ∀ x, l ≠ .real x) (h : Lexes s ts) (hs : Apart s) :
    Lexes (l.text ++ s) (l.tokens ++ ts) := by
  cases l with
  | string x =>
    have := h.text x.toList
    rwa [String.ofList_toList] at this
  | real x => exact absurd rfl (hl x)
  | integer n =>
    have hnat : ∀ n : Nat, Lexes ((toString n).toList ++ s) (.number n :: ts) := by
      intro n
      have := h.number hs n
      simpa [Nat.toString_eq_repr, Nat.repr_eq_ofList_toDigits] using this
    cases n with
    | ofNat n => exact hnat n
    | negSucc n =>
      -- the sign is a token of its own
      have hsign : (Literal.integer (Int.negSucc n)).tokens = [.symbol '-', .number (n + 1)] := by
        simp [Literal.tokens]
      have htext : (Literal.integer (Int.negSucc n)).text = '-' :: (toString (n + 1)).toList := by
        change ("-" ++ toString (n + 1)).toList = _
        simp
      rw [hsign, htext]
      exact (hnat (n + 1)).symbol (c := '-') (by decide)
  | bool b =>
    cases b with
    | true => exact h.word hs (by decide : isIdentifier "true".toList)
    | false => exact h.word hs (by decide : isIdentifier "false".toList)
  | null => exact h.word hs (by decide : isIdentifier "null".toList)

theorem lexes_keyText (h : Lexes s ts) (hs : Apart s) (name : String) :
    Lexes (keyText name.toList ++ s) (keyToken name :: ts) := by
  unfold keyText keyToken
  split
  · next hi =>
    have := h.word hs hi
    rwa [String.ofList_toList] at this
  · have := h.text name.toList
    rwa [String.ofList_toList] at this

theorem lexes_parenthesized {text : List Char} {tokens : List Token} (grouped : Bool)
    (htext : ∀ {s ts}, Lexes s ts → Apart s → Lexes (text ++ s) (tokens ++ ts)) (h : Lexes s ts)
    (hs : Apart s) :
    Lexes (parenthesized grouped text ++ s) (groupedTokens grouped tokens ++ ts) := by
  cases grouped with
  | false => exact htext h hs
  | true =>
    have hinner := htext (h.symbol (c := ')') (by decide)) (apart_cons (by decide) s)
    simpa [parenthesized, groupedTokens] using hinner.symbol (c := '(') (by decide)

/-- A separator is read as its symbol and keeps the items apart. -/
theorem lexes_intercalate {α : Type} {xs : List α} {f : α → List Char} {g : α → List Token}
    (sep : List Char) (hsep : ∀ {s ts}, Lexes s ts →
      Lexes (sep ++ s) (.symbol c :: ts) ∧ Apart (sep ++ s))
    (hitem : ∀ x ∈ xs, ∀ {s ts}, Lexes s ts → Apart s → Lexes (f x ++ s) (g x ++ ts))
    (h : Lexes s ts) (hs : Apart s) :
    Lexes (sep.intercalate (xs.map f) ++ s) ([.symbol c].intercalate (xs.map g) ++ ts) := by
  induction xs with
  | nil => simpa using h
  | cons x xs ih =>
    have hrest := ih fun y hy => hitem y (List.mem_cons_of_mem x hy)
    cases xs with
    | nil => simpa using hitem x List.mem_cons_self h hs
    | cons y ys =>
      obtain ⟨hbetween, hapart⟩ := hsep hrest
      have := hitem x List.mem_cons_self hbetween hapart
      simpa using this

/-- A member is read as its key, its mark and its type; its comment is skipped. -/
theorem lexes_memberLines {m : Member TypeExpr} {level : Nat}
    (htype : ∀ {s ts}, Lexes s ts → Apart s →
      Lexes (m.type.textAt level ++ s) (m.type.tokens ++ ts)) (h : Lexes s ts) :
    Lexes (TypeExpr.memberLines level m ++ s) (TypeExpr.memberTokens [m] ++ ts) := by
  have hend := htype ((h.blank (c := '\n') (by decide)).symbol (c := ';') (by decide))
    (apart_cons (by decide) _)
  have hcolon := (hend.blank (c := ' ') (by decide)).symbol (c := ':') (by decide)
  have hmember : Lexes (memberText m.name m.optional (m.type.textAt level) ++ ';' :: '\n' :: s)
      (TypeExpr.memberTokens [m] ++ ts) := by
    cases hoptional : m.optional with
    | false =>
      simpa [memberText, TypeExpr.memberTokens, hoptional] using
        lexes_keyText hcolon (apart_cons (by decide) _) m.name
    | true =>
      simpa [memberText, TypeExpr.memberTokens, hoptional] using
        lexes_keyText (hcolon.symbol (c := '?') (by decide)) (apart_cons (by decide) _) m.name
  have hline := hmember.indented level
  unfold TypeExpr.memberLines
  cases m.description with
  | none => simpa using hline
  | some d => simpa using hline.comment d.toList level

theorem lexes_indexAt {index : Option TypeExpr} {level : Nat}
    (htype : ∀ t, index = some t → ∀ {s ts}, Lexes s ts → Apart s →
      Lexes (t.textAt level ++ s) (t.tokens ++ ts)) (h : Lexes s ts) :
    Lexes (TypeExpr.indexAt level index ++ s) (TypeExpr.indexTokens index ++ ts) := by
  cases index with
  | none => exact h
  | some t =>
    have ht := htype t rfl ((h.blank (c := '\n') (by decide)).symbol (c := ';') (by decide))
      (apart_cons (by decide) _)
    have hkey := (((ht.blank (c := ' ') (by decide)).symbol (c := ':') (by decide)).symbol
      (c := ']') (by decide)).word (apart_cons (by decide) _)
      (by decide : isIdentifier "string".toList)
    have hname := ((hkey.blank (c := ' ') (by decide)).symbol (c := ':') (by decide)).word
      (apart_cons (by decide) _) (by decide : isIdentifier ['k'])
    have hline := (hname.symbol (c := '[') (by decide)).indented level
    simpa [TypeExpr.indexAt, TypeExpr.indexTokens] using hline

/-- Behind a member stand the members after it. -/
theorem lexes_members {ms : List (Member TypeExpr)} {level : Nat}
    (htype : ∀ m ∈ ms, ∀ {s ts}, Lexes s ts → Apart s →
      Lexes (m.type.textAt level ++ s) (m.type.tokens ++ ts)) (h : Lexes s ts) :
    Lexes (ms.flatMap (TypeExpr.memberLines level) ++ s) (TypeExpr.memberTokens ms ++ ts) := by
  induction ms with
  | nil => exact h
  | cons m ms ih =>
    have hrest := ih fun m' hm => htype m' (List.mem_cons_of_mem m hm)
    have := lexes_memberLines (htype m List.mem_cons_self) hrest
    simpa [TypeExpr.memberTokens] using this

theorem lexes_object {ms : List (Member TypeExpr)} {index : Option TypeExpr} {level : Nat}
    (hmember : ∀ m ∈ ms, ∀ {s ts}, Lexes s ts → Apart s →
      Lexes (m.type.textAt (level + 1) ++ s) (m.type.tokens ++ ts))
    (hindex : ∀ t, index = some t → ∀ {s ts}, Lexes s ts → Apart s →
      Lexes (t.textAt (level + 1) ++ s) (t.tokens ++ ts)) (h : Lexes s ts) :
    Lexes ((TypeExpr.object ms index).textAt level ++ s)
      ((TypeExpr.object ms index).tokens ++ ts) := by
  have hclose := (h.symbol (c := '}') (by decide)).indented level
  by_cases hne : ms ≠ [] ∨ index ≠ none
  · rw [TypeExpr.textAt_object level hne]
    have := ((lexes_members hmember (lexes_indexAt hindex hclose)).blank (c := '\n')
      (by decide)).symbol (c := '{') (by decide)
    simpa [TypeExpr.tokens] using this
  · simp only [ne_eq, not_or, not_not] at hne
    obtain ⟨rfl, rfl⟩ := hne
    have := (h.symbol (c := '}') (by decide)).symbol (c := '{') (by decide)
    simpa [TypeExpr.textAt, TypeExpr.tokens, TypeExpr.memberTokens, TypeExpr.indexTokens]
      using this

/-- The text of a type is read as its tokens, at every level. -/
theorem lexes_textAt {t : TypeExpr} (ht : t.Readable) (level : Nat) (h : Lexes s ts)
    (hs : Apart s) : Lexes (t.textAt level ++ s) (t.tokens ++ ts) := by
  -- from the end as well: `s` is read as `ts` already, whatever stands there
  induction t using TypeExpr.induction generalizing level s ts with
  | keyword k =>
    have hk : isIdentifier k.text.toList := by cases k <;> decide
    have := h.word hs hk
    rwa [String.ofList_toList] at this
  | literal l =>
    exact lexes_literal (fun x hx => ht.real x (hx ▸ .self)) h hs
  | named n =>
    have := h.word hs (ht.names n .self)
    rwa [String.ofList_toList] at this
  | array e ih =>
    have hclose := (h.symbol (c := ']') (by decide)).symbol (c := '[') (by decide)
    have he := lexes_parenthesized e.isCompound
      (fun h hs => ih (ht.of_occurs fun _ => .array) level h hs) hclose (apart_cons (by decide) _)
    simpa [TypeExpr.textAt, TypeExpr.tokens] using he
  | tuple items ih =>
    have hitems := lexes_intercalate (c := ',') [',', ' ']
      (fun h => ⟨(h.blank (by decide)).symbol (by decide), apart_cons (by decide) _⟩)
      (fun t hmem _ _ h hs => ih t hmem (ht.of_occurs fun _ => .tuple hmem) level h hs)
      (h.symbol (c := ']') (by decide)) (apart_cons (by decide) _)
    have := hitems.symbol (c := '[') (by decide)
    simpa [TypeExpr.textAt, TypeExpr.tokens, TypeExpr.textsAt_eq_map, TypeExpr.tokensOf_eq_map]
      using this
  | union members ih =>
    have hmembers := lexes_intercalate (c := '|') [' ', '|', ' ']
      (fun h => ⟨((h.blank (by decide)).symbol (by decide)).blank (by decide),
        apart_cons (by decide) _⟩)
      (fun t hmem _ _ h hs => ih t hmem (ht.of_occurs fun _ => .union hmem) level h hs) h hs
    simpa [TypeExpr.textAt, TypeExpr.tokens, TypeExpr.textsAt_eq_map, TypeExpr.tokensOf_eq_map]
      using hmembers
  | intersection members ih =>
    have hmembers := lexes_intercalate (c := '&') [' ', '&', ' ']
      (fun h => ⟨((h.blank (by decide)).symbol (by decide)).blank (by decide),
        apart_cons (by decide) _⟩)
      (fun t hmem _ _ h hs => lexes_parenthesized t.isUnion
        (fun h hs => ih t hmem (ht.of_occurs fun _ => .intersection hmem) level h hs) h hs) h hs
    simpa [TypeExpr.textAt, TypeExpr.tokens, TypeExpr.groupsAt_eq_map,
      TypeExpr.groupTokens_eq_map] using hmembers
  | object ms index ihm ihi =>
    exact lexes_object
      (fun m hm _ _ h hs => ihm m hm (ht.of_occurs fun _ => .member hm) (level + 1) h hs)
      (fun t hindex _ _ h hs =>
        ihi t hindex (ht.of_occurs fun _ hn => hindex ▸ .index hn) (level + 1) h hs) h

end lexes

end ApiTypes.TypeScript
