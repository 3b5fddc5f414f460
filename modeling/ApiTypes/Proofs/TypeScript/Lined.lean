import ApiTypes.Proofs.TypeScript.AliasMark
import ApiTypes.Proofs.TypeScript.Comments
import ApiTypes.Proofs.TypeScript.Tokens

namespace ApiTypes.TypeScript

/-- The characters of code that are in no string literal and in no line ending. -/
def isPlain (c : Char) : Bool :=
  !(['"', '\'', '\\', '\n', '\r'].contains c)

inductive Code : List Char → Prop
  | nil : Code []
  | char {c : Char} {s : List Char} (hc : isPlain c) (h : Code s) : Code (c :: s)
  | literal (x : List Char) {s : List Char} (h : Code s) : Code (quoted x ++ s)

/-- What a line of code begins with; no comment, and no import at the left margin, begins so. -/
def opensCode (level : Nat) (c : Char) : Prop :=
  Text.isBlank c = false ∧ c ≠ '/' ∧ c ≠ '*' ∧ (level = 0 → c ≠ 'i')

inductive OpenLine : List Char → Prop
  | intro (level : Nat) {c : Char} {s : List Char} (hc : opensCode level c) (hs : Code (c :: s)) :
    OpenLine (indentation level ++ c :: s)

inductive Lined : List (List Char) → Prop
  | nil : Lined []
  | comment (text : List Char) (level : Nat) {ls : List (List Char)} (h : Lined ls) :
    Lined ((commentBlock text).map (indentation level ++ ·) ++ ls)
  | code {l : List Char} {ls : List (List Char)} (hl : OpenLine l) (hend : Text.Trimmed l)
    (h : Lined ls) : Lined (l :: ls)

def IsLined (s : List Char) : Prop :=
  ∃ ls, Lined ls ∧ s = Text.unlines ls

def Follows (s : List Char) : Prop :=
  ∀ u, OpenLine u → IsLined (u ++ s)

section code

variable {s u w : List Char} {c : Char}

theorem Code.append (hs : Code s) (hw : Code w) : Code (s ++ w) := by
  induction hs with
  | nil => exact hw
  | char hc _ ih => exact .char hc ih
  | literal x _ ih =>
    rw [List.append_assoc]
    exact .literal x ih

theorem ne_of_mem_code (h : Code s) (hc : c ∈ s) : c ≠ '\n' ∧ c ≠ '\r' := by
  induction h with
  | nil => cases hc
  | char hd _ ih =>
    obtain rfl | hc := List.mem_cons.1 hc
    · constructor
      · rintro rfl
        cases hd
      · rintro rfl
        cases hd
    · exact ih hc
  | literal x _ ih =>
    obtain hc | hc := List.mem_append.1 hc
    · exact ne_of_mem_quoted hc
    · exact ih hc

end code

section lines

variable {s u w : List Char} {c : Char} {level : Nat}

theorem OpenLine.append (hu : OpenLine u) (hs : Code s) : OpenLine (u ++ s) := by
  obtain ⟨level, hc, hu⟩ := hu
  rw [List.append_assoc]
  exact .intro level hc (hu.append hs)

theorem Follows.code (h : Follows w) (hs : Code s) : Follows (s ++ w) := by
  intro u hu
  rw [← List.append_assoc]
  exact h _ (hu.append hs)

theorem Follows.char (h : Follows w) (hc : isPlain c) : Follows (c :: w) :=
  h.code (.char hc .nil)

theorem IsLined.follows (h : IsLined w) (hc : isPlain c) (hblank : Text.isBlank c = false) :
    Follows (c :: '\n' :: w) := by
  intro u hu
  obtain ⟨ls, hls, rfl⟩ := h
  refine ⟨(u ++ [c]) :: ls, .code (hu.append (.char hc .nil)) ⟨u, c, rfl, hblank⟩ hls, ?_⟩
  simp [Text.unlines]

theorem IsLined.comment (h : IsLined w) (text : List Char) (level : Nat) :
    IsLined (docComment text (indentation level) ++ w) := by
  obtain ⟨ls, hls, rfl⟩ := h
  refine ⟨_, .comment text level hls, ?_⟩
  rw [docComment_eq_unlines, Text.unlines, Text.unlines, Text.unlines, List.flatMap_append]

end lines

end ApiTypes.TypeScript
