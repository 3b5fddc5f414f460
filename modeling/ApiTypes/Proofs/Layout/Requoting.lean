import ApiTypes.Proofs.Layout.Restyle

namespace ApiTypes.Layout

open TypeScript

/-- `s` is one literal in quotes `q`, whatever follows it, and has the text `x`. -/
def IsLiteral (q : Char) (x s : List Char) : Prop :=
  ∃ content, s = q :: (content ++ [q]) ∧
    ∀ rest, literal? q (content ++ q :: rest) = some (x, rest)

def isLineEnd (c : Char) : Bool :=
  c == '\n' || c == '\r' || Text.isLineSeparator c

/-- A part of a line: a text without quotes, or the literal of a text. -/
inductive Piece
  | between (s : List Char) (hs : s.any isQuote = false)
  | literal (x : List Char)

/-- Single quotes are taken for a literal without escapes and without single quotes. -/
def literalQuote (wanted : Char) (literal : List Char) : Char :=
  if wanted = '\'' ∧ '\\' ∉ literal ∧ '\'' ∉ literal then '\'' else '"'

namespace Piece

def source : Piece → List Char
  | .between s _ => s
  | .literal x => quoted x

def Becomes (wanted : Char) : Piece → List Char → Prop
  | .between s _, t => t = s
  | .literal x, t => IsLiteral (literalQuote wanted (quoted x)) x t

end Piece

section literals

variable {wanted : Char}

theorem isLiteral_quoted (x : List Char) : IsLiteral '"' x (quoted x) :=
  ⟨escape x, rfl, literal?_escape x⟩

theorem isLineEnd_of_mem_quoted {x : List Char} {c : Char} (hc : c ∈ quoted x) :
    isLineEnd c = false := by
  obtain ⟨hn, hr⟩ := ne_of_mem_quoted hc
  simp [isLineEnd, hn, hr, (isControl_of_mem_quoted hc).2]

/-- The content of a literal has the same escapes and single quotes as the literal. -/
theorem chosenQuote_escape (hwanted : isQuote wanted) (x : List Char) :
    chosenQuote wanted '"' (escape x) = literalQuote wanted (quoted x) := by
  have hmem : ∀ c, c ≠ '"' → (c ∈ quoted x ↔ c ∈ escape x) := by
    intro c hc
    simp [quoted, hc]
  simp only [chosenQuote, literalQuote, hmem '\\' (by decide), hmem '\'' (by decide)]
  obtain rfl | rfl : wanted = '"' ∨ wanted = '\'' := by simpa [isQuote] using hwanted
  · simp
  · by_cases hs : '\'' ∈ escape x <;> by_cases hb : '\\' ∈ escape x <;> simp [hs, hb]

theorem isLiteral_requoted (hwanted : isQuote wanted) (x : List Char) :
    IsLiteral (literalQuote wanted (quoted x)) x (literalQuote wanted (quoted x) ::
      (escape x ++ [literalQuote wanted (quoted x)])) := by
  rw [← chosenQuote_escape hwanted]
  exact ⟨escape x, rfl, literal?_chosenQuote hwanted x⟩

end literals

/-- Literals keep their texts.  The literal of a text stays on its line and reads back as that text,
and when the quotes of a line are changed, the texts between its literals stay as they are and each
literal still reads back, between the new quotes where it has no escape and none of these quotes. -/
theorem requote_pieces :
    (∀ x, (∀ c ∈ quoted x, isLineEnd c = false) ∧ IsLiteral '"' x (quoted x)) ∧
    ∀ wanted, isQuote wanted → ∀ ps : List Piece, ∃ out,
      requote wanted (ps.flatMap Piece.source) = out.flatten ∧
        List.Forall₂ (Piece.Becomes wanted) ps out := by
  refine ⟨fun x => ⟨fun c => isLineEnd_of_mem_quoted, isLiteral_quoted x⟩, ?_⟩
  intro wanted hwanted ps
  induction ps with
  | nil => exact ⟨[], rfl, .nil⟩
  | cons p ps ih =>
    obtain ⟨out, hout, hbecome⟩ := ih
    rw [List.flatMap_cons]
    -- a part without quotes leaves the reader outside of literals, and so does a whole literal
    cases p with
    | between s hs =>
      refine ⟨s :: out, ?_, .cons rfl hbecome⟩
      have hplain : ∀ c ∈ s, isQuote c = false := fun c hc =>
        eq_false_of_ne_true (List.any_eq_false.1 hs c hc)
      rw [Piece.source, requote_append hplain, hout, List.flatten_cons]
    | literal x =>
      refine ⟨_ :: out, ?_, .cons (isLiteral_requoted hwanted x) hbecome⟩
      rw [Piece.source, requote_quoted, chosenQuote_escape hwanted, hout]
      simp

def mixed : List Piece :=
  [.between "\\".toList (by decide), .literal "it's".toList, .literal "x".toList,
    .between " | ".toList (by decide), .literal "\"\\".toList, .literal "\n".toList]

theorem requote_pieces_mixed :
    isQuote '\'' ∧
    mixed.flatMap Piece.source = "\\\"it's\"\"x\" | \"\\\"\\\\\"\"\\n\"".toList ∧
    requote '\'' (mixed.flatMap Piece.source) = "\\\"it's\"'x' | \"\\\"\\\\\"\"\\n\"".toList ∧
    ∃ out, requote '\'' (mixed.flatMap Piece.source) = out.flatten ∧
      List.Forall₂ (Piece.Becomes '\'') mixed out :=
  ⟨by decide, by decide, by decide, requote_pieces.2 '\'' (by decide) mixed⟩

end ApiTypes.Layout
