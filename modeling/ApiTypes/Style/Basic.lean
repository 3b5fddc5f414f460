import ApiTypes.Json.Draft

namespace ApiTypes

structure Style where
  /-- Blanks inside the braces of an import on one line. -/
  bracketSpacing : Bool
  /-- How long an import on one line may be. -/
  printWidth : Nat
  /-- Semicolons stay at the end of lines. -/
  semi : Bool
  singleQuote : Bool
  tabWidth : Nat
  /-- A comma stays out after the last item only for `none`. -/
  trailingComma : String
  useTabs : Bool
  deriving DecidableEq, Repr

namespace Style

def default : Style where
  bracketSpacing := false
  printWidth := 120
  semi := true
  singleQuote := false
  tabWidth := 2
  trailingComma := "none"
  useTabs := false

def fieldNames : List String :=
  ["bracketSpacing", "printWidth", "semi", "singleQuote", "tabWidth", "trailingComma", "useTabs"]

/-- How values of `F` are read as flags, as whole numbers and as texts. -/
structure Reading (F : Type) where
  bool? : F → Option Bool
  size? : F → Option Nat
  text? : F → Option String

/-- A style from the values of its fields; a field without a value has its default. -/
def ofFields? {F : Type} (reading : Reading F) (fields : List (Option F)) : Option Style := do
  let field {α : Type} (standard : α) (read : F → Option α) : Option F → Option α
    | none => some standard
    | some f => read f
  match fields with
  | [bracketSpacing, printWidth, semi, singleQuote, tabWidth, trailingComma, useTabs] =>
    return {
      bracketSpacing := ← field default.bracketSpacing reading.bool? bracketSpacing
      printWidth := ← field default.printWidth reading.size? printWidth
      semi := ← field default.semi reading.bool? semi
      singleQuote := ← field default.singleQuote reading.bool? singleQuote
      tabWidth := ← field default.tabWidth reading.size? tabWidth
      trailingComma := ← field default.trailingComma reading.text? trailingComma
      useTabs := ← field default.useTabs reading.bool? useTabs }
  | _ => none

def ofDraft? (surplus : Json.Surplus) (d : Json.Draft) : Option Style :=
  (d.fields? surplus fieldNames).bind
    (ofFields? ⟨Json.Draft.bool?, Json.Draft.size?, Json.Draft.string?⟩)

end Style

end ApiTypes
