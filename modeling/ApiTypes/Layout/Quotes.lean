namespace ApiTypes.Layout

def isQuote (c : Char) : Bool :=
  c == '"' || c == '\''

/-- The quote of a complete literal: `wanted`, unless that would take an escape. -/
def chosenQuote (wanted current : Char) (content : List Char) : Char :=
  if content.contains wanted || content.contains '\\' then current else wanted

/-- Changes the quotes of literals to `wanted`.  `literal` is the quote and, in reverse, the content
of the literal that the text begins in. -/
def requoteFrom (wanted : Char) (literal : Option (Char × List Char)) : List Char → List Char
  | [] =>
    match literal with
    | none => []
    | some (q, content) => q :: content.reverse
  | '\\' :: e :: s =>
    match literal with
    | none => '\\' ::
      (if isQuote e then requoteFrom wanted (some (e, [])) s else e :: requoteFrom wanted none s)
    | some (q, content) => requoteFrom wanted (some (q, e :: '\\' :: content)) s
  | c :: s =>
    match literal with
    | none =>
      if isQuote c then requoteFrom wanted (some (c, [])) s else c :: requoteFrom wanted none s
    | some (q, content) =>
      if c = q then
        let content := content.reverse
        let d := chosenQuote wanted q content
        d :: content ++ d :: requoteFrom wanted none s
      else requoteFrom wanted (some (q, c :: content)) s

def requote (wanted : Char) (line : List Char) : List Char :=
  requoteFrom wanted none line

end ApiTypes.Layout
