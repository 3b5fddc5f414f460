namespace ApiTypes.Naming

/-- Writes the kept characters of a text; the one that begins a word becomes a capital.
`wordStart` says whether the next kept character begins one. -/
def joinWords (keep : Char → Bool) (wordStart : Bool) : List Char → List Char
  | [] => []
  | c :: s =>
    if keep c then (if wordStart then c.toUpper else c) :: joinWords keep false s
    else joinWords keep true s

def normalizeTitle (title : String) : String :=
  String.ofList (joinWords Char.isAlphanum true title.toList)

end ApiTypes.Naming
