import ApiTypes.Naming.Words

namespace ApiTypes.TypeScript

def isIdentifierChar (c : Char) : Bool :=
  c.isAlphanum || c == '_' || c == '$'

def isIdentifier : List Char → Bool
  | [] => false
  | c :: s => !c.isDigit && (c :: s).all isIdentifierChar

def safeNameChars (hint : List Char) : List Char :=
  match Naming.joinWords isIdentifierChar true hint with
  | [] => ['T', 'y', 'p', 'e']
  | c :: s => if c.isDigit then 'T' :: c :: s else c :: s

def safeName (hint : String) : String :=
  String.ofList (safeNameChars hint.toList)

end ApiTypes.TypeScript
