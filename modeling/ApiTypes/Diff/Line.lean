namespace ApiTypes.Diff

def isLineEnd (c : Char) : Bool :=
  c == '\n' || c == '\r'

def splitLines : List Char → List (List Char)
  | [] => []
  | '\r' :: '\n' :: s => ['\r', '\n'] :: splitLines s
  | c :: s =>
    if isLineEnd c then [c] :: splitLines s
    else
      match splitLines s with
      | [] => [[c]]
      | line :: lines => (c :: line) :: lines

theorem flatten_splitLines (s : List Char) : (splitLines s).flatten = s := by
  fun_induction splitLines s with
  | case1 => rfl
  | case2 s ih => simp [ih]
  | case3 c s _ _ ih => simp [ih]
  | case4 c s _ _ h ih => simp [h] at ih; simp [ih]
  | case5 c s _ _ line lines h ih => simp_all

def lines (text : String) : List String :=
  (splitLines text.toList).map String.ofList

def endsLine (line : String) : Bool :=
  line.toList.getLast?.any isLineEnd

end ApiTypes.Diff
