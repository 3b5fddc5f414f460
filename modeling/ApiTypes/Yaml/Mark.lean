namespace ApiTypes.Yaml

structure Mark where
  char : Char
  index : Nat
  line : Nat
  column : Nat
  deriving Inhabited

def isAllowed (c : Char) : Bool :=
  let n := c.toNat
  n == 0x09 || n == 0x0A || n == 0x0D || (0x20 ≤ n && n ≤ 0x7E) || n == 0x85 ||
    (0xA0 ≤ n && n ≤ 0xD7FF) || (0xE000 ≤ n && n ≤ 0xFFFD) || 0x10000 ≤ n

def isLineEnd (c : Char) : Bool :=
  c == '\n' || c == '\r' || c.toNat == 0x85 || c.toNat == 0x2028 || c.toNat == 0x2029

/-- The line and paragraph separators stay what they are. -/
def lineEnd (c : Char) : Char :=
  if c.toNat == 0x2028 || c.toNat == 0x2029 then c else '\n'

def marksFrom (index line column : Nat) : List Char → List Mark
  | [] => []
  | '\r' :: '\n' :: s => ⟨'\n', index, line, column⟩ :: marksFrom (index + 2) (line + 1) 0 s
  | c :: s =>
    if isLineEnd c then ⟨lineEnd c, index, line, column⟩ :: marksFrom (index + 1) (line + 1) 0 s
    else ⟨c, index, line, column⟩ :: marksFrom (index + 1) line (column + 1) s

def marks (s : List Char) : List Mark :=
  marksFrom 0 0 0 s

/-- A byte order mark may stand at the start of a line, where it still counts as a column. -/
def Mark.isOrderMark (m : Mark) : Bool :=
  m.column == 0 && m.char.toNat == 0xFEFF

def Mark.isBreak (m : Mark) : Bool :=
  isLineEnd m.char

def Mark.isSpace (m : Mark) : Bool :=
  m.char == ' ' || m.char == '\t'

def Mark.isWord (m : Mark) : Bool :=
  m.char.isAlphanum || m.char == '_' || m.char == '-'

def blankNext : List Mark → Bool
  | [] => true
  | m :: _ => m.isSpace || m.isBreak

def charNext (c : Char) : List Mark → Bool
  | [] => false
  | m :: _ => m.char == c

def tripleNext (c : Char) : List Mark → Bool
  | a :: b :: d :: rest => a.char == c && b.char == c && d.char == c && blankNext rest
  | _ => false

def documentNext (s : List Mark) : Bool :=
  match s with
  | [] => false
  | m :: _ => m.column == 0 && (tripleNext '-' s || tripleNext '.' s)

def text (s : List Mark) : String :=
  String.ofList (s.map Mark.char)

end ApiTypes.Yaml
