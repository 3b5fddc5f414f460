namespace ApiTypes.Toml

abbrev Read (α : Type) := List Char → Option (α × List Char)

def isBlank (c : Char) : Bool :=
  c == ' ' || c == '\t'

def skipBlanks (s : List Char) : List Char :=
  s.dropWhile isBlank

def afterNewline? : List Char → Option (List Char)
  | '\n' :: s => some s
  | '\r' :: '\n' :: s => some s
  | _ => none

/-- The characters that may stand in a line: all but controls other than the tab. -/
def isText (c : Char) : Bool :=
  c == '\t' || (0x20 ≤ c.toNat && c.toNat ≤ 0x7E) || 0x80 ≤ c.toNat

def skipComment : List Char → List Char
  | '#' :: s => s.dropWhile isText
  | s => s

def lineRest? (s : List Char) : Option (List Char) :=
  match skipComment (skipBlanks s) with
  | [] => some []
  | s => afterNewline? s

def hexValue? (c : Char) : Option Nat :=
  if '0' ≤ c ∧ c ≤ '9' then some (c.toNat - '0'.toNat)
  else if 'a' ≤ c ∧ c ≤ 'f' then some (c.toNat - 'a'.toNat + 10)
  else if 'A' ≤ c ∧ c ≤ 'F' then some (c.toNat - 'A'.toNat + 10)
  else none

def charOfHex? (ds : List Char) : Option Char := do
  let values ← ds.mapM hexValue?
  let n := values.foldl (fun n d => 16 * n + d) 0
  if n > 0x10FFFF ∨ (0xD800 ≤ n ∧ n < 0xE000) then none
  return Char.ofNat n

/-- The character of an escape behind its backslash, and the length of the escape. -/
def escape? (s : List Char) : Option (Char × Nat) :=
  match s with
  | 'b' :: _ => some ('\x08', 1)
  | 't' :: _ => some ('\t', 1)
  | 'n' :: _ => some ('\n', 1)
  | 'f' :: _ => some ('\x0c', 1)
  | 'r' :: _ => some ('\r', 1)
  | '"' :: _ => some ('"', 1)
  | '\\' :: _ => some ('\\', 1)
  | 'u' :: s => if s.length < 4 then none else (charOfHex? (s.take 4)).map (·, 5)
  | 'U' :: s => if s.length < 8 then none else (charOfHex? (s.take 8)).map (·, 9)
  | _ => none

/-- The rest of a string in double quotes, where `skip` characters belong to an escape read
before. -/
def basic? (skip : Nat) (done : List Char) : Read (List Char)
  | [] => none
  | c :: s =>
    match skip with
    | skip + 1 => basic? skip done s
    | 0 =>
      if c == '"' then some (done.reverse, s)
      else if c == '\\' then
        match escape? s with
        | some (e, n) => basic? n (e :: done) s
        | none => none
      else if isText c then basic? 0 (c :: done) s
      else none

def literal? (done : List Char) : Read (List Char)
  | [] => none
  | c :: s =>
    if c == '\'' then some (done.reverse, s)
    else if isText c then literal? (c :: done) s
    else none

/-- How many quotes stand at the start of a text, at most five. -/
def quoteRun (q : Char) (s : List Char) : Nat :=
  ((s.take 5).takeWhile (· == q)).length

/-- The rest of a string of several lines.  Up to two quotes may stand before the closing ones.  In
double quotes there are escapes, and a backslash at the end of a line hides all blanks and line ends
behind it; `trimming` says that this is the case here. -/
def multiline? (q : Char) (trimming : Bool) (skip : Nat) (done : List Char) : Read (List Char)
  | [] => none
  | c :: s =>
    match skip with
    | skip + 1 => multiline? q trimming skip done s
    | 0 =>
      if trimming && (isBlank c || c == '\n') then multiline? q true 0 done s
      else if trimming && c == '\r' && s.head? == some '\n' then multiline? q true 1 done s
      else if c == q then
        let n := quoteRun q (c :: s)
        if n < 3 then multiline? q false 0 (q :: done) s
        else some ((List.replicate (n - 3) q ++ done).reverse, s.drop (n - 1))
      else if c == '\n' then multiline? q false 0 ('\n' :: done) s
      else if c == '\r' then
        if s.head? == some '\n' then multiline? q false 0 done s else none
      else if c == '\\' && q == '"' then
        if (afterNewline? (skipBlanks s)).isSome then multiline? q true 0 done s
        else
          match escape? s with
          | some (e, n) => multiline? q false n (e :: done) s
          | none => none
      else if isText c then multiline? q false 0 (c :: done) s
      else none

/-- A line end right behind the opening quotes of several lines is left out. -/
def dropNewline (s : List Char) : List Char :=
  (afterNewline? s).getD s

def string? : Read String := fun s =>
  let result :=
    match s with
    | '"' :: '"' :: '"' :: s => multiline? '"' false 0 [] (dropNewline s)
    | '"' :: s => basic? 0 [] s
    | '\'' :: '\'' :: '\'' :: s => multiline? '\'' false 0 [] (dropNewline s)
    | '\'' :: s => literal? [] s
    | _ => none
  result.map fun (text, s) => (String.ofList text, s)

def isBareKeyChar (c : Char) : Bool :=
  c.isAlphanum || c == '-' || c == '_'

def simpleKey? : Read String := fun s =>
  match s with
  | '"' :: s => (basic? 0 [] s).map fun (text, s) => (String.ofList text, s)
  | '\'' :: s => (literal? [] s).map fun (text, s) => (String.ofList text, s)
  | s =>
    match s.takeWhile isBareKeyChar with
    | [] => none
    | word => some (String.ofList word, s.dropWhile isBareKeyChar)

def keyParts? : Nat → Read (List String)
  | 0, _ => none
  | fuel + 1, s => do
    let (part, s) ← simpleKey? (skipBlanks s)
    match skipBlanks s with
    | '.' :: s =>
      let (parts, s) ← keyParts? fuel s
      return (part :: parts, s)
    | s => return ([part], s)

/-- How many parts a key may have, and how deeply values may be nested: less than this. -/
def nestingLimit : Nat := 80

def key? : Read (List String × String) := fun s => do
  let (parts, s) ← keyParts? nestingLimit s
  let last ← parts.getLast?
  if parts.length < nestingLimit then some ((parts.dropLast, last), s) else none

end ApiTypes.Toml
