import ApiTypes.Yaml.Mark

namespace ApiTypes.Yaml

inductive ScalarStyle where
  | plain
  | singleQuoted
  | doubleQuoted
  | literal
  | folded
  deriving DecidableEq, Repr

/-- A scalar that is being read: its text so far and what separates it from what follows, all in
reverse. -/
structure Pieces where
  text : List Char
  blanks : List Char
  broken : Bool
  first : Option Char
  more : List Char

namespace Pieces

def empty : Pieces := ⟨[], [], false, none, []⟩

/-- Adds a blank, which counts only if no line has ended before it. -/
def blank (c : Char) (p : Pieces) : Pieces :=
  if p.broken then p else { p with blanks := c :: p.blanks }

def lineEnd (c : Char) (p : Pieces) : Pieces :=
  if p.broken then { p with more := c :: p.more }
  else { p with blanks := [], broken := true, first := some c }

def hiddenEnd (p : Pieces) : Pieces :=
  { p with broken := true, first := none }

def join (p : Pieces) : Pieces :=
  if p.broken then
    match p.first with
    | some '\n' => ⟨if p.more.isEmpty then ' ' :: p.text else p.more ++ p.text, [], false, none, []⟩
    | first => ⟨p.more ++ (first.toList ++ p.text), [], false, none, []⟩
  else ⟨p.blanks ++ p.text, [], false, none, []⟩

def char (c : Char) (p : Pieces) : Pieces :=
  let p := p.join
  { p with text := c :: p.text }

def separated (p : Pieces) : Bool :=
  p.broken || !p.blanks.isEmpty

def string (p : Pieces) : String :=
  String.ofList p.text.reverse

end Pieces

def isFlowIndicator (c : Char) : Bool :=
  c == ',' || c == '[' || c == ']' || c == '{' || c == '}'

/-- Reads a plain scalar whose lines after the first stand at `indent` or deeper.  The result says
whether a line has ended behind it. -/
def plainScalar? (inFlow : Bool) (indent : Nat) (p : Pieces) :
    List Mark → Option (Pieces × List Mark)
  | [] => some (p, [])
  | m :: s =>
    if m.isSpace then
      if p.broken && m.column < indent && m.char == '\t' then none
      else plainScalar? inFlow indent (p.blank m.char) s
    else if m.isBreak then plainScalar? inFlow indent (p.lineEnd m.char) s
    else if p.separated &&
        ((!inFlow && m.column < indent) || documentNext (m :: s) || m.char == '#') then
      some (p, m :: s)
    else if inFlow && m.char == ':' && s.head?.any fun n => isFlowIndicator n.char || n.char == '?'
      then none
    else if (m.char == ':' && blankNext s) || (inFlow && isFlowIndicator m.char) then
      some (p, m :: s)
    else plainScalar? inFlow indent (p.char m.char) s

def hexValue? (c : Char) : Option Nat :=
  if '0' ≤ c ∧ c ≤ '9' then some (c.toNat - '0'.toNat)
  else if 'a' ≤ c ∧ c ≤ 'f' then some (c.toNat - 'a'.toNat + 10)
  else if 'A' ≤ c ∧ c ≤ 'F' then some (c.toNat - 'A'.toNat + 10)
  else none

def simpleEscape? (c : Char) : Option Char :=
  match c with
  | '0' => some '\x00'
  | 'a' => some '\x07'
  | 'b' => some '\x08'
  | 't' | '\t' => some '\t'
  | 'n' => some '\n'
  | 'v' => some '\x0b'
  | 'f' => some '\x0c'
  | 'r' => some '\r'
  | 'e' => some '\x1b'
  | ' ' | '"' | '/' | '\\' => some c
  | 'N' => some '\u0085'
  | '_' => some '\u00a0'
  | 'L' => some '\u2028'
  | 'P' => some '\u2029'
  | _ => none

def escapeDigits? (c : Char) : Option Nat :=
  match c with
  | 'x' => some 2
  | 'u' => some 4
  | 'U' => some 8
  | _ => none

/-- The character of an escape behind its backslash, and how many characters the escape has. -/
def escape? (s : List Mark) : Option (Char × Nat) := do
  let e ← s.head?
  match escapeDigits? e.char with
  | none => return (← simpleEscape? e.char, 1)
  | some n =>
    let digits := s.tail.take n
    if digits.length ≠ n then none
    let values ← digits.mapM fun m => hexValue? m.char
    let value := values.foldl (fun v d => 16 * v + d) 0
    if (0xD800 ≤ value ∧ value < 0xE000) ∨ value > 0x10FFFF then none
    return (Char.ofNat value, n + 1)

/-- Reads a quoted scalar behind its opening quote, where `skip` characters belong to what was read
before. -/
def quotedScalar? (single : Bool) (skip : Nat) (p : Pieces) :
    List Mark → Option (Pieces × List Mark)
  | [] => none
  | m :: s =>
    match skip with
    | skip + 1 => quotedScalar? single skip p s
    | 0 =>
      if documentNext (m :: s) then none
      else if m.isSpace then quotedScalar? single 0 (p.blank m.char) s
      else if m.isBreak then quotedScalar? single 0 (p.lineEnd m.char) s
      else if single then
        if m.char == '\'' then
          if charNext '\'' s then quotedScalar? single 1 (p.char '\'') s else some (p.join, s)
        else quotedScalar? single 0 (p.char m.char) s
      else if m.char == '"' then some (p.join, s)
      else if m.char == '\\' then
        if s.head?.any Mark.isBreak then quotedScalar? single 1 p.join.hiddenEnd s
        else
          match escape? s with
          | some (c, n) => quotedScalar? single n (p.char c) s
          | none => none
      else quotedScalar? single 0 (p.char m.char) s

inductive Chomping where
  | strip
  | clip
  | keep
  deriving DecidableEq, Repr

/-- A block that is being read, its texts in reverse.  An indentation of zero is not known yet. -/
structure Block where
  text : List Char
  first : List Char
  more : List Char
  indent : Nat
  widest : Nat
  inLine : Bool
  blankLine : Bool

/-- Starts a line of a block with its first character.  Folding turns the line end before it into a
blank, unless one of the two lines starts with a blank or an empty line stands between them. -/
def Block.startLine (folded : Bool) (b : Block) (m : Mark) : Block :=
  let text :=
    if folded && b.first == ['\n'] && !b.blankLine && !m.isSpace then
      if b.more.isEmpty then ' ' :: b.text else b.text
    else b.first ++ b.text
  { b with
    text := m.char :: (b.more ++ text)
    first := []
    more := []
    inLine := true
    blankLine := m.isSpace }

def blockLines? (folded : Bool) (least : Nat) (b : Block) : List Mark → Option (Block × List Mark)
  | [] => some (b, [])
  | m :: s =>
    if b.inLine then
      if m.isBreak then blockLines? folded least { b with first := [m.char], inLine := false } s
      else blockLines? folded least { b with text := m.char :: b.text } s
    else
      let inIndent := b.indent == 0 || m.column < b.indent
      let widest := max b.widest m.column
      if inIndent && m.char == ' ' then blockLines? folded least b s
      else if inIndent && m.char == '\t' then none
      else if m.isBreak then
        blockLines? folded least { b with more := m.char :: b.more, widest } s
      else
        let indent := if b.indent == 0 then max widest least else b.indent
        if m.column == indent then
          blockLines? folded least ({ b with indent }.startLine folded m) s
        else some (b, m :: s)

def chomping? (c : Char) : Option Chomping :=
  if c == '-' then some .strip else if c == '+' then some .keep else none

def blockHeader? : List Mark → Option (Nat × Chomping × List Mark)
  | [] => some (0, .clip, [])
  | m :: s =>
    let digit? : List Mark → Option (Nat × List Mark)
      | [] => some (0, [])
      | m :: s =>
        if m.char == '0' then none
        else if m.char.isDigit then some (m.char.toNat - '0'.toNat, s)
        else some (0, m :: s)
    match chomping? m.char with
    | some c => (digit? s).map fun (n, s) => (n, c, s)
    | none =>
      match digit? (m :: s) with
      | none => none
      | some (0, s) => some (0, .clip, s)
      | some (n, s) =>
        match s with
        | [] => some (n, .clip, [])
        | m :: rest =>
          match chomping? m.char with
          | some c => some (n, c, rest)
          | none => some (n, .clip, m :: rest)

def lineRest? (s : List Mark) : Option (List Mark) :=
  let s := s.dropWhile Mark.isSpace
  let s := if charNext '#' s then s.dropWhile (!·.isBreak) else s
  match s with
  | [] => some []
  | m :: rest => if m.isBreak then some rest else none

/-- Reads a block behind its mark; `parent` is the indentation around it, if there is one. -/
def blockScalar? (folded : Bool) (parent : Option Nat) (s : List Mark) :
    Option (String × List Mark) := do
  let (increment, chomping, s) ← blockHeader? s
  let s ← lineRest? s
  let indent := if increment = 0 then 0 else parent.getD 0 + increment
  let least := max ((parent.map (· + 1)).getD 0) 1
  let (b, s) ← blockLines? folded least ⟨[], [], [], indent, 0, false, false⟩ s
  let text :=
    match chomping with
    | .strip => b.text
    | .clip => b.first ++ b.text
    | .keep => b.more ++ (b.first ++ b.text)
  return (String.ofList text.reverse, s)

end ApiTypes.Yaml
