import ApiTypes.Yaml.Scalar

/-!
The tokens of a YAML text.  Indentation opens and closes blocks.  Whether a node is a key of a
mapping shows only at the colon behind it, so its place is kept until then and the token for a key
is put in front of it.
-/

namespace ApiTypes.Yaml

inductive Token where
  | version (major minor : Nat)
  | handle (name meaning : String)
  | documentStart
  | documentEnd
  | blockSequenceStart
  | blockMappingStart
  | blockEnd
  | flowSequenceStart
  | flowSequenceEnd
  | flowMappingStart
  | flowMappingEnd
  | blockEntry
  | flowEntry
  | key
  | value
  | alias (name : String)
  | anchor (name : String)
  | tag (handle suffix : String)
  | scalar (text : String) (style : ScalarStyle)
  deriving DecidableEq, Repr

/-- A node that may be a key: its place among the tokens and where it starts. -/
structure KeyPlace where
  tokens : Nat
  index : Nat
  line : Nat
  column : Nat
  required : Bool

def keyReach : Nat := 1024

def KeyPlace.isStale (k : KeyPlace) (m : Mark) : Bool :=
  k.line < m.line || k.index + keyReach < m.index

structure Scan where
  rest : List Mark
  /-- The tokens in reverse. -/
  tokens : List Token
  count : Nat
  /-- The columns of the open blocks, innermost first. -/
  columns : List Nat
  blockKey : Option KeyPlace
  /-- The places of possible keys within each open bracket, innermost first. -/
  flowKeys : List (Option KeyPlace)
  keyAllowed : Bool

namespace Scan

def start (s : List Mark) : Scan where
  rest := s
  tokens := []
  count := 0
  columns := []
  blockKey := none
  flowKeys := []
  keyAllowed := true

def inFlow (s : Scan) : Bool :=
  !s.flowKeys.isEmpty

def push (t : Token) (s : Scan) : Scan :=
  { s with tokens := t :: s.tokens, count := s.count + 1 }

/-- Puts a token in front of those that come after the first `place` ones. -/
def insert (place : Nat) (t : Token) (s : Scan) : Scan :=
  let later := s.count - place
  { s with
    tokens := s.tokens.take later ++ t :: s.tokens.drop later
    count := s.count + 1 }

def currentKey (s : Scan) : Option KeyPlace :=
  match s.flowKeys with
  | [] => s.blockKey
  | k :: _ => k

def setKey (k : Option KeyPlace) (s : Scan) : Scan :=
  match s.flowKeys with
  | [] => { s with blockKey := k }
  | _ :: outer => { s with flowKeys := k :: outer }

/-- Gives up the current place of a key; an error if a key is required there. -/
def removeKey? (s : Scan) : Option Scan :=
  if s.currentKey.any (·.required) then none else some (s.setKey none)

def saveKey? (m : Mark) (s : Scan) : Option Scan :=
  if s.keyAllowed then do
    let s ← s.removeKey?
    let required := !s.inFlow && s.columns.head? == some m.column
    return s.setKey (some ⟨s.count, m.index, m.line, m.column, required⟩)
  else some s

def freshKey? (m : Mark) (k : Option KeyPlace) : Option (Option KeyPlace) :=
  match k with
  | none => some none
  | some k => if k.isStale m then (if k.required then none else some none) else some (some k)

def dropStale? (m : Mark) (s : Scan) : Option Scan := do
  return { s with
    blockKey := ← freshKey? m s.blockKey
    flowKeys := ← s.flowKeys.mapM (freshKey? m) }

def openBlock (column place : Nat) (t : Token) (s : Scan) : Scan :=
  if !s.inFlow && s.columns.head?.all (· < column) then
    { s.insert place t with columns := column :: s.columns }
  else s

def closeBlocks (deeper : Nat → Bool) (s : Scan) : Scan :=
  if s.inFlow then s
  else
    let closed := s.columns.takeWhile deeper
    { s with
      tokens := List.replicate closed.length .blockEnd ++ s.tokens
      count := s.count + closed.length
      columns := s.columns.dropWhile deeper }

/-- The text behind blanks, comments and line ends.  A tab is no indentation: where a key may stand
it is not skipped.  Outside of brackets a key may stand on a new line. -/
def skipBlanks (inFlow keyAllowed inComment : Bool) : List Mark → Bool × List Mark
  | [] => (keyAllowed, [])
  | m :: s =>
    if m.isBreak then skipBlanks inFlow (keyAllowed || !inFlow) false s
    else if inComment then skipBlanks inFlow keyAllowed true s
    else if m.isOrderMark || m.char == ' ' || (m.char == '\t' && (inFlow || !keyAllowed)) then
      skipBlanks inFlow keyAllowed false s
    else if m.char == '#' then skipBlanks inFlow keyAllowed true s
    else (keyAllowed, m :: s)

def endBlocks? (s : Scan) : Option Scan := do
  let s ← (s.closeBlocks fun _ => true).removeKey?
  return { s with keyAllowed := false }

def openFlow? (t : Token) (m : Mark) (rest : List Mark) (s : Scan) : Option Scan := do
  let s ← s.saveKey? m
  return { s.push t with flowKeys := none :: s.flowKeys, keyAllowed := true, rest }

def closeFlow? (t : Token) (rest : List Mark) (s : Scan) : Option Scan := do
  let s ← s.removeKey?
  return { s.push t with flowKeys := s.flowKeys.tail, keyAllowed := false, rest }

def flowItem? (rest : List Mark) (s : Scan) : Option Scan := do
  let s ← s.removeKey?
  return { s.push .flowEntry with keyAllowed := true, rest }

/-- In brackets an entry of a block is a token as well, which no rule accepts. -/
def blockItem? (m : Mark) (rest : List Mark) (s : Scan) : Option Scan := do
  if !s.inFlow && !s.keyAllowed then none
  let s ← (s.openBlock m.column s.count .blockSequenceStart).removeKey?
  return { s.push .blockEntry with keyAllowed := true, rest }

def key? (m : Mark) (rest : List Mark) (s : Scan) : Option Scan := do
  if !s.inFlow && !s.keyAllowed then none
  let s ← (s.openBlock m.column s.count .blockMappingStart).removeKey?
  return { s.push .key with keyAllowed := !s.inFlow, rest }

/-- A colon makes the node before it a key if it can be one. -/
def value? (m : Mark) (rest : List Mark) (s : Scan) : Option Scan :=
  match s.currentKey with
  | some k =>
    let s := ((s.insert k.tokens .key).openBlock k.column k.tokens .blockMappingStart).setKey none
    some { s.push .value with keyAllowed := false, rest }
  | none =>
    if !s.inFlow && !s.keyAllowed then none
    else
      let s := s.openBlock m.column s.count .blockMappingStart
      some { s.push .value with keyAllowed := !s.inFlow, rest }

def node? (m : Mark) (token : Option (Token × List Mark)) (s : Scan) : Option Scan := do
  let s ← s.saveKey? m
  let (t, rest) ← token
  return { s.push t with keyAllowed := false, rest }

def name? (s : List Mark) : Option (String × List Mark) :=
  let name := s.takeWhile Mark.isWord
  let rest := s.dropWhile Mark.isWord
  if name.isEmpty then none
  else if blankNext rest ∨ (rest.head?.any fun m => "?:,]\x7d%@\x60".toList.contains m.char) then
    some (text name, rest)
  else none

def octet? : List Mark → Option Nat
  | p :: a :: b :: _ => do
    if p.char != '%' then none
    return 16 * (← hexValue? a.char) + (← hexValue? b.char)
  | _ => none

def utf8Width? (byte : Nat) : Option Nat :=
  if byte < 0x80 then some 1
  else if 0xC0 ≤ byte ∧ byte < 0xE0 then some 2
  else if 0xE0 ≤ byte ∧ byte < 0xF0 then some 3
  else if 0xF0 ≤ byte ∧ byte < 0xF8 then some 4
  else none

/-- The character that escapes at the start of a text stand for, and its bytes. -/
def uriEscape? (s : List Mark) : Option (Char × Nat) := do
  let first ← octet? s
  let width ← utf8Width? first
  let others ← (List.range (width - 1)).mapM fun i => do
    let byte ← octet? (s.drop (3 * (i + 1)))
    if 0x80 ≤ byte ∧ byte < 0xC0 then some byte else none
  let lead := if width = 1 then first else first % Nat.pow 2 (7 - width)
  return (Char.ofNat (others.foldl (fun n byte => 64 * n + byte % 64) lead), width)

def isUriChar (verbatim : Bool) (m : Mark) : Bool :=
  m.isWord || ";/?:@&=+$.!~*'()".toList.contains m.char ||
    (verbatim && (m.char == ',' || m.char == '[' || m.char == ']'))

/-- Reads the characters of a tag, where `skip` characters belong to an escape read before. -/
def uri? (verbatim : Bool) (skip : Nat) (done : List Char) :
    List Mark → Option (List Char × List Mark)
  | [] => some (done.reverse, [])
  | m :: s =>
    match skip with
    | skip + 1 => uri? verbatim skip done s
    | 0 =>
      if m.char == '%' then
        match uriEscape? (m :: s) with
        | some (c, width) => uri? verbatim (3 * width - 1) (c :: done) s
        | none => none
      else if isUriChar verbatim m then uri? verbatim 0 (m.char :: done) s
      else some (done.reverse, m :: s)

def tagHandle? (s : List Mark) : Option (List Char × List Mark) :=
  match s with
  | [] => none
  | m :: rest =>
    if m.char != '!' then none
    else
      let word := (rest.takeWhile Mark.isWord).map Mark.char
      let rest := rest.dropWhile Mark.isWord
      if charNext '!' rest then some ('!' :: word ++ ['!'], rest.tail) else some ('!' :: word, rest)

/-- The tag at the start of a text.  Without a handle of its own it has the handle `!`, and a lone
`!` has none. -/
def tagParts? (s : List Mark) : Option (String × String × List Mark) := do
  if charNext '<' s.tail then
    let (suffix, rest) ← uri? true 0 [] (s.drop 2)
    if suffix.isEmpty ∨ ¬ charNext '>' rest then none
    return ("", String.ofList suffix, rest.tail)
  let (handle, rest) ← tagHandle? s
  if handle.length > 1 ∧ handle.getLast? = some '!' then
    let (suffix, rest) ← uri? false 0 [] rest
    if suffix.isEmpty then none
    return (String.ofList handle, String.ofList suffix, rest)
  let (more, rest) ← uri? false 0 [] rest
  match handle.tail ++ more with
  | [] => return ("", "!", rest)
  | suffix => return ("!", String.ofList suffix, rest)

/-- A blank, or a comma inside brackets, follows a tag. -/
def tag? (inFlow : Bool) (s : List Mark) : Option (Token × List Mark) := do
  let (handle, suffix, rest) ← tagParts? s
  if blankNext rest ∨ (inFlow ∧ charNext ',' rest) then some (.tag handle suffix, rest) else none

def versionNumber? (s : List Mark) : Option (Nat × List Mark) :=
  let digits := s.takeWhile fun m => m.char.isDigit
  if digits.isEmpty ∨ digits.length > 9 then none
  else
    some (digits.foldl (fun n m => 10 * n + (m.char.toNat - '0'.toNat)) 0, s.drop digits.length)

def directive? (s : List Mark) : Option (Token × List Mark) := do
  let name := s.takeWhile Mark.isWord
  let rest := s.dropWhile Mark.isWord
  if name.isEmpty ∨ ¬ blankNext rest then none
  let rest := rest.dropWhile Mark.isSpace
  match text name with
  | "YAML" =>
    let (major, rest) ← versionNumber? rest
    if !charNext '.' rest then none
    let (minor, rest) ← versionNumber? rest.tail
    return (.version major minor, ← lineRest? rest)
  | "TAG" =>
    let (handle, rest) ← tagHandle? rest
    if handle.getLast? ≠ some '!' then none
    if !(rest.head?.any Mark.isSpace) then none
    let (meaning, rest) ← uri? true 0 [] (rest.dropWhile Mark.isSpace)
    if meaning.isEmpty ∨ ¬ blankNext rest then none
    return (.handle (String.ofList handle) (String.ofList meaning), ← lineRest? rest)
  | _ => none

def isIndicator (c : Char) : Bool :=
  "-?:,[]\x7b\x7d#&*!|>'\"%@\x60".toList.contains c

/-- Whether a plain scalar starts here.  A hyphen may start one before anything but a blank; outside
of brackets a question mark and a colon may as well. -/
def startsPlain (inFlow : Bool) (m : Mark) (rest : List Mark) : Bool :=
  (!isIndicator m.char && !m.isSpace && !m.isBreak) ||
    (m.char == '-' && !(rest.head?.any Mark.isSpace)) ||
    (!inFlow && (m.char == '?' || m.char == ':') && !blankNext rest)

def plain? (m : Mark) (s : Scan) : Option Scan := do
  let indent := (s.columns.head?.map (· + 1)).getD 0
  let (p, rest) ← plainScalar? s.inFlow indent .empty s.rest
  let s ← s.node? m (some (.scalar p.string .plain, rest))
  return { s with keyAllowed := p.broken }

def block? (folded : Bool) (rest : List Mark) (s : Scan) : Option Scan := do
  let s ← s.removeKey?
  let (text, rest) ← blockScalar? folded s.columns.head? rest
  let style := if folded then ScalarStyle.folded else .literal
  return { s.push (.scalar text style) with keyAllowed := true, rest }

def quoted? (single : Bool) (m : Mark) (rest : List Mark) (s : Scan) : Option Scan :=
  let style := if single then ScalarStyle.singleQuoted else .doubleQuoted
  s.node? m ((quotedScalar? single 0 .empty rest).map fun (p, rest) =>
    (.scalar p.string style, rest))

def token? (m : Mark) (rest : List Mark) (s : Scan) : Option Scan :=
  if m.column == 0 && m.char == '%' then do
    let s ← s.endBlocks?
    let (t, rest) ← directive? rest
    return { s.push t with rest }
  else if m.column == 0 && tripleNext '-' s.rest then do
    return { (← s.endBlocks?).push .documentStart with rest := rest.drop 2 }
  else if m.column == 0 && tripleNext '.' s.rest then do
    return { (← s.endBlocks?).push .documentEnd with rest := rest.drop 2 }
  else
    let blank := blankNext rest
    match m.char with
    | '[' => s.openFlow? .flowSequenceStart m rest
    | '{' => s.openFlow? .flowMappingStart m rest
    | ']' => s.closeFlow? .flowSequenceEnd rest
    | '}' => s.closeFlow? .flowMappingEnd rest
    | ',' => s.flowItem? rest
    | '*' => s.node? m ((name? rest).map fun (name, rest) => (.alias name, rest))
    | '&' => s.node? m ((name? rest).map fun (name, rest) => (.anchor name, rest))
    | '!' => s.node? m (tag? s.inFlow s.rest)
    | '\'' => s.quoted? true m rest
    | '"' => s.quoted? false m rest
    | c =>
      if c == '-' && blank then s.blockItem? m rest
      else if c == '?' && (s.inFlow || blank) then s.key? m rest
      else if c == ':' && (s.inFlow || blank) then s.value? m rest
      else if (c == '|' || c == '>') && !s.inFlow then s.block? (c == '>') rest
      else if startsPlain s.inFlow m rest then s.plain? m
      else none

/-- Reads all tokens; each takes at least one of at most `fuel` characters. -/
def run? : Nat → Scan → Option Scan
  | 0, _ => none
  | fuel + 1, s =>
    let (keyAllowed, rest) := skipBlanks s.inFlow s.keyAllowed false s.rest
    let s := { s with keyAllowed, rest }
    match rest with
    | [] => s.endBlocks?
    | m :: rest => do
      let s ← s.dropStale? m
      run? fuel (← (s.closeBlocks (m.column < ·)).token? m rest)

end Scan

def tokens? (s : List Char) : Option (List Token) :=
  if s.all isAllowed then do
    let ms := marks s
    return (← Scan.run? (ms.length + 1) (.start ms)).tokens.reverse
  else none

end ApiTypes.Yaml
