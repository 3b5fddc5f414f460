import ApiTypes.Decimal.Reading
import ApiTypes.Json.Draft

namespace ApiTypes.Json.Reader

/-- A number or a string that no document can hold is `none`. -/
inductive Token where
  | openArray
  | closeArray
  | openObject
  | closeObject
  | comma
  | colon
  | null
  | bool (b : Bool)
  | number (n : Option Number)
  | string (s : Option String)

def hexValue? (c : Char) : Option Nat :=
  if '0' ≤ c ∧ c ≤ '9' then some (c.toNat - '0'.toNat)
  else if 'a' ≤ c ∧ c ≤ 'f' then some (c.toNat - 'a'.toNat + 10)
  else if 'A' ≤ c ∧ c ≤ 'F' then some (c.toNat - 'A'.toNat + 10)
  else none

def simpleEscape? (c : Char) : Option Char :=
  match c with
  | '"' | '\\' | '/' => some c
  | 'b' => some '\x08'
  | 'f' => some '\x0c'
  | 'n' => some '\n'
  | 'r' => some '\r'
  | 't' => some '\t'
  | _ => none

/-- The code units of a text up to its closing quote, with escapes replaced, and what follows. -/
def units? : List Char → Option (List Nat × List Char)
  | [] => none
  | '"' :: rest => some ([], rest)
  | '\\' :: 'u' :: a :: b :: c :: d :: rest => do
    let unit := 4096 * (← hexValue? a) + 256 * (← hexValue? b) + 16 * (← hexValue? c) +
      (← hexValue? d)
    let (units, rest) ← units? rest
    return (unit :: units, rest)
  | '\\' :: c :: rest => do
    let e ← simpleEscape? c
    let (units, rest) ← units? rest
    return (e.toNat :: units, rest)
  | c :: rest => do
    if c.toNat < 0x20 ∨ c = '\\' then none
    let (units, rest) ← units? rest
    return (c.toNat :: units, rest)

/-- Joins surrogate pairs; half a pair has no text. -/
def text? : List Nat → Option (List Char)
  | [] => some []
  | [u] => if 0xD800 ≤ u ∧ u < 0xE000 then none else some [Char.ofNat u]
  | u :: v :: rest =>
    if 0xD800 ≤ u ∧ u < 0xDC00 then
      if 0xDC00 ≤ v ∧ v < 0xE000 then
        (text? rest).map (Char.ofNat (0x10000 + (u - 0xD800) * 0x400 + (v - 0xDC00)) :: ·)
      else none
    else if 0xDC00 ≤ u ∧ u < 0xE000 then none
    else (text? (v :: rest)).map (Char.ofNat u :: ·)

/-- Appends digits to a number below `2^64` while it stays below; the number, and how many digits
are left over. -/
def accumulate (n : Nat) : List Char → Nat × Nat
  | [] => (n, 0)
  | c :: ds =>
    let next := 10 * n + Decimal.digitValue c
    if next < Word.unsigned64 then accumulate next ds else (n, ds.length + 1)

structure Numeral where
  negative : Bool
  whole : List Char
  fraction : Option (List Char)
  exponent : Option Int

def fraction? : List Char → Option (Option (List Char) × List Char)
  | '.' :: s =>
    let ds := s.takeWhile Decimal.isDigit
    if ds.isEmpty then none else some (some ds, s.dropWhile Decimal.isDigit)
  | s => some (none, s)

def exponent? : List Char → Option (Option Int)
  | [] => some none
  | c :: s =>
    if c ≠ 'e' ∧ c ≠ 'E' then none
    else
      let (negative, ds) : Bool × List Char :=
        match s with
        | '-' :: ds => (true, ds)
        | '+' :: ds => (false, ds)
        | ds => (false, ds)
      if ds.isEmpty ∨ ¬ ds.all Decimal.isDigit then none
      else
        let e : Int := Decimal.natOfDigits ds
        some (some (if negative then -e else e))

def numeral? (s : List Char) : Option Numeral := do
  let (negative, s) : Bool × List Char :=
    match s with
    | '-' :: s => (true, s)
    | s => (false, s)
  let whole := s.takeWhile Decimal.isDigit
  if whole.isEmpty ∨ (whole.head? = some '0' ∧ whole.length ≠ 1) then none
  let (fraction, s) ← fraction? (s.dropWhile Decimal.isDigit)
  return { negative, whole, fraction, exponent := ← exponent? s }

/-- A whole number of the range stays whole, but not minus zero.  All others are real, from the
digits that fit in 64 bits. -/
def Numeral.number? (n : Numeral) : Option Number :=
  let (whole, dropped) := accumulate 0 n.whole
  let integer : Int := if n.negative then -whole else whole
  if n.fraction.isNone ∧ n.exponent.isNone ∧ dropped = 0 ∧ Word.holds64 integer ∧
      ¬ (n.negative ∧ whole = 0) then
    some (.integer integer)
  else
    let fraction := n.fraction.getD []
    let (significand, unused) := accumulate whole fraction
    let places : Int := (fraction.length : Int) - unused
    let exponent : Int := dropped - places + n.exponent.getD 0
    (Decimal.scaled? significand.toUInt64 exponent).map fun x =>
      .real (if n.negative then -x else x)

def isSpace (c : Char) : Bool :=
  c = ' ' || c = '\n' || c = '\t' || c = '\r'

def isNumeric (c : Char) : Bool :=
  Decimal.isDigit c || c = '-' || c = '+' || c = '.' || c = 'e' || c = 'E'

def token? (c : Char) (rest : List Char) : Option (Token × List Char) :=
  match c with
  | '[' => some (.openArray, rest)
  | ']' => some (.closeArray, rest)
  | '\x7b' => some (.openObject, rest)
  | '\x7d' => some (.closeObject, rest)
  | ',' => some (.comma, rest)
  | ':' => some (.colon, rest)
  | '"' => (units? rest).map fun (units, rest) => (.string ((text? units).map String.ofList), rest)
  | _ =>
    if c = '-' ∨ Decimal.isDigit c then
      (numeral? (c :: rest.takeWhile isNumeric)).map fun n =>
        (.number n.number?, rest.dropWhile isNumeric)
    else
      match c :: rest with
      | 'n' :: 'u' :: 'l' :: 'l' :: rest => some (.null, rest)
      | 't' :: 'r' :: 'u' :: 'e' :: rest => some (.bool true, rest)
      | 'f' :: 'a' :: 'l' :: 's' :: 'e' :: rest => some (.bool false, rest)
      | _ => none

/-- All tokens of a text; every step takes at least one of at most `fuel` characters. -/
def tokens? : Nat → List Char → Option (List Token)
  | _, [] => some []
  | 0, _ :: _ => none
  | fuel + 1, c :: rest =>
    if isSpace c then tokens? fuel rest
    else do
      let (t, rest) ← token? c rest
      return t :: (← tokens? fuel rest)

/-- A container that is still open, with its entries in reverse; an object knows the key of the
value that is due. -/
inductive Frame where
  | array (items : List Draft)
  | object (members : List (Option String × Draft)) (key : Option String)

inductive Expected where
  | value
  | valueOrClose
  | key
  | keyOrClose
  | colon
  | commaOrClose
  | nothing
  deriving DecidableEq, Repr

structure Machine where
  stack : List Frame
  expected : Expected
  result : Draft

/-- Containers nested this deep are marked. -/
def nestingLimit : Nat := 128

def Machine.start : Machine where
  stack := []
  expected := .value
  result := .invalid

def Machine.complete (d : Draft) : List Frame → Machine
  | [] => ⟨[], .nothing, d⟩
  | .array items :: stack => ⟨.array (d :: items) :: stack, .commaOrClose, .invalid⟩
  | .object members key :: stack =>
    ⟨.object ((key, d) :: members) none :: stack, .commaOrClose, .invalid⟩

/-- The value of a container that is closed, where `outside` containers stay open. -/
def closed (outside : Nat) (d : Draft) : Draft :=
  if outside + 1 < nestingLimit then d else .invalid

def Token.scalar? : Token → Option Draft
  | .null => some .null
  | .bool b => some (.bool b)
  | .number n => some ((n.map Draft.number).getD .invalid)
  | .string s => some ((s.map Draft.string).getD .invalid)
  | _ => none

def Machine.step (m : Machine) (t : Token) : Option Machine :=
  match m.expected, t, m.stack with
  | .value, .openArray, stack | .valueOrClose, .openArray, stack =>
    some ⟨.array [] :: stack, .valueOrClose, .invalid⟩
  | .value, .openObject, stack | .valueOrClose, .openObject, stack =>
    some ⟨.object [] none :: stack, .keyOrClose, .invalid⟩
  | .valueOrClose, .closeArray, .array items :: stack
  | .commaOrClose, .closeArray, .array items :: stack =>
    some (.complete (closed stack.length (.array items.reverse)) stack)
  | .keyOrClose, .closeObject, .object members _ :: stack
  | .commaOrClose, .closeObject, .object members _ :: stack =>
    some (.complete (closed stack.length (.object members.reverse)) stack)
  | .value, t, stack | .valueOrClose, t, stack => t.scalar?.map fun d => .complete d stack
  | .key, .string key, .object members _ :: stack
  | .keyOrClose, .string key, .object members _ :: stack =>
    some ⟨.object members key :: stack, .colon, .invalid⟩
  | .colon, .colon, stack => some ⟨stack, .value, .invalid⟩
  | .commaOrClose, .comma, .array items :: stack => some ⟨.array items :: stack, .value, .invalid⟩
  | .commaOrClose, .comma, .object members key :: stack =>
    some ⟨.object members key :: stack, .key, .invalid⟩
  | _, _, _ => none

def draft? (s : String) : Option Draft := do
  let chars := s.toList
  let m ← (← tokens? chars.length chars).foldlM Machine.step Machine.start
  if m.expected = .nothing then some m.result else none

end ApiTypes.Json.Reader

namespace ApiTypes.Json

def parse? (s : String) : Option Json :=
  (Reader.draft? s).bind Draft.toJson?

end ApiTypes.Json
