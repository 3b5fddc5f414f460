import ApiTypes.Decimal.Reading
import ApiTypes.Word

namespace ApiTypes.Toml

inductive Scalar where
  | bool (b : Bool)
  | integer (n : Int)
  | real (x : Float)
  | dateTime

def isDigitRun (digit : Char → Bool) : List Char → Bool
  | [] => false
  | [c] => digit c
  | c :: '_' :: s => digit c && isDigitRun digit s
  | c :: s => digit c && isDigitRun digit s

def withoutUnderscores (s : List Char) : List Char :=
  s.filter (· != '_')

def splitSign (s : List Char) : Bool × List Char :=
  match s with
  | '-' :: s => (true, s)
  | '+' :: s => (false, s)
  | s => (false, s)

/-- A decimal whole number without a sign; no zero stands before other digits. -/
def isWhole (s : List Char) : Bool :=
  isDigitRun Decimal.isDigit s && (s.length == 1 || s.head? != some '0')

def isHexDigit (c : Char) : Bool :=
  Decimal.isDigit c || ('a' ≤ c && c ≤ 'f') || ('A' ≤ c && c ≤ 'F')

def digitOf (c : Char) : Nat :=
  if c.isDigit then c.toNat - '0'.toNat else c.toLower.toNat - 'a'.toNat + 10

def radixValue? (radix : Nat) (digit : Char → Bool) (s : List Char) : Option Int :=
  if isDigitRun digit s then
    some ((withoutUnderscores s).foldl (fun n c => radix * n + digitOf c) 0 : Nat)
  else none

def integer? (s : List Char) : Option Int :=
  let n :=
    match s with
    | '0' :: 'x' :: s => radixValue? 16 isHexDigit s
    | '0' :: 'o' :: s => radixValue? 8 (fun c => '0' ≤ c && c ≤ '7') s
    | '0' :: 'b' :: s => radixValue? 2 (fun c => c == '0' || c == '1') s
    | s =>
      let (negative, ds) := splitSign s
      if isWhole ds then
        (radixValue? 10 Decimal.isDigit ds).map fun n => if negative then -n else n
      else none
  n.filter Word.holdsSigned64

def isExponent (s : List Char) : Bool :=
  match s with
  | [] => true
  | c :: s => (c == 'e' || c == 'E') && isDigitRun Decimal.isDigit (splitSign s).2

/-- A number with a fraction or an exponent, but none that is too large. -/
def real? (s : List Char) : Option Float :=
  let isPart (c : Char) : Bool := Decimal.isDigit c || c == '_'
  let unsigned := (splitSign s).2
  let rest := unsigned.dropWhile isPart
  let wellFormed :=
    isWhole (unsigned.takeWhile isPart) &&
      match rest with
      | '.' :: s =>
        isDigitRun Decimal.isDigit (s.takeWhile isPart) && isExponent (s.dropWhile isPart)
      | s => !s.isEmpty && isExponent s
  if wellFormed then
    (Decimal.read? (withoutUnderscores s)).filter fun x => !(x == 1 / 0)
  else none

def special? (s : List Char) : Option Float :=
  let (negative, word) := splitSign s
  match String.ofList word with
  | "inf" => some (if negative then -1 / 0 else 1 / 0)
  | "nan" => some (0 / 0)
  | _ => none

def fixedDigits? (n : Nat) (s : List Char) : Option Nat :=
  if s.length = n ∧ s.all Decimal.isDigit then some (Decimal.natOfDigits s) else none

def isLeapYear (year : Nat) : Bool :=
  year % 4 == 0 && (year % 100 != 0 || year % 400 == 0)

def daysIn (year month : Nat) : Nat :=
  if month = 2 then (if isLeapYear year then 29 else 28)
  else if [4, 6, 9, 11].contains month then 30
  else 31

def isDate (s : List Char) : Bool :=
  match s.splitOn '-' with
  | [year, month, day] =>
    match fixedDigits? 4 year, fixedDigits? 2 month, fixedDigits? 2 day with
    | some y, some m, some d => 1 ≤ m && m ≤ 12 && 1 ≤ d && d ≤ daysIn y m
    | _, _, _ => false
  | _ => false

/-- A time with seconds, of which there may be sixty and a fraction. -/
def isTime (s : List Char) : Bool :=
  match s.splitOn ':' with
  | [hour, minute, second] =>
    match fixedDigits? 2 hour, fixedDigits? 2 minute, fixedDigits? 2 (second.take 2) with
    | some h, some m, some sec =>
      h ≤ 23 && m ≤ 59 && sec ≤ 60 &&
        match second.drop 2 with
        | [] => true
        | '.' :: fraction => !fraction.isEmpty && fraction.all Decimal.isDigit
        | _ => false
    | _, _, _ => false
  | _ => false

def isOffset (s : List Char) : Bool :=
  match s.splitOn ':' with
  | [hour, minute] =>
    match fixedDigits? 2 hour, fixedDigits? 2 minute with
    | some h, some m => h ≤ 23 && m ≤ 59
    | _, _ => false
  | _ => false

/-- A time that may be followed by an offset, which only times of a date have. -/
def isZonedTime (s : List Char) : Bool :=
  let time := s.takeWhile fun c => Decimal.isDigit c || c == ':' || c == '.'
  isTime time &&
    match s.drop time.length with
    | [] => true
    | [c] => c == 'Z' || c == 'z'
    | c :: s => (c == '+' || c == '-') && isOffset s

def isDateTime (s : List Char) : Bool :=
  isTime s ||
    (isDate (s.take 10) &&
      match s.drop 10 with
      | [] => true
      | c :: s => (c == 'T' || c == 't') && isZonedTime s)

def isScalarChar (c : Char) : Bool :=
  c.isAlphanum || c == '_' || c == '+' || c == '-' || c == '.' || c == ':'

def scalarOf? (s : List Char) : Option Scalar :=
  if s = "true".toList then some (.bool true)
  else if s = "false".toList then some (.bool false)
  else if isDateTime s then some .dateTime
  else
    match integer? s with
    | some n => some (.integer n)
    | none => ((real? s).or (special? s)).map .real

/-- Reads a scalar.  A date and a time may be divided by a blank. -/
def scalar? (s : List Char) : Option (Scalar × List Char) :=
  let word := s.takeWhile isScalarChar
  let rest := s.dropWhile isScalarChar
  match rest with
  | ' ' :: more =>
    if isDate word && isZonedTime (more.takeWhile isScalarChar) then
      some (.dateTime, more.dropWhile isScalarChar)
    else (scalarOf? word).map (·, rest)
  | _ => (scalarOf? word).map (·, rest)

end ApiTypes.Toml
