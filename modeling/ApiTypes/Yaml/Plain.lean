import ApiTypes.Decimal.Reading
import ApiTypes.Word
import ApiTypes.Yaml.Scalar

namespace ApiTypes.Yaml

inductive Number where
  | integer (n : Int)
  | real (x : Float)

def isNull (s : String) : Bool :=
  ["null", "Null", "NULL", "~"].contains s

def bool? (s : String) : Option Bool :=
  if ["true", "True", "TRUE"].contains s then some true
  else if ["false", "False", "FALSE"].contains s then some false
  else none

def digits? (radix : Nat) (s : List Char) : Option Nat :=
  if s.isEmpty then none
  else
    s.foldlM (fun n c => (hexValue? c).bind fun d =>
      if d < radix then some (radix * n + d) else none) 0

def magnitude? (s : List Char) : Option Nat :=
  match s with
  | '0' :: 'x' :: ds => digits? 16 ds
  | '0' :: 'o' :: ds => digits? 8 ds
  | '0' :: 'b' :: ds => digits? 2 ds
  | '0' :: _ :: _ => none
  | ds => digits? 10 ds

def unsigned? (s : String) : Option Nat :=
  match s.toList with
  | '+' :: ds => magnitude? ds
  | ds => magnitude? ds

def integer? (s : String) : Option Int :=
  match s.toList with
  | '-' :: ds => (magnitude? ds).map fun n => -(n : Int)
  | _ => (unsigned? s).map Int.ofNat

/-- Whether a text is a zero followed by digits, with or without a sign, which is no number. -/
def isZeroPadded (s : String) : Bool :=
  let ds := match s.toList with
    | '+' :: ds | '-' :: ds => ds
    | ds => ds
  match ds with
  | '0' :: d :: ds => (d :: ds).all Decimal.isDigit
  | _ => false

def real? (s : String) : Option Float :=
  if [".inf", ".Inf", ".INF", "+.inf", "+.Inf", "+.INF"].contains s then some (1 / 0)
  else if ["-.inf", "-.Inf", "-.INF"].contains s then some (-1 / 0)
  else if [".nan", ".NaN", ".NAN"].contains s then some (0 / 0)
  else
    match s.toList with
    | '+' :: c :: ds => if c = '+' ∨ c = '-' then none else finite? (c :: ds)
    | ds => finite? ds
where
  finite? (ds : List Char) : Option Float :=
    (Decimal.read? ds).filter Float.isFinite

/-- What a plain scalar means.  A text that stands for no value is `null`. -/
inductive Plain where
  | null
  | bool (b : Bool)
  | number (n : Number)
  | string
  | tooWide

/-- A whole number of 64 bits; up to 128 bits it is too wide, and beyond that none at all. -/
def Plain.ofInteger? (n : Int) : Option Plain :=
  if Word.holds64 n then some (.number (.integer n))
  else if Word.holds128 n then some .tooWide
  else none

def Plain.ofString (s : String) : Plain :=
  if s = "" ∨ isNull s then .null
  else
    match bool? s with
    | some b => .bool b
    | none =>
      match (integer? s).bind Plain.ofInteger? with
      | some p => p
      | none =>
        if isZeroPadded s then .string
        else
          match real? s with
          | some x => .number (.real x)
          | none => .string

end ApiTypes.Yaml
