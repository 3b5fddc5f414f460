namespace ApiTypes.Decimal

def isDigit (c : Char) : Bool :=
  '0' ≤ c && c ≤ '9'

def digitValue (c : Char) : Nat :=
  c.toNat - '0'.toNat

def natOfDigits (ds : List Char) : Nat :=
  ds.foldl (fun n c => 10 * n + digitValue c) 0

/-- `± n · 10^e`, rounded to nearest; far out of range it is zero or infinite without computing the
power. -/
def rounded (negative : Bool) (n : Nat) (e : Int) : Float :=
  let places := ((Nat.toDigits 10 n).length : Int) + e
  let magnitude : Float :=
    if n = 0 ∨ places < -400 then 0
    else if places > 400 then 1 / 0
    else if e < 0 then Float.ofScientific n true e.natAbs
    else Float.ofScientific n false e.natAbs
  if negative then -magnitude else magnitude

/-- The parts of `digits [. digits] [e [sign] digits]`, where one of the first two must not be
empty: all digits and the power of ten they are multiplied by. -/
def decimalParts? (s : List Char) : Option (Nat × Int) :=
  let whole := s.takeWhile isDigit
  let rest := s.dropWhile isDigit
  let (fraction, rest) :=
    match rest with
    | '.' :: rest => (rest.takeWhile isDigit, rest.dropWhile isDigit)
    | _ => ([], rest)
  let digits := whole ++ fraction
  let n := natOfDigits digits
  if digits.isEmpty then none
  else
    match rest with
    | [] => some (n, -fraction.length)
    | c :: rest =>
      if c ≠ 'e' ∧ c ≠ 'E' then none
      else
        let (negative, ds) :=
          match rest with
          | '-' :: ds => (true, ds)
          | '+' :: ds => (false, ds)
          | ds => (false, ds)
        if ds.isEmpty ∨ ¬ ds.all isDigit then none
        else
          let e : Int := natOfDigits ds
          some (n, (if negative then -e else e) - fraction.length)

/-- A decimal number with an optional sign, or one of the words `inf`, `infinity` and `nan` in any
case. -/
def read? (s : List Char) : Option Float :=
  let (negative, body) :=
    match s with
    | '-' :: body => (true, body)
    | '+' :: body => (false, body)
    | body => (false, body)
  let word := String.ofList (body.map Char.toLower)
  if word = "inf" ∨ word = "infinity" then some (if negative then -1 / 0 else 1 / 0)
  else if word = "nan" then some (0 / 0)
  else (decimalParts? body).map fun (n, e) => rounded negative n e

/-- `significand · 10^exponent`, each factor rounded before the product is; `none` if a power or the
product is too large. -/
def scaled? (significand : UInt64) (exponent : Int) : Option Float :=
  let f := significand.toFloat
  let power (e : Int) : Float := Float.ofScientific 1 false e.natAbs
  let divideTwice (e : Int) : Float :=
    if e ≥ -308 then f / power e
    else if e ≥ -616 then f / power 308 / power (e + 308)
    else if e ≥ -924 then f / power 308 / power 308 / power (e + 616)
    else 0
  if f == 0 then some f
  else if exponent < 0 then some (divideTwice exponent)
  else if exponent > 308 then none
  else
    let product := f * power exponent
    if product == 1 / 0 then none else some product

end ApiTypes.Decimal
