import ApiTypes.Decimal.Shortest

namespace ApiTypes.Decimal

def zeros (n : Nat) : List Char :=
  List.replicate n '0'

def sign (negative : Bool) : List Char :=
  if negative then ['-'] else []

/-- `ds` with the decimal point after `point` digits, padded with zeros where there are none. -/
def positional (ds : List Char) (point : Int) : List Char :=
  if point ≤ 0 then '0' :: '.' :: (zeros (-point).toNat ++ ds)
  else if point.toNat < ds.length then ds.take point.toNat ++ '.' :: ds.drop point.toNat
  else ds ++ zeros (point.toNat - ds.length)

/-- Positional whatever the size; a whole number has no point. -/
def plain (x : Float) : String :=
  match Binary64.ofFloat x with
  | .nan => "NaN"
  | .infinite negative => String.ofList (sign negative ++ "inf".toList)
  | .finite negative m q =>
    if m = 0 then String.ofList (sign negative ++ ['0'])
    else
      let d := shortest m q
      let ds := Nat.toDigits 10 d.digits
      String.ofList (sign negative ++ positional ds (ds.length + d.exponent))

/-- Positional if the first digit stands between the sixteenth place before the point and the fifth
after it, with `.0` for a whole number; otherwise one digit, the others after a point, and the
exponent. -/
def markedFinite (m : Nat) (q : Int) : List Char :=
  if m = 0 then "0.0".toList
  else
    let d := shortest m q
    let ds := Nat.toDigits 10 d.digits
    let point := ds.length + d.exponent
    if -5 < point ∧ point ≤ 16 then
      if d.exponent ≥ 0 then positional ds point ++ ['.', '0'] else positional ds point
    else
      let exponent := (toString (point - 1)).toList
      match ds with
      | [a] => a :: 'e' :: exponent
      | a :: rest => a :: '.' :: rest ++ 'e' :: exponent
      | [] => []

def marked (nan infinity negativeInfinity : String) (x : Float) : String :=
  match Binary64.ofFloat x with
  | .nan => nan
  | .infinite negative => if negative then negativeInfinity else infinity
  | .finite negative m q => String.ofList (sign negative ++ markedFinite m q)

end ApiTypes.Decimal
