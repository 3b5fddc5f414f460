/-!
The fewest decimal digits that read back as a given binary64 number.  The number is `m · 2^q`; the
reals that round to it form an interval whose ends belong to it exactly if `m` is even.  A decimal
grid with a point in the interval has one next to the number itself, so looking at those two points
of each grid, coarsest first, finds the shortest decimal; of two on one grid the nearer is taken.
-/

namespace ApiTypes.Decimal

/-- A binary64 number; a finite one is `± mantissa · 2^exponent`. -/
inductive Binary64 where
  | finite (negative : Bool) (mantissa : Nat) (exponent : Int)
  | infinite (negative : Bool)
  | nan

def Binary64.ofBits (bits : UInt64) : Binary64 :=
  let n := bits.toNat
  let negative := n / Nat.pow 2 63 == 1
  let biased : Nat := n / Nat.pow 2 52 % Nat.pow 2 11
  let fraction : Nat := n % Nat.pow 2 52
  if biased = 2047 then
    if fraction = 0 then .infinite negative else .nan
  else if biased = 0 then .finite negative fraction (-1074)
  else .finite negative (Nat.pow 2 52 + fraction) ((biased : Int) - 1075)

def Binary64.ofFloat (x : Float) : Binary64 :=
  .ofBits x.toBits

structure Digits where
  digits : Nat
  exponent : Int
  deriving DecidableEq, Repr

/-- A quarter of the interval's unit: the number is `4 · m` of them, its upper end two more and its
lower end two fewer, or one where the spacing below is half as wide. -/
structure Interval where
  lower : Nat
  value : Nat
  upper : Nat
  closed : Bool
  unit : Int

def Interval.around (m : Nat) (q : Int) : Interval where
  lower := if m = Nat.pow 2 52 ∧ q > -1074 then 4 * m - 1 else 4 * m - 2
  value := 4 * m
  upper := 4 * m + 2
  closed := m % 2 = 0
  unit := q - 2

def Interval.onGrid (i : Interval) (k : Int) (n : Nat) : Nat × Nat :=
  (n * Nat.pow 2 i.unit.toNat * Nat.pow 10 (-k).toNat,
    Nat.pow 2 (-i.unit).toNat * Nat.pow 10 k.toNat)

def Interval.containsPoint (i : Interval) (k : Int) (d : Nat) : Bool :=
  let (lower, den) := i.onGrid k i.lower
  let (upper, _) := i.onGrid k i.upper
  if i.closed then lower ≤ d * den && d * den ≤ upper else lower < d * den && d * den < upper

/-- The point of the grid `10^k` in the interval that is nearest to the number, if there is one. -/
def Interval.point? (i : Interval) (k : Int) : Option Nat :=
  let (value, den) := i.onGrid k i.value
  let d := value / den
  match i.containsPoint k d, i.containsPoint k (d + 1) with
  | true, true => if 2 * (value - d * den) ≤ den then some d else some (d + 1)
  | true, false => some d
  | false, true => some (d + 1)
  | false, false => none

/-- The position of the first digit: `10^k ≤ number < 10^(k+1)`.  Scaling by `10^342` makes every
positive number larger than one. -/
def Interval.leading (i : Interval) : Int :=
  let (value, den) := i.onGrid (-342) i.value
  ((Nat.toDigits 10 (value / den)).length : Int) - 343

def Digits.normalize : Nat → Digits → Digits
  | 0, d => d
  | fuel + 1, d =>
    if d.digits ≠ 0 ∧ d.digits % 10 = 0 then normalize fuel ⟨d.digits / 10, d.exponent + 1⟩ else d

/-- The shortest decimal that reads back as the positive number `m · 2^q`: seventeen digits are
always enough. -/
def shortest (m : Nat) (q : Int) : Digits :=
  let i := Interval.around m q
  let top := i.leading
  let found := (List.range 17).findSome? fun (n : Nat) =>
    (i.point? (top - (n : Int))).map fun d => (⟨d, top - (n : Int)⟩ : Digits)
  (found.getD ⟨0, 0⟩).normalize 20

end ApiTypes.Decimal
