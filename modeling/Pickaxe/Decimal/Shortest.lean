/-! The shortest decimal that reads back as a given number. A positive double is `m · 2^q`; the
numbers that round to it make an interval around it. Grids of one, two, … digits are tried in
turn: the first grid with a point in the interval wins, and of its points the one nearest to
the number, the even one on a tie. -/
namespace Pickaxe.Decimal

/-- The number `digits · 10^exponent`. -/
structure Scientific where
  digits : Nat
  exponent : Int
deriving DecidableEq, Repr

/-- A fraction of natural numbers. -/
structure Fraction where
  num : Nat
  den : Nat

def Fraction.le (a b : Fraction) : Bool := a.num * b.den ≤ b.num * a.den
def Fraction.lt (a b : Fraction) : Bool := a.num * b.den < b.num * a.den

/-- `m · base^e`. -/
def Fraction.scaled (m base : Nat) (e : Int) : Fraction :=
  if 0 ≤ e then ⟨m * base.pow e.toNat, 1⟩ else ⟨m, base.pow (-e).toNat⟩

def Scientific.fraction (d : Scientific) : Fraction := .scaled d.digits 10 d.exponent

/-- The numbers that round to `m · 2^q`, where `below` says that the gap below is half the gap
above. The ends belong to it when `m` is even. -/
structure Interval where
  low : Fraction
  high : Fraction
  closed : Bool

def interval (m : Nat) (q : Int) (below : Bool) : Interval where
  low := .scaled (4 * m - if below then 1 else 2) 2 (q - 2)
  high := .scaled (4 * m + 2) 2 (q - 2)
  closed := m % 2 == 0

def Interval.holds (i : Interval) (x : Fraction) : Bool :=
  if i.closed then i.low.le x && x.le i.high else i.low.lt x && x.lt i.high

/-- The exponent of the highest digit of `x`: the greatest `k` with `10^k ≤ x`, looked for
downwards from `k`. -/
def topExponent (x : Fraction) : (fuel : Nat) → Int → Int
  | 0, k => k
  | fuel + 1, k => if (Fraction.scaled 1 10 k).le x then k else topExponent x fuel (k - 1)

/-- The point of the grid `10^e` nearest to `x` among those in the interval, if it holds any. -/
def onGrid (i : Interval) (x : Fraction) (e : Int) : Option Scientific :=
  let unit := Fraction.scaled 1 10 e
  let floor := x.num * unit.den / (x.den * unit.num)
  let low : Scientific := ⟨floor, e⟩
  let high : Scientific := ⟨floor + 1, e⟩
  match i.holds low.fraction && floor != 0, i.holds high.fraction with
  | false, false => none
  | true, false => some low
  | false, true => some high
  | true, true =>
    -- twice the number against the sum of the two points
    let twice := 2 * x.num * unit.den
    let mid := (2 * floor + 1) * unit.num * x.den
    if twice < mid then some low
    else if mid < twice then some high
    else some (if floor % 2 = 0 then low else high)

/-- The first grid that has a point in the interval, from `digits` digits on. -/
def firstGrid (i : Interval) (x : Fraction) (top : Int) : (fuel digits : Nat) → Scientific
  | 0, digits => (onGrid i x (top + 1 - digits)).getD ⟨0, 0⟩
  | fuel + 1, digits =>
    (onGrid i x (top + 1 - digits)).getD (firstGrid i x top fuel (digits + 1))

/-- Moves factors of ten from the digits to the exponent. -/
def Scientific.stripped (d : Scientific) : (fuel : Nat) → Scientific
  | 0 => d
  | fuel + 1 =>
    if d.digits ≠ 0 ∧ d.digits % 10 = 0 then
      Scientific.stripped ⟨d.digits / 10, d.exponent + 1⟩ fuel
    else d

/-- The shortest decimal of `m · 2^q` for `0 < m`. Seventeen digits always do. -/
def shortest (m : Nat) (q : Int) (below : Bool) : Scientific :=
  let x := Fraction.scaled m 2 q
  let top := topExponent x 650 309
  (firstGrid (interval m q below) x top 17 1).stripped 20

/-- Sign, significand and binary exponent of a finite double, and whether the gap below it is
half the gap above. -/
def parts (x : Float) : Bool × Nat × Int × Bool :=
  let bits : Nat := x.toBits.toNat
  -- a sign of one bit, an exponent of eleven and a fraction of 52
  let unit : Nat := 0x10000000000000
  let negative := 0x8000000000000000 ≤ bits
  let e : Nat := bits / unit % 0x800
  let f : Nat := bits % unit
  if e = 0 then (negative, f, -1074, false)
  else (negative, f + unit, (e : Int) - 1075, f == 0 && 1 < e)

end Pickaxe.Decimal
