import Pickaxe.Json.Basic
import Pickaxe.Json.Document
import Pickaxe.Decimal.Shortest

/-! Numbers in JSON: which number a written one stands for, and how a number is written.

A whole number without fraction and exponent is an integer if 64 bits hold it. For any other,
the significand keeps its leading digits while 64 bits hold them, digits after that only
scale, and the result is scaled in floating point by one power of ten. -/
namespace Pickaxe.Json

/-- Takes digits into a significand while 64 bits hold it; gives the digits left over. -/
def absorb : Nat → List Nat → Nat × List Nat
  | n, [] => (n, [])
  | n, d :: rest => if n * 10 + d < UInt64.size then absorb (n * 10 + d) rest else (n, d :: rest)

/-- The exponent that digits spell, unless it takes more than 31 bits. -/
def exponent? : Nat → List Nat → Option Nat
  | n, [] => some n
  | n, d :: rest => if n * 10 + d < 0x80000000 then exponent? (n * 10 + d) rest else none

def powerOfTen (e : Nat) : Float := Float.ofScientific 1 false e

/-- The greatest power of ten that a double holds is `10^308`. -/
def greatestPower : Nat := 308

/-- Divided by `10^e`, by one greatest power after another if need be. -/
def shrink (x : Float) (e : Nat) : Float :=
  if e ≤ greatestPower then x / powerOfTen e
  else if x == 0 then x
  else shrink (x / powerOfTen greatestPower) (e - greatestPower)
termination_by e
decreasing_by simp [greatestPower] at *; omega

/-- The double for `significand · 10^e`; none if it is out of range. -/
def scale (significand : Nat) (e : Int) : Option Float :=
  let x := (UInt64.ofNat significand).toFloat
  if e < 0 then some (shrink x (-e).toNat)
  else if e.toNat ≤ greatestPower then
    let y := x * powerOfTen e.toNat
    if y.isFinite then some y else none
  else if x == 0 then some x
  else none

/-- The number a written one stands for; none if it is out of range. -/
def Numeral.value? (n : Numeral) : Option Json :=
  let (whole, dropped) := absorb 0 n.whole
  if n.fraction = [] ∧ n.exponent = none ∧ dropped = [] ∧
      (n.negative = false ∨ 0 < whole ∧ Int64.minValue.toInt ≤ -whole) then
    some (.int (if n.negative then -whole else whole))
  else
    let (significand, unread) := absorb whole n.fraction
    let places : Int := (dropped.length : Int) - (n.fraction.length - unread.length)
    let size := match n.exponent with
      | none => scale significand places
      | some (negative, digits) => match exponent? 0 digits with
        | some e => scale significand (if negative then places - e else places + e)
        | none => if negative ∨ significand = 0 then some 0 else none
    size.map fun x => .float (if n.negative then -x else x)

/-- How floating-point numbers are written: positional from `10^-5` up to `10^16` and always
with a point there, else with an exponent that has a sign and no padding. -/
def floatText (x : Float) : String :=
  let (negative, m, q, below) := Decimal.parts x
  let sign := if negative then "-" else ""
  if m = 0 then sign ++ "0.0"
  else
    let d := Decimal.shortest m q below
    let digits := (toString d.digits).toList
    let count := digits.length
    -- the point stands after this many digits
    let point := d.exponent + count
    let zeros (n : Int) := List.replicate n.toNat '0'
    sign ++ String.ofList (
      if 0 ≤ d.exponent ∧ point ≤ 16 then digits ++ zeros d.exponent ++ ['.', '0']
      else if 0 < point ∧ point ≤ 16 then
        digits.take point.toNat ++ '.' :: digits.drop point.toNat
      else if -5 < point ∧ point ≤ 0 then ['0', '.'] ++ zeros (-point) ++ digits
      else
        digits.take 1 ++ (if count = 1 then [] else '.' :: digits.drop 1) ++ 'e' ::
          (if 0 < point then '+' else '-') :: (toString (point - 1).natAbs).toList)

end Pickaxe.Json
