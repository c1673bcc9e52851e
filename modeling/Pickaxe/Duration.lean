import Pickaxe.Json.Decoder

/-! Spans of time, in nanoseconds, and how settings write them: whole seconds and the
nanoseconds on top. -/
namespace Pickaxe

abbrev Duration := Nat

namespace Duration

def second : Duration := 1000000000

def milliseconds (n : Nat) : Duration := n * 1000000

def seconds (n : Nat) : Duration := n * second

/-- Nanoseconds beyond a second carry over, as far as the seconds fit 64 bits. -/
def decoder : Json.Decoder Duration :=
  .strictRecord ["secs", "nanos"] fun f => do
    let secs ← f.required "secs" .u64
    let nanos ← f.required "nanos" .u32
    let total := secs.toNat * second + nanos.toNat
    if total / second < UInt64.size then some total else none

def json (d : Duration) : Json :=
  .object [("secs", .int (d / second)), ("nanos", .int (d % second))]

/-- A number of `unit`s, with a fraction of as few digits as show all of it. -/
def inUnits (unit : Nat) (places : Nat) (d : Duration) : String :=
  let digits := Nat.toDigits 10 (d % unit)
  let padded := List.replicate (places - digits.length) '0' ++ digits
  let fraction := (padded.reverse.dropWhile (· = '0')).reverse
  toString (d / unit) ++ if d % unit = 0 then "" else "." ++ String.ofList fraction

/-- The span in the largest unit of which it holds one. -/
def text (d : Duration) : String :=
  if second ≤ d then s!"{inUnits second 9 d}s"
  else if 1000000 ≤ d then s!"{inUnits 1000000 6 d}ms"
  else if 1000 ≤ d then s!"{inUnits 1000 3 d}µs"
  else s!"{d}ns"

end Duration

end Pickaxe
