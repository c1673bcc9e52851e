import Pickaxe.Packet.Handshake

/-! The versions to try, in order: the one the server reports, the others around it from near
to far, then the defaults. No version comes twice. -/
namespace Pickaxe.Negotiation

open Packet (Version)

/-- The list without what stands further up in it already, or in `seen`. -/
def firstOf (seen : List Version) : List Version → List Version
  | [] => []
  | v :: rest => if v ∈ seen then firstOf seen rest else v :: firstOf (v :: seen) rest

/-- How far a window reaches. A radius is a signed number of 32 bits, and below zero there is
nothing to reach. -/
def reach (radius : UInt32) : Nat := radius.toInt32.toNatClampNeg

/-- A positive version of 32 bits. -/
def version? (n : Int) : Option Version :=
  if 0 < n ∧ n ≤ Int32.maxValue.toInt then some (Int32.ofInt n) else none

/-- The versions around `center`, nearest first, the lower one first at equal distance. -/
def around (center : Version) (radius : UInt32) : List Version :=
  ((List.range (reach radius)).map (· + 1)).flatMap fun distance =>
    (version? (center.toInt - (distance : Nat))).toList ++
      (version? (center.toInt + (distance : Nat))).toList

def candidates (reported : Option Version) (defaults : List Version) (radius : UInt32) :
    List Version :=
  firstOf [] (match reported with
    | some v => v :: around v radius ++ defaults
    | none => defaults)

end Pickaxe.Negotiation
