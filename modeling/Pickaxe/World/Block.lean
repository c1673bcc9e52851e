/-! Blocks of the world, and the one number that stands for a block on the wire: 26 bits of x,
26 bits of z and 12 bits of y, from the top. -/
namespace Pickaxe.World

structure Block where
  x : Int32
  y : Int32
  z : Int32
deriving DecidableEq, Repr, Inhabited

namespace Block

/-- The block around a point: each axis rounded down, and held inside its range. -/
def containing (x y z : Float) : Block := ⟨x.floor.toInt32, y.floor.toInt32, z.floor.toInt32⟩

/-- Moved along each axis, around the end of its range if need be. -/
def offset (b : Block) (dx dy dz : Int32) : Block := ⟨b.x + dx, b.y + dy, b.z + dz⟩

/-- How many numbers 26 bits hold. -/
def wide : Nat := 0x4000000

/-- How many numbers 12 bits hold. -/
def narrow : Nat := 0x1000

/-- Each axis keeps its low bits. -/
def pack (b : Block) : Int64 :=
  Int64.ofInt (b.x.toInt % wide * (wide * narrow) + b.z.toInt % wide * narrow + b.y.toInt % narrow)

/-- Each field is signed. -/
def unpack (w : Int64) : Block where
  x := Int32.ofInt (w.toInt / (wide * narrow))
  y := Int32.ofInt (w.toInt.bmod narrow)
  z := Int32.ofInt ((w.toInt / narrow).bmod wide)

def text (b : Block) : String := s!"({b.x.toInt}, {b.y.toInt}, {b.z.toInt})"

end Block

end Pickaxe.World
