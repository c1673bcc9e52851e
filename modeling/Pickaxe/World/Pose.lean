import Pickaxe.World.Block

/-! Where the player stands and looks, and how a teleport changes it. -/
namespace Pickaxe.World

structure Pose where
  x : Float
  y : Float
  z : Float
  yaw : Float32
  pitch : Float32
deriving DecidableEq

namespace Pose

/-- The pose before the server has sent any. -/
def origin : Pose := ⟨0, 0, 0, 0, 0⟩

/-- The block the feet are in. -/
def block (p : Pose) : Block := Block.containing p.x p.y p.z

/-- The block that is mined from here: one along z from the feet, wherever the player looks. -/
def target (p : Pose) : Block := p.block.offset 0 0 1

end Pose

/-- Which fields of a teleport count from the pose before it. -/
structure Relative where
  bits : UInt8
deriving DecidableEq, Repr

namespace Relative

def x : UInt8 := 0x01
def y : UInt8 := 0x02
def z : UInt8 := 0x04
def yaw : UInt8 := 0x08
def pitch : UInt8 := 0x10

def holds (r : Relative) (bit : UInt8) : Bool := r.bits &&& bit != 0

/-- The pose after `teleport`, coming from `before`. -/
def apply (r : Relative) (before teleport : Pose) : Pose where
  x := if r.holds Relative.x then before.x + teleport.x else teleport.x
  y := if r.holds Relative.y then before.y + teleport.y else teleport.y
  z := if r.holds Relative.z then before.z + teleport.z else teleport.z
  yaw := if r.holds Relative.yaw then before.yaw + teleport.yaw else teleport.yaw
  pitch := if r.holds Relative.pitch then before.pitch + teleport.pitch else teleport.pitch

end Relative

end Pickaxe.World
