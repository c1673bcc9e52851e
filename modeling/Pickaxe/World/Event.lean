import Pickaxe.World.Pose

/-! What the server tells the player. -/
namespace Pickaxe.World

inductive Event where
  | joined (entity : Int32)
  /-- A chat line as plain text. -/
  | chat (line : String)
  /-- The server has moved the player to this pose. -/
  | teleport (pose : Pose) (id : Int32)
  | health (health : Float32) (food : Int32) (saturation : Float32)
  | death (message : String)
  | disconnected (reason : String)
deriving DecidableEq

end Pickaxe.World
