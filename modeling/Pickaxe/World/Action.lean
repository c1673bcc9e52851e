import Pickaxe.World.Block

/-! What the player can do. -/
namespace Pickaxe.World

inductive DigStatus where
  | started | cancelled | finished
deriving DecidableEq, Repr

def DigStatus.number : DigStatus → UInt8
  | .started => 0
  | .cancelled => 1
  | .finished => 2

def DigStatus.name : DigStatus → String
  | .started => "started"
  | .cancelled => "cancelled"
  | .finished => "finished"

def DigStatus.all : List DigStatus := [.started, .cancelled, .finished]

inductive Face where
  | down | up | north | south | west | east
deriving DecidableEq, Repr

def Face.number : Face → UInt8
  | .down => 0
  | .up => 1
  | .north => 2
  | .south => 3
  | .west => 4
  | .east => 5

def Face.name : Face → String
  | .down => "down"
  | .up => "up"
  | .north => "north"
  | .south => "south"
  | .west => "west"
  | .east => "east"

def Face.all : List Face := [.down, .up, .north, .south, .west, .east]

inductive Action where
  | chat (line : String)
  | swing
  | dig (status : DigStatus) (block : Block) (face : Face)
  | confirmTeleport (id : Int32)
  | respawn
deriving DecidableEq, Repr

inductive ActionKind where
  | chat | swing | dig | confirmTeleport | respawn
deriving DecidableEq, Repr

def Action.kind : Action → ActionKind
  | .chat _ => .chat
  | .swing => .swing
  | .dig .. => .dig
  | .confirmTeleport _ => .confirmTeleport
  | .respawn => .respawn

def ActionKind.name : ActionKind → String
  | .chat => "chat"
  | .swing => "swing"
  | .dig => "dig"
  | .confirmTeleport => "confirm_teleport"
  | .respawn => "respawn"

def ActionKind.all : List ActionKind := [.chat, .swing, .dig, .confirmTeleport, .respawn]

/-- An action that did not reach the server. -/
structure SendFailure where
  kind : ActionKind
  reason : String
deriving DecidableEq, Repr

def SendFailure.message (f : SendFailure) : String := s!"failed to send {f.kind.name}: {f.reason}"

end Pickaxe.World
