import Pickaxe.Component
import Pickaxe.Packet.Handshake
import Pickaxe.World.Action
import Pickaxe.World.Pose

/-! Packets of the game itself. -/
namespace Pickaxe.Packet.Play

open Wire World

/-- The longest chat line, in characters. -/
def maxChat : Nat := 256

/-- The bytes of a chat line's signature. -/
def signatureSize : Nat := 256

def keepAlive (id : Int64) : List UInt8 := packet 0x18 [.i64 id]

def pong (id : Int32) : List UInt8 := packet 0x27 [.i32 id]

/-- What goes out with an action and is not part of it. -/
structure Stamp where
  /-- Counts the actions. -/
  sequence : Int32
  /-- Milliseconds since 1970. -/
  timestamp : Int64
  salt : Int64
deriving DecidableEq, Repr

/-- An action as a packet. A chat line goes unsigned and acknowledges nothing. -/
def act (stamp : Stamp) : Action → Except PacketError (List UInt8)
  | .chat line =>
    if line.length ≤ maxChat then
      .ok (packet 0x06 [.text line, .i64 stamp.timestamp, .i64 stamp.salt, .bool false,
        .varint 0, .bytes [0, 0, 0]])
    else .error (.invalidMessage s!"chat message longer than {maxChat} characters")
  | .swing => .ok (packet 0x36 [.varint 0])
  | .dig status block face =>
    .ok (packet 0x24 [.varint (Int32.ofNat status.number.toNat), .position block,
      .u8 face.number, .varint stamp.sequence])
  | .confirmTeleport id => .ok (packet 0x00 [.varint id])
  | .respawn => .ok (packet 0x09 [.varint 0])

inductive Received where
  | login (entity : Int32)
  | keepAlive (id : Int64)
  | ping (id : Int32)
  /-- A teleport as it was sent. -/
  | syncPosition (pose : Pose) (relative : Relative) (id : Int32)
  | setHealth (health : Float32) (food : Int32) (saturation : Float32)
  | combatDeath (message : String)
  | disconnect (reason : String)
  | chat (line : String)
  | other (id : Int32)
deriving DecidableEq

def pose : Reader Pose := do
  let x ← Reader.f64
  let y ← Reader.f64
  let z ← Reader.f64
  let yaw ← Reader.f32
  let pitch ← Reader.f32
  return ⟨x, y, z, yaw, pitch⟩

/-- A line from another player; sender, number and signature are passed over. -/
def playerChat : Reader String := do
  let _ ← Reader.uuid
  let _ ← Reader.varint
  if ← Reader.bool then
    let _ ← Reader.bytes signatureSize
    Reader.text maxChat
  else Reader.text maxChat

def read : Reader Received := do
  let id ← Reader.varint
  if id = 0x1D then return .disconnect (← Component.read)
  else if id = 0x1E then return .chat (← Component.read)
  else if id = 0x26 then return .keepAlive (← Reader.i64)
  else if id = 0x2B then return .login (← Reader.i32)
  else if id = 0x35 then return .ping (← Reader.i32)
  else if id = 0x39 then return .chat (← playerChat)
  else if id = 0x3C then
    let _ ← Reader.varint
    return .combatDeath (← Component.read)
  else if id = 0x40 then
    let pose ← pose
    let relative ← Reader.u8
    return .syncPosition pose ⟨relative⟩ (← Reader.varint)
  else if id = 0x5D then
    let health ← Reader.f32
    let food ← Reader.varint
    return .setHealth health food (← Reader.f32)
  else if id = 0x6C then
    let line ← Component.read
    -- a line for the action bar is not chat
    return if ← Reader.bool then .other id else .chat line
  else return .other id

end Pickaxe.Packet.Play
