import Pickaxe.Component
import Pickaxe.Packet.Handshake

/-! Packets between login and play. -/
namespace Pickaxe.Packet.Configuration

open Wire

def acknowledgeFinish : List UInt8 := packet 0x03 []

def keepAlive (id : Int64) : List UInt8 := packet 0x04 [.i64 id]

def pong (id : Int32) : List UInt8 := packet 0x05 [.i32 id]

/-- None of the server's data packs is known here. -/
def knownPacksNone : List UInt8 := packet 0x07 [.varint 0]

/-- There is no cookie of that name. -/
def cookieResponse (key : String) : List UInt8 := packet 0x01 [.text key, .bool false]

inductive Received where
  | cookieRequest (key : String)
  | disconnect (reason : String)
  | finish
  | keepAlive (id : Int64)
  | ping (id : Int32)
  | knownPacks
  | other (id : Int32)
deriving DecidableEq

def read : Reader Received := do
  let id ← Reader.varint
  if id = 0x00 then return .cookieRequest (← Reader.text maxText)
  else if id = 0x02 then return .disconnect (← Component.read)
  else if id = 0x03 then return .finish
  else if id = 0x04 then return .keepAlive (← Reader.i64)
  else if id = 0x05 then return .ping (← Reader.i32)
  else if id = 0x0E then return .knownPacks
  else return .other id

end Pickaxe.Packet.Configuration
