import Pickaxe.Packet.Handshake
import Pickaxe.Wire.Reader

/-! Packets of the status exchange. -/
namespace Pickaxe.Packet.Status

open Wire

def request : List UInt8 := packet 0x00 []

def ping (payload : Int64) : List UInt8 := packet 0x01 [.i64 payload]

inductive Received where
  /-- The status document. -/
  | response (json : String)
  | pong (payload : Int64)
  | other (id : Int32)
deriving DecidableEq

def read : Reader Received := do
  let id ← Reader.varint
  if id = 0x00 then return .response (← Reader.text maxText)
  else if id = 0x01 then return .pong (← Reader.i64)
  else return .other id

end Pickaxe.Packet.Status
