import Pickaxe.Component
import Pickaxe.Json.Value
import Pickaxe.Packet.Handshake
import Pickaxe.Wire.Reader

/-! Packets of the login exchange. -/
namespace Pickaxe.Packet.Login

open Wire

/-- The longest name of a player, in characters. -/
def maxUsername : Nat := 16

def start (username : String) (uuid : BitVec 128) : List UInt8 :=
  packet 0x00 [.text username, .uuid uuid]

def acknowledged : List UInt8 := packet 0x03 []

/-- Turns a plugin's request down. -/
def pluginResponse (id : Int32) : List UInt8 := packet 0x02 [.varint id, .bool false]

/-- There is no cookie of that name. -/
def cookieResponse (key : String) : List UInt8 := packet 0x04 [.text key, .bool false]

inductive Received where
  /-- The reason as plain text. -/
  | disconnect (reason : String)
  | encryptionRequest
  | success (uuid : BitVec 128) (username : String)
  | setCompression (threshold : Int32)
  | pluginRequest (id : Int32) (channel : String)
  | cookieRequest (key : String)
  | other (id : Int32)
deriving DecidableEq

/-- The visible text of a component, or the text itself if it is none. -/
def plainReason (raw : String) : String :=
  match Json.parse? (Text.Utf8.encode raw) with
  | some component => Component.flatten component
  | none => raw

def read : Reader Received := do
  let id ← Reader.varint
  if id = 0x00 then return .disconnect (plainReason (← Reader.text maxText))
  else if id = 0x01 then return .encryptionRequest
  else if id = 0x02 then
    let uuid ← Reader.uuid
    return .success uuid (← Reader.text maxUsername)
  else if id = 0x03 then return .setCompression (← Reader.varint)
  else if id = 0x04 then
    let id ← Reader.varint
    return .pluginRequest id (← Reader.text maxText)
  else if id = 0x05 then return .cookieRequest (← Reader.text maxText)
  else return .other id

end Pickaxe.Packet.Login
