import Pickaxe.Wire.Field

/-! The first packet of a connection. It alone carries the protocol version, so any version can
be tried. -/
namespace Pickaxe.Packet

open Wire

/-- A version of the game's protocol. -/
abbrev Version := Int32

/-- The version whose packets are read and written here. -/
def nativeVersion : Version := 767

/-- What a connection is for. -/
inductive Intent where
  | status | login
deriving DecidableEq, Repr

def Intent.number : Intent → Int32
  | .status => 1
  | .login => 2

def handshake (version : Version) (host : String) (port : UInt16) (intent : Intent) :
    List UInt8 :=
  packet 0x00 [.varint version, .text host, .u16 port, .varint intent.number]

/-- The longest text a packet may carry, in characters. -/
def maxText : Nat := 32767

end Pickaxe.Packet
