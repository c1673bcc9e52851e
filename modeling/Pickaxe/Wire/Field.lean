import Pickaxe.Text.Utf8
import Pickaxe.Wire.Varint
import Pickaxe.World.Block

/-! Writing a packet: a packet is its number and a list of fields. -/
namespace Pickaxe.Wire

open World (Block)

inductive Field where
  | u8 (v : UInt8)
  | bool (v : Bool)
  | u16 (v : UInt16)
  | i32 (v : Int32)
  | i64 (v : Int64)
  | uuid (v : BitVec 128)
  | varint (v : Int32)
  | text (s : String)
  | bytes (bs : List UInt8)
  | position (b : Block)
deriving DecidableEq

/-- The low `width` bytes of a number, highest first. -/
def bigEndianBytes : (width : Nat) → Nat → List UInt8
  | 0, _ => []
  | width + 1, n => (n / 256 ^ width).toUInt8 :: bigEndianBytes width n

def Field.encode : Field → List UInt8
  | .u8 v => [v]
  | .bool v => [if v then 1 else 0]
  | .u16 v => bigEndianBytes 2 v.toNat
  | .i32 v => bigEndianBytes 4 v.toUInt32.toNat
  | .i64 v => bigEndianBytes 8 v.toUInt64.toNat
  | .uuid v => bigEndianBytes 16 v.toNat
  | .varint v => Varint.encode v
  | .text s => Varint.encode (Int32.ofNat s.utf8ByteSize) ++ Text.Utf8.encode s
  | .bytes bs => bs
  | .position b => bigEndianBytes 8 b.pack.toUInt64.toNat

def packet (id : Int32) (fields : List Field) : List UInt8 :=
  Varint.encode id ++ fields.flatMap Field.encode

end Pickaxe.Wire
