import Mathlib.Data.List.Forall2
import Pickaxe.Proofs.Wire.Reader
import Pickaxe.Proofs.World.Block

/-! Packets, written and read.

Nothing stands between the fields of a packet, so whoever reads it asks for each of them in turn, and a
read that took a byte too many or too few would shift all that come after. `readPacket_packet` says that
none does: who asks for what was written gets it, and what comes behind the packet is left. -/
namespace Pickaxe.Wire

open Reader
open World (Block)

/-! ### Asking for fields -/

/-- What the reader of a packet asks for next. -/
inductive Want where
  | u8
  | bool
  | u16
  | i32
  | i64
  | uuid
  | varint
  | text (maxChars : Nat)
  | bytes (n : Nat)
  | position

def Want.read : Want → Reader Field
  | .u8 => do return .u8 (← Reader.u8)
  | .bool => do return .bool (← Reader.bool)
  | .u16 => do return .u16 (← Reader.u16)
  | .i32 => do return .i32 (← Reader.i32)
  | .i64 => do return .i64 (← Reader.i64)
  | .uuid => do return .uuid (← Reader.uuid)
  | .varint => do return .varint (← Reader.varint)
  | .text maxChars => do return .text (← Reader.text maxChars)
  | .bytes n => do return .bytes (← Reader.bytes n)
  | .position => do return .position (← Reader.position)

def readFields : List Want → Reader (List Field)
  | [] => return []
  | want :: wants => do
    let field ← want.read
    return field :: (← readFields wants)

/-- The number of a packet and its fields. -/
def readPacket (wants : List Want) : Reader (Int32 × List Field) := do
  let id ← Reader.varint
  return (id, ← readFields wants)

/-! ### Fields, one by one -/

namespace Reader

theorem length_flatMap_utf8EncodeChar (cs : List Char) :
    cs.length ≤ (cs.flatMap String.utf8EncodeChar).length ∧
      (cs.flatMap String.utf8EncodeChar).length ≤ cs.length * 4 := by
  induction cs with
  | nil => exact ⟨Nat.le_refl 0, Nat.le_refl 0⟩
  | cons c cs ih =>
    have hchar : (String.utf8EncodeChar c).length = c.utf8Size := String.length_utf8EncodeChar c
    have hlow : 0 < c.utf8Size := c.utf8Size_pos
    have hhigh : c.utf8Size ≤ 4 := c.utf8Size_le_four
    rw [List.flatMap_cons, List.length_append, List.length_cons]
    omega

/-- A character takes from one byte to four. -/
theorem utf8ByteSize_bounds (s : String) : s.length ≤ s.utf8ByteSize ∧ s.utf8ByteSize ≤ s.length * 4 := by
  have hbytes : s.utf8ByteSize = (Text.Utf8.encode s).length := rfl
  rw [hbytes, Text.Utf8.encode_eq, ← String.length_toList]
  exact length_flatMap_utf8EncodeChar s.toList

theorem utf8ByteSize_le (s : String) : s.utf8ByteSize ≤ s.length * 4 := (utf8ByteSize_bounds s).2

theorem reads_u8 (v : UInt8) : Reader.u8.Reads (Field.u8 v).encode v := takes_u8.reads rfl

theorem reads_bool (v : Bool) : Reader.bool.Reads (Field.bool v).encode v :=
  takes_bool.reads ⟨_, rfl, by cases v <;> rfl⟩

theorem reads_u16 (v : UInt16) : Reader.u16.Reads (Field.u16 v).encode v := takes_u16.reads rfl

theorem reads_i32 (v : Int32) : Reader.i32.Reads (Field.i32 v).encode v := takes_i32.reads rfl

theorem reads_i64 (v : Int64) : Reader.i64.Reads (Field.i64 v).encode v := takes_i64.reads rfl

theorem reads_uuid (v : BitVec 128) : Reader.uuid.Reads (Field.uuid v).encode v := takes_uuid.reads rfl

theorem reads_varint (v : Int32) : Reader.varint.Reads (Field.varint v).encode v :=
  takes_varint.reads (decode_encode_self v)

/-- A text may be as long as it is or longer, and its bytes are counted in 31 bits. -/
theorem reads_text {s : String} {maxChars : Nat} (hchars : s.length ≤ maxChars)
    (hbytes : s.utf8ByteSize < 2 ^ 31) : (Reader.text maxChars).Reads (Field.text s).encode s := by
  have hcount : (Int32.ofNat s.utf8ByteSize).toInt = s.utf8ByteSize := Int32.toInt_ofNat_of_lt hbytes
  have hroom : s.utf8ByteSize ≤ maxChars * 4 :=
    Nat.le_trans (utf8ByteSize_le s) (Nat.mul_le_mul_right 4 hchars)
  exact (takes_text maxChars).reads ⟨_, _, decode_encode_self _, hcount, hroom, rfl⟩

theorem reads_bytes (bs : List UInt8) : (Reader.bytes bs.length).Reads (Field.bytes bs).encode bs :=
  (takes_bytes bs.length).reads ⟨rfl, rfl⟩

theorem reads_position (b : Block) :
    Reader.position.Reads (Field.position b).encode b.reduced :=
  takes_position.reads ⟨b.pack, rfl, (World.Block.unpack_pack b).symm⟩

end Reader

namespace Field

/-- What is asked for is what was written. A text may be as long as it is or longer, and its bytes are
counted in 31 bits. -/
inductive Fits : Field → Want → Prop where
  | u8 (v : UInt8) : Fits (.u8 v) .u8
  | bool (v : Bool) : Fits (.bool v) .bool
  | u16 (v : UInt16) : Fits (.u16 v) .u16
  | i32 (v : Int32) : Fits (.i32 v) .i32
  | i64 (v : Int64) : Fits (.i64 v) .i64
  | uuid (v : BitVec 128) : Fits (.uuid v) .uuid
  | varint (v : Int32) : Fits (.varint v) .varint
  | text {s : String} {maxChars : Nat} (hchars : s.length ≤ maxChars)
      (hbytes : s.utf8ByteSize < 2 ^ 31) : Fits (.text s) (.text maxChars)
  | bytes (bs : List UInt8) : Fits (.bytes bs) (.bytes bs.length)
  | position (b : Block) : Fits (.position b) .position

/-- What is left of a field on the way: the axes of a position have fewer bits there. -/
def held : Field → Field
  | .position b => .position b.reduced
  | field => field

/-! ### Getting them -/

/-- **A field that was written is read**, whatever comes after it. -/
theorem Fits.reads {field : Field} {want : Want} (h : field.Fits want) :
    want.read.Reads field.encode field.held := by
  cases h with
  | u8 v => exact (reads_u8 v).map Field.u8
  | bool v => exact (reads_bool v).map Field.bool
  | u16 v => exact (reads_u16 v).map Field.u16
  | i32 v => exact (reads_i32 v).map Field.i32
  | i64 v => exact (reads_i64 v).map Field.i64
  | uuid v => exact (reads_uuid v).map Field.uuid
  | varint v => exact (reads_varint v).map Field.varint
  | text hchars hbytes => exact (reads_text hchars hbytes).map Field.text
  | bytes bs => exact (reads_bytes bs).map Field.bytes
  | position b => exact (reads_position b).map Field.position

end Field

variable {fields : List Field} {wants : List Want}

theorem readFields_encode (h : List.Forall₂ Field.Fits fields wants) (rest : List UInt8) :
    readFields wants (fields.flatMap Field.encode ++ rest) = (.ok (fields.map Field.held), rest) := by
  induction h with
  | nil => rfl
  | cons hfits _ ih =>
    rw [List.flatMap_cons, List.append_assoc]
    exact bind_eq_ok.mpr ⟨_, _, hfits.reads _, bind_eq_ok.mpr ⟨_, _, ih, rfl⟩⟩

/-- **A packet that was written is read**: who asks for its number and then for what was written gets
the number and the fields, in their order, with the axes of positions reduced, and what comes behind the
packet is left. -/
theorem readPacket_packet (id : Int32) (h : List.Forall₂ Field.Fits fields wants) (rest : List UInt8) :
    readPacket wants (packet id fields ++ rest) = (.ok (id, fields.map Field.held), rest) := by
  have hid := takes_varint.read (decode_encode_self id) (fields.flatMap Field.encode ++ rest)
  rw [packet, List.append_assoc]
  exact bind_eq_ok.mpr ⟨_, _, hid, bind_eq_ok.mpr ⟨_, _, readFields_encode h rest, rfl⟩⟩

/-- A packet with a position out of range, raw bytes, and a byte behind it. -/
theorem readPacket_packet_mixed :
    let fields := [Field.varint 300, .text "miner", .bool true, .position ⟨-1, 2048, 33554432⟩,
      .bytes [1, 2]]
    readPacket [.varint, .text 16, .bool, .position, .bytes 2] (packet 42 fields ++ [9]) =
      (.ok (42, [.varint 300, .text "miner", .bool true, .position ⟨-1, -2048, -33554432⟩,
        .bytes [1, 2]]), [9]) := by
  intro fields
  refine readPacket_packet 42 (.cons (.varint _) (.cons (.text ?_ ?_) (.cons (.bool _)
    (.cons (.position _) (.cons (.bytes [1, 2]) .nil))))) [9]
  · decide
  · decide

end Pickaxe.Wire
