import Pickaxe.Text.Utf8
import Pickaxe.Wire.Error
import Pickaxe.Wire.Varint
import Pickaxe.World.Block

/-! Reading a packet field by field. A read takes the bytes that are left and says what it
found and which bytes are left now, also when it fails: reading may go on from there. Numbers
are big-endian, texts are a varint byte length and UTF-8. -/
namespace Pickaxe.Wire

open World (Block)

def Reader (α : Type) : Type := List UInt8 → Except PacketError α × List UInt8

namespace Reader

def pure {α : Type} (a : α) : Reader α := fun bytes => (.ok a, bytes)

def bind {α β : Type} (r : Reader α) (f : α → Reader β) : Reader β := fun bytes =>
  match r bytes with
  | (.ok a, rest) => f a rest
  | (.error e, rest) => (.error e, rest)

instance : Monad Reader where
  pure := Reader.pure
  bind := Reader.bind

def fail {α : Type} (e : PacketError) : Reader α := fun bytes => (.error e, bytes)

/-- How many bytes are left. -/
def remaining : Reader Nat := fun bytes => (.ok bytes.length, bytes)

/-- The next `n` bytes, or none of them. -/
def bytes (n : Nat) : Reader (List UInt8) := fun bytes =>
  if n ≤ bytes.length then (.ok (bytes.take n), bytes.drop n)
  else (.error (.truncated n bytes.length), bytes)

/-- All bytes that are left. -/
def rest : Reader (List UInt8) := fun bytes => (.ok bytes, [])

/-- The number that bytes spell, highest first. -/
def bigEndian (bytes : List UInt8) : Nat := bytes.foldl (fun n b => n * 256 + b.toNat) 0

/-- A number of `width` bytes. -/
def unsigned (width : Nat) : Reader Nat := do return bigEndian (← bytes width)

def u8 : Reader UInt8 := do return UInt8.ofNat (← unsigned 1)
def i8 : Reader Int8 := do return Int8.ofNat (← unsigned 1)
def bool : Reader Bool := do return (← u8) != 0
def u16 : Reader UInt16 := do return UInt16.ofNat (← unsigned 2)
def i16 : Reader Int16 := do return Int16.ofNat (← unsigned 2)
def i32 : Reader Int32 := do return Int32.ofNat (← unsigned 4)
def i64 : Reader Int64 := do return Int64.ofNat (← unsigned 8)
def f32 : Reader Float32 := do return Float32.ofBits (UInt32.ofNat (← unsigned 4))
def f64 : Reader Float := do return Float.ofBits (UInt64.ofNat (← unsigned 8))
def uuid : Reader (BitVec 128) := do return BitVec.ofNat 128 (← unsigned 16)

def varint : Reader Int32 := fun bytes =>
  match Varint.decode bytes with
  | .complete v used => (.ok v, bytes.drop used)
  | .incomplete => (.error (.truncated (bytes.length + 1) bytes.length), bytes)
  | .tooLong => (.error .varintTooLong, bytes)

/-- A varint that is a length of at most `max`. -/
def length (max : Nat) : Reader Nat := do
  let n ← varint
  if 0 ≤ n.toInt ∧ n.toInt ≤ max then return n.toInt.toNat
  else fail (.invalidLength n.toInt max)

/-- A text of at most four bytes for each of `maxChars` characters, as far as 64 bits can count them. -/
def text (maxChars : Nat) : Reader String := do
  let n ← length (min (maxChars * 4) (UInt64.size - 1))
  match Text.Utf8.decode? (← bytes n) with
  | some s => return s
  | none => fail .invalidText

def position : Reader Block := do return Block.unpack (← i64)

/-- The result, whatever is left after it. -/
def run {α : Type} (r : Reader α) (bytes : List UInt8) : Except PacketError α := (r bytes).1

end Reader

end Pickaxe.Wire
