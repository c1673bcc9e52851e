/-! Variable-length integers: seven bits a byte, lowest group first, the high bit set on every
byte but the last. A 32-bit number takes one to five bytes. -/
namespace Pickaxe.Wire.Varint

/-- The longest form of a 32-bit number. -/
def maxSize : Nat := 5

/-- The groups of a number. -/
def groups (n : Nat) : List UInt8 :=
  if n < 128 then [n.toUInt8] else (n % 128 + 128).toUInt8 :: groups (n / 128)

def encode (v : Int32) : List UInt8 := groups v.toUInt32.toNat

/-- How many groups a number has. -/
def width (n : Nat) : Nat := if n < 128 then 1 else width (n / 128) + 1

/-- How many bytes `encode` gives. -/
def size (v : Int32) : Nat := width v.toUInt32.toNat

/-- The number that groups spell. -/
def value : List UInt8 → Nat
  | [] => 0
  | b :: rest => b.toNat % 128 + 128 * value rest

inductive Decoded where
  /-- A number and the bytes it took. -/
  | complete (value : Int32) (used : Nat)
  /-- The bytes end inside the number. -/
  | incomplete
  /-- Five bytes, and the number goes on. -/
  | tooLong
deriving DecidableEq, Repr

/-- The bytes at the start that say the number goes on, as far as they may. -/
def continued (bytes : List UInt8) : List UInt8 := (bytes.take maxSize).takeWhile (128 ≤ ·)

/-- Bits beyond the 32nd are dropped. -/
def decode (bytes : List UInt8) : Decoded :=
  let head := continued bytes
  if head.length = maxSize then .tooLong
  else match bytes.drop head.length with
    | [] => .incomplete
    | last :: _ => .complete (Int32.ofNat (value (head ++ [last]))) (head.length + 1)

end Pickaxe.Wire.Varint
