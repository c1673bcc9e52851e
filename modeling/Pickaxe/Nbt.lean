import Pickaxe.Json.Basic
import Pickaxe.Wire.Reader

/-! Network NBT, read as JSON values. A value is a type byte and a payload; the type 0 alone is
null. Integers stay exact, floating-point numbers that JSON cannot hold become null, texts
are decoded lossily, and of equal names in a compound the last counts. Values nest at most
64 deep below the root. -/
namespace Pickaxe.Nbt

open Wire Wire.Reader

/-- The most levels a tree may have. -/
def maxLevels : Nat := 65

inductive Kind where
  | byte | short | int | long | float | double | byteArray | text | list | compound | intArray
  | longArray
deriving DecidableEq, Repr

def Kind.ofByte? (b : UInt8) : Option Kind :=
  match b.toNat with
  | 1 => some .byte
  | 2 => some .short
  | 3 => some .int
  | 4 => some .long
  | 5 => some .float
  | 6 => some .double
  | 7 => some .byteArray
  | 8 => some .text
  | 9 => some .list
  | 10 => some .compound
  | 11 => some .intArray
  | 12 => some .longArray
  | _ => none

/-- A text with a two-byte length. -/
def text : Reader String := do
  let n ← u16
  return Text.Utf8.decodeLossy (← bytes n.toNat)

/-- The element count of an array, which may not exceed the bytes that are left. -/
def count : Reader Nat := do
  let n ← i32
  if 0 ≤ n.toInt ∧ n.toInt ≤ (← remaining) then return n.toInt.toNat
  else fail (.invalidNbt s!"bad element count {n.toInt}")

/-- The same read `n` times. -/
def times {α : Type} (r : Reader α) : Nat → Reader (List α)
  | 0 => return []
  | n + 1 => do
    let a ← r
    return a :: (← times r n)

/-- The members of a compound up to its end. Each takes a byte at least, so as many rounds as
there are bytes left are enough. -/
def members (value : UInt8 → Reader Json) : (rounds : Nat) → Reader (List (String × Json))
  | 0 => fail (.truncated 1 0)
  | rounds + 1 => do
    let kind ← u8
    if kind = 0 then return []
    else
      let name ← text
      let v ← value kind
      return (name, v) :: (← members value rounds)

/-- The payload of a value, with so many levels still allowed. -/
def payload : (levels : Nat) → UInt8 → Reader Json
  | 0, _ => fail (.invalidNbt "nesting too deep")
  | levels + 1, kind => match Kind.ofByte? kind with
    | none => fail (.invalidNbt s!"unknown tag type {kind.toNat}")
    | some .byte => do return .int (← i8).toInt
    | some .short => do return .int (← i16).toInt
    | some .int => do return .int (← i32).toInt
    | some .long => do return .int (← i64).toInt
    | some .float => do return .ofFloat (← f32).toFloat
    | some .double => do return .ofFloat (← f64)
    | some .byteArray => do
      let n ← count
      return .array ((← bytes n).map fun b => .int (Int8.ofNat b.toNat).toInt)
    | some .text => do return .text (← text)
    | some .list => do
      let item ← u8
      let n ← i32
      if n.toInt ≤ 0 ∨ item = 0 then return .array []
      else return .array (← times (payload levels item) n.toInt.toNat)
    | some .compound => do
      let left ← remaining
      return .ofMembers (← members (payload levels) (left + 1))
    | some .intArray => do
      let n ← count
      return .array ((← times i32 n).map fun i => .int i.toInt)
    | some .longArray => do
      let n ← count
      return .array ((← times i64 n).map fun i => .int i.toInt)

def read : Reader Json := do
  let kind ← u8
  if kind = 0 then return .null else payload maxLevels kind

end Pickaxe.Nbt
