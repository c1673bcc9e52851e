/-! UTF-8 as a list of bytes. `decode?` takes well-formed text only; `decodeLossy` takes any
bytes and puts one replacement character for each maximal ill-formed part. -/
namespace Pickaxe.Text.Utf8

def encode (s : String) : List UInt8 := s.toUTF8.data.toList

def decode? (bytes : List UInt8) : Option String := String.fromUTF8? ⟨bytes.toArray⟩

/-- What may come next inside a character: the range its next byte must lie in, and how many
bytes follow that one. -/
structure Expect where
  low : Nat
  high : Nat
  more : Nat

/-- The bytes that may follow a first byte, and the bits it contributes. -/
def lead (b : Nat) : Option (Nat × Expect) :=
  if 0xC2 ≤ b ∧ b ≤ 0xDF then some (b - 0xC0, ⟨0x80, 0xBF, 0⟩)
  else if b = 0xE0 then some (0, ⟨0xA0, 0xBF, 1⟩)
  else if b = 0xED then some (0xD, ⟨0x80, 0x9F, 1⟩)
  else if 0xE1 ≤ b ∧ b ≤ 0xEF then some (b - 0xE0, ⟨0x80, 0xBF, 1⟩)
  else if b = 0xF0 then some (0, ⟨0x90, 0xBF, 2⟩)
  else if 0xF1 ≤ b ∧ b ≤ 0xF3 then some (b - 0xF0, ⟨0x80, 0xBF, 2⟩)
  else if b = 0xF4 then some (4, ⟨0x80, 0x8F, 2⟩)
  else none

/-- U+FFFD. -/
def replacement : Char := Char.ofNat 0xFFFD

/-- A byte where a character may start: what it shows at once, and the character it opens. -/
def start (b : UInt8) : List Char × Option (Nat × Expect) :=
  if b.toNat < 0x80 then ([Char.ofNat b.toNat], none)
  else match lead b.toNat with
    | some opened => ([], some opened)
    | none => ([replacement], none)

/-- Reads on inside a character opened earlier, if any. A byte that cannot follow ends the
opened part, which shows as one replacement, and is read again as a start. -/
def lossy : Option (Nat × Expect) → List UInt8 → List Char
  | none, [] => []
  | some _, [] => [replacement]
  | none, b :: rest => (start b).1 ++ lossy (start b).2 rest
  | some (bits, e), b :: rest =>
    if e.low ≤ b.toNat ∧ b.toNat ≤ e.high then
      let bits := bits * 64 + (b.toNat - 0x80)
      match e.more with
      | 0 => Char.ofNat bits :: lossy none rest
      | more + 1 => lossy (some (bits, ⟨0x80, 0xBF, more⟩)) rest
    else replacement :: ((start b).1 ++ lossy (start b).2 rest)

def decodeLossy (bytes : List UInt8) : String := String.ofList (lossy none bytes)

end Pickaxe.Text.Utf8
