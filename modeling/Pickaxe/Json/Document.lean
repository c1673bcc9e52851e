/-! A JSON text as it is written. Strings keep their escapes and raw bytes, numbers their
digits, and objects every member in its order: which of it is acceptable depends on what is
read out of it. -/
namespace Pickaxe.Json

/-- One unit of a written string: a byte as it stands or after a short escape, or a code unit
given by number. -/
inductive Glyph where
  | byte (b : UInt8)
  | unit (u : UInt16)
deriving DecidableEq

/-- A written number. Digits stand in the order they are read. -/
structure Numeral where
  negative : Bool
  whole : List Nat
  fraction : List Nat
  /-- The sign and the digits after the exponent mark. -/
  exponent : Option (Bool × List Nat)
deriving DecidableEq

inductive Document where
  | null
  | bool (b : Bool)
  | number (n : Numeral)
  | text (glyphs : List Glyph)
  | array (items : List Document)
  | object (members : List (List Glyph × Document))
deriving Inhabited

/-- The bytes of a written string; none if a surrogate stands alone. -/
def Glyph.bytes? : List Glyph → Option (List UInt8)
  | [] => some []
  | .byte b :: rest => (bytes? rest).map (b :: ·)
  | .unit u :: rest =>
    if u.toNat < 0xD800 ∨ 0xDFFF < u.toNat then
      (bytes? rest).map (String.utf8EncodeChar (Char.ofNat u.toNat) ++ ·)
    else match rest with
      | .unit v :: rest =>
        if u.toNat < 0xDC00 ∧ 0xDC00 ≤ v.toNat ∧ v.toNat ≤ 0xDFFF then
          let c := Char.ofNat (0x10000 + (u.toNat - 0xD800) * 0x400 + (v.toNat - 0xDC00))
          (bytes? rest).map (String.utf8EncodeChar c ++ ·)
        else none
      | _ => none

/-- The text of a written string. -/
def Glyph.text? (glyphs : List Glyph) : Option String :=
  (bytes? glyphs).bind fun bytes => String.fromUTF8? ⟨bytes.toArray⟩

end Pickaxe.Json
