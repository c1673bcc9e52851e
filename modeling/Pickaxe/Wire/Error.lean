/-! What can be wrong with a packet. -/
namespace Pickaxe.Wire

inductive PacketError where
  /-- A field reaches past the end. -/
  | truncated (needed remaining : Nat)
  | varintTooLong
  /-- A length that is negative or above what the field allows. -/
  | invalidLength (length : Int) (max : Nat)
  /-- A text field that is not UTF-8. -/
  | invalidText
  | invalidNbt (detail : String)
  | invalidJson (detail : String)
  /-- Well-formed, but against the rules. -/
  | invalidMessage (detail : String)
deriving DecidableEq, Repr

def PacketError.message : PacketError → String
  | .truncated needed remaining => s!"packet truncated: needed {needed} bytes, {remaining} left"
  | .varintTooLong => "varint too long"
  | .invalidLength length max => s!"invalid length {length} (max {max})"
  | .invalidText => "invalid utf-8 in string field"
  | .invalidNbt detail => s!"invalid nbt: {detail}"
  | .invalidJson detail => s!"json decode failed: {detail}"
  | .invalidMessage detail => s!"invalid message: {detail}"

end Pickaxe.Wire
