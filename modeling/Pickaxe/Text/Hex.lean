/-! Numbers in base sixteen, with lowercase digits. -/
namespace Pickaxe.Text

/-- The digits of a number, without leading zeros. -/
def hexDigits (n : Nat) : List Char := Nat.toDigits 16 n

/-- The digits of a number, with zeros before them up to a width. -/
def hexPadded (width n : Nat) : List Char :=
  List.replicate (width - (hexDigits n).length) '0' ++ hexDigits n

end Pickaxe.Text
