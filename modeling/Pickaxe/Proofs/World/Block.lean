import Mathlib.Algebra.Group.Int.Defs
import Mathlib.Algebra.Group.Nat.Defs
import Pickaxe.World.Block

/-! The number that stands for a block.

A block is read back from its number with each axis reduced to the signed range of its field
(`unpack_pack`). -/
namespace Pickaxe.World.Block

/-- Each axis in the signed range of 26, 12 and 26 bits, its low bits kept. -/
def reduced (b : Block) : Block where
  x := Int32.ofInt (b.x.toInt.bmod (2 ^ 26))
  y := Int32.ofInt (b.y.toInt.bmod (2 ^ 12))
  z := Int32.ofInt (b.z.toInt.bmod (2 ^ 26))

/-- The three fields of a number, from what stands in each of them. -/
theorem fields_of_parts (x : Int) {y z : Int} (hy : 0 ≤ y ∧ y < 2 ^ 12) (hz : 0 ≤ z ∧ z < 2 ^ 26) :
    let n := (x * (2 ^ 26 * 2 ^ 12) + z * 2 ^ 12 + y).bmod (2 ^ 64)
    n / (2 ^ 26 * 2 ^ 12) = x.bmod (2 ^ 26) ∧ n.bmod (2 ^ 12) = y.bmod (2 ^ 12) ∧
      (n / 2 ^ 12).bmod (2 ^ 26) = z.bmod (2 ^ 26) := by
  simp only [Int.bmod]
  omega

/-- **A block is read back from its number** with its axes reduced. -/
theorem unpack_pack (b : Block) : unpack (pack b) = b.reduced := by
  have hrange (n : Int) (m : Nat) (hm : (0 : Int) < m) : 0 ≤ n % m ∧ n % m < m :=
    ⟨Int.emod_nonneg n (Int.ne_of_gt hm), Int.emod_lt_of_pos n hm⟩
  obtain ⟨hx, hy, hz⟩ := fields_of_parts (b.x.toInt % wide) (hrange b.y.toInt narrow (by decide))
    (hrange b.z.toInt wide (by decide))
  have hpack : (pack b).toInt = Int.bmod (b.x.toInt % wide * (wide * narrow) +
      b.z.toInt % wide * narrow + b.y.toInt % narrow) (2 ^ 64) := Int64.toInt_ofInt
  rw [unpack, hpack, reduced]
  congr 2
  · exact hx.trans (Int.emod_bmod ..)
  · exact hy.trans (Int.emod_bmod ..)
  · exact hz.trans (Int.emod_bmod ..)

end Pickaxe.World.Block
