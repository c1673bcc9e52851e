import Pickaxe.Proofs.World.Block

/-! The fields of the number that stands for a block.

An axis has a field of its own, `Axis.width` bits from `Axis.shift` on, and the three fields are all of the
number (`Axis.exists_covers`). Packing puts the low bits of each axis into its field (`field_pack`), and
unpacking extends each field with its sign (`toInt_on_unpack`). `packed_by_axis` says what follows for the
way there and back, either end first, and for a block that is moved on one axis. -/
namespace Pickaxe.World.Block

/-! ### Axes and fields -/

inductive Axis where
  | x | y | z
deriving DecidableEq, Repr

namespace Axis

/-- The bits of an axis in the number. -/
def width : Axis → Nat
  | x => 26
  | y => 12
  | z => 26

/-- The lowest of them. -/
def shift : Axis → Nat
  | x => 38
  | y => 0
  | z => 12

/-- The bit belongs to the field of the axis. -/
def Covers (axis : Axis) (i : Nat) : Prop := axis.shift ≤ i ∧ i < axis.shift + axis.width

instance (axis : Axis) (i : Nat) : Decidable (axis.Covers i) := inferInstanceAs (Decidable (_ ∧ _))

/-- The signed range of the field. -/
def Holds (axis : Axis) (n : Int) : Prop := -2 ^ (axis.width - 1) ≤ n ∧ n < 2 ^ (axis.width - 1)

theorem exists_covers {i : Nat} (h : i < 64) : ∃ axis : Axis, axis.Covers i := by
  rcases Nat.lt_or_ge i 12 with hy | hy
  · exact ⟨y, Nat.zero_le i, by simpa [shift, width] using hy⟩
  · rcases Nat.lt_or_ge i 38 with hz | hz
    · exact ⟨z, hy, hz⟩
    · exact ⟨x, hz, h⟩

theorem holds_bmod (axis : Axis) (n : Int) : axis.Holds (n.bmod (2 ^ axis.width)) := by
  cases axis <;> simp only [Holds, width, Int.bmod] <;> omega

theorem bmod_eq_self_iff {axis : Axis} {n : Int} : n.bmod (2 ^ axis.width) = n ↔ axis.Holds n := by
  refine ⟨fun h => h ▸ axis.holds_bmod n, fun h => ?_⟩
  cases axis <;> exact Int.bmod_eq_of_le h.1 h.2

end Axis

/-- Where the block is on an axis. -/
def on (b : Block) : Axis → Int32
  | .x => b.x
  | .y => b.y
  | .z => b.z

/-- The block moved to a place on one axis. -/
def moved (b : Block) (v : Int32) : Axis → Block
  | .x => { b with x := v }
  | .y => { b with y := v }
  | .z => { b with z := v }

/-- What a number has in the field of an axis. -/
def field (w : Int64) (axis : Axis) : BitVec axis.width := w.toBitVec.extractLsb' axis.shift axis.width

variable {b c : Block} {axis other : Axis} {v : Int32} {i : Nat} {w w' : Int64}

theorem eq_of_on_eq (h : ∀ axis, b.on axis = c.on axis) : b = c := by
  cases b
  cases c
  rw [mk.injEq]
  exact ⟨h .x, h .y, h .z⟩

theorem on_moved_self : (b.moved v axis).on axis = v := by cases axis <;> rfl

theorem on_moved_of_ne (h : other ≠ axis) : (b.moved v axis).on other = b.on other := by
  cases axis <;> cases other <;> first | rfl | exact absurd rfl h

theorem getLsbD_eq_field (h : axis.Covers i) :
    w.toBitVec.getLsbD i = (field w axis).getLsbD (i - axis.shift) := by
  have hin : i - axis.shift < axis.width := Nat.sub_lt_left_of_lt_add h.1 h.2
  rw [field, BitVec.getLsbD_extractLsb', Nat.add_sub_cancel' h.1, decide_eq_true hin, Bool.true_and]

theorem eq_of_field_eq (h : ∀ axis, field w axis = field w' axis) : w = w' := by
  apply Int64.toBitVec_inj.mp
  apply BitVec.eq_of_getLsbD_eq
  intro i hi
  obtain ⟨axis, hcovers⟩ := Axis.exists_covers hi
  rw [getLsbD_eq_field hcovers, getLsbD_eq_field hcovers, h axis]

/-! ### Packing -/

/-- To the low bits it is all the same whether the number is signed. -/
theorem toInt_emod {n m : Nat} (v : BitVec n) (h : m ∣ 2 ^ n) : v.toInt % m = (v.toNat % m : Nat) := by
  rw [BitVec.toInt_eq_toNat_bmod, ← Int.bmod_emod, Int.bmod_bmod_of_dvd h, Int.bmod_emod, Int.natCast_emod]

theorem toNat_pack (b : Block) : b.pack.toBitVec.toNat = b.x.toBitVec.toNat % 2 ^ 26 * 2 ^ 38 +
    b.z.toBitVec.toNat % 2 ^ 26 * 2 ^ 12 + b.y.toBitVec.toNat % 2 ^ 12 := by
  have hlow (v : Int32) {m : Nat} (h : m ∣ 2 ^ 32) : v.toInt % m = (v.toBitVec.toNat % m : Nat) :=
    toInt_emod v.toBitVec h
  rw [pack, Int64.toBitVec_ofInt, BitVec.toNat_ofInt, wide, narrow, hlow _ (by decide),
    hlow _ (by decide), hlow _ (by decide)]
  omega

/-- **An axis is packed into its field** with its low bits, and into no other. -/
theorem field_pack (b : Block) (axis : Axis) :
    field b.pack axis = (b.on axis).toBitVec.setWidth axis.width := by
  apply BitVec.eq_of_toNat_eq
  rw [field, BitVec.extractLsb'_toNat, toNat_pack, BitVec.toNat_setWidth, Nat.shiftRight_eq_div_pow]
  cases axis <;> simp only [Axis.width, Axis.shift, on] <;> omega

theorem getLsbD_pack (h : axis.Covers i) :
    b.pack.toBitVec.getLsbD i = (b.on axis).toBitVec.getLsbD (i - axis.shift) := by
  have hin : i - axis.shift < axis.width := Nat.sub_lt_left_of_lt_add h.1 h.2
  rw [getLsbD_eq_field h, field_pack, BitVec.getLsbD_setWidth, decide_eq_true hin, Bool.true_and]

/-- A block that is moved on one axis has another number in the field of this axis only. -/
theorem getLsbD_pack_moved (b : Block) (v : Int32) (axis : Axis) (i : Nat) :
    (b.moved v axis).pack.toBitVec.getLsbD i =
      if axis.Covers i then v.toBitVec.getLsbD (i - axis.shift) else b.pack.toBitVec.getLsbD i := by
  split
  · rename_i hcovers
    rw [getLsbD_pack hcovers, on_moved_self]
  · rename_i hnot
    rcases Nat.lt_or_ge i 64 with hi | hi
    · obtain ⟨other, hother⟩ := Axis.exists_covers hi
      have hne : other ≠ axis := fun h => hnot (h ▸ hother)
      rw [getLsbD_pack hother, getLsbD_pack hother, on_moved_of_ne hne]
    · rw [BitVec.getLsbD_of_ge _ i hi, BitVec.getLsbD_of_ge _ i hi]

/-! ### Unpacking -/

theorem toInt_field (w : Int64) (axis : Axis) :
    (field w axis).toInt = (w.toInt / 2 ^ axis.shift).bmod (2 ^ axis.width) := by
  have hsigned : w.toInt % 2 ^ 64 = w.toBitVec.toNat := by
    have hall := toInt_emod w.toBitVec (Nat.dvd_refl _)
    rwa [Nat.mod_eq_of_lt w.toBitVec.isLt] at hall
  rw [field, BitVec.toInt_extractLsb', Nat.shiftRight_eq_div_pow, Int.natCast_ediv, ← hsigned]
  cases axis <;> simp only [Axis.width, Axis.shift, Int.bmod] <;> omega

/-- What any field holds, 32 bits hold. -/
theorem toInt_ofInt_of_holds {n : Int} (h : axis.Holds n) : (Int32.ofInt n).toInt = n := by
  rw [Int32.toInt_ofInt]
  cases axis <;> simp only [Axis.Holds, Axis.width] at h <;>
    exact Int.bmod_eq_of_le (by simp only [Int32.size]; omega) (by simp only [Int32.size]; omega)

/-- **An axis is unpacked from its field** with the sign of the field. -/
theorem toInt_on_unpack (w : Int64) (axis : Axis) : ((unpack w).on axis).toInt = (field w axis).toInt := by
  have hholds := axis.holds_bmod (w.toInt / 2 ^ axis.shift)
  rw [toInt_field]
  cases axis with
  | x =>
    have hlow := w.le_toInt
    have hhigh := w.toInt_lt
    -- nothing is above the field of x, so its bits are in range as they stand
    have htop : (w.toInt / 2 ^ 38).bmod (2 ^ 26) = w.toInt / 2 ^ 38 := Int.bmod_eq_of_le (by omega) (by omega)
    have hin : Axis.x.Holds (w.toInt / 2 ^ 38) := Axis.bmod_eq_self_iff.mp htop
    exact (toInt_ofInt_of_holds hin).trans htop.symm
  | y =>
    have hall : w.toInt / 2 ^ Axis.y.shift = w.toInt := Int.ediv_one _
    rw [hall] at hholds ⊢
    exact toInt_ofInt_of_holds hholds
  | z => exact toInt_ofInt_of_holds hholds

/-! ### Masks and shifts -/

/-- An axis under a mask of its width, moved up to its field. -/
theorem getLsbD_masked (v : Int32) (axis : Axis) (i : Nat) :
    ((v.toBitVec.signExtend 64 &&& BitVec.ofNat 64 (2 ^ axis.width - 1)) <<< axis.shift).getLsbD i =
      (decide (axis.Covers i) && v.toBitVec.getLsbD (i - axis.shift)) := by
  have hnarrow : axis.width ≤ 32 := by cases axis <;> decide
  have hfit : axis.shift + axis.width ≤ 64 := by cases axis <;> decide
  rw [BitVec.getLsbD_shiftLeft, BitVec.getLsbD_and, BitVec.getLsbD_signExtend, BitVec.getLsbD_ofNat,
    Nat.testBit_two_pow_sub_one]
  grind [Axis.Covers]

theorem pack_eq_masked (b : Block) : b.pack = (b.x.toInt64 &&& 0x3FFFFFF) <<< 38 |||
    (b.z.toInt64 &&& 0x3FFFFFF) <<< 12 ||| b.y.toInt64 &&& 0xFFF := by
  apply Int64.toBitVec_inj.mp
  apply BitVec.eq_of_getLsbD_eq
  intro i hi
  have hx : ((b.x.toInt64 &&& 0x3FFFFFF) <<< 38).toBitVec.getLsbD i = _ := getLsbD_masked b.x .x i
  have hy : ((b.y.toInt64 &&& 0xFFF).toBitVec <<< 0).getLsbD i = _ := getLsbD_masked b.y .y i
  have hz : ((b.z.toInt64 &&& 0x3FFFFFF) <<< 12).toBitVec.getLsbD i = _ := getLsbD_masked b.z .z i
  rw [BitVec.shiftLeft_zero] at hy
  obtain ⟨axis, hcovers⟩ := Axis.exists_covers hi
  rw [getLsbD_pack hcovers, Int64.toBitVec_or, Int64.toBitVec_or, BitVec.getLsbD_or, BitVec.getLsbD_or,
    hx, hy, hz]
  -- a bit of one field is in neither of the others
  cases axis <;> grind [Axis.Covers, Axis.shift, Axis.width, on]

/-- A field moved up to the top of the number, and from there down with its sign. -/
theorem sshiftRight_shiftLeft (w : Int64) (axis : Axis) :
    (w.toBitVec <<< (64 - axis.shift - axis.width)).sshiftRight (64 - axis.width) =
      (field w axis).signExtend 64 := by
  apply BitVec.eq_of_getLsbD_eq
  intro i hi
  have hpos : 0 < axis.width := by cases axis <;> decide
  have hfit : axis.shift + axis.width ≤ 64 := by cases axis <;> decide
  rw [BitVec.getLsbD_sshiftRight, BitVec.getLsbD_signExtend, field, BitVec.msb_eq_getLsbD_last,
    BitVec.msb_eq_getLsbD_last, BitVec.getLsbD_extractLsb', BitVec.getLsbD_extractLsb',
    BitVec.getLsbD_shiftLeft, BitVec.getLsbD_shiftLeft]
  grind

theorem toInt32_shifted (w : Int64) (axis : Axis) : Int64.toInt32
    (.ofBitVec ((w.toBitVec <<< (64 - axis.shift - axis.width)).sshiftRight (64 - axis.width))) =
      (unpack w).on axis := by
  have hwide : axis.width ≤ 64 := by cases axis <;> decide
  have hfield : (Int64.ofBitVec ((field w axis).signExtend 64)).toInt = (field w axis).toInt :=
    BitVec.toInt_signExtend_of_le hwide
  apply Int32.toInt_inj.mp
  rw [sshiftRight_shiftLeft, Int64.toInt_toInt32, hfield, toInt_on_unpack, toInt_field]
  exact Int32.toInt_ofInt.symm.trans (toInt_ofInt_of_holds (axis.holds_bmod _))

theorem unpack_eq_shifted (w : Int64) :
    unpack w = ⟨(w >>> 38).toInt32, ((w <<< 52) >>> 52).toInt32, ((w <<< 26) >>> 38).toInt32⟩ := by
  refine eq_of_on_eq fun axis => (toInt32_shifted w axis).symm.trans ?_
  cases axis with
  | x =>
    change Int64.toInt32 (.ofBitVec ((w.toBitVec <<< 0).sshiftRight 38)) = _
    rw [BitVec.shiftLeft_zero]
    rfl
  | y => rfl
  | z => rfl

/-! ### There and back -/

theorem toInt_setWidth_width (v : Int32) (axis : Axis) :
    (v.toBitVec.setWidth axis.width).toInt = v.toInt.bmod (2 ^ axis.width) := by
  have hdvd : 2 ^ axis.width ∣ 2 ^ 32 := by cases axis <;> decide
  rw [BitVec.toInt_setWidth, ← Int.emod_bmod, ← Int.natCast_emod, ← toInt_emod _ hdvd, Int.emod_bmod,
    Int32.toInt_toBitVec]

theorem toInt_on_unpack_pack (b : Block) (axis : Axis) :
    ((unpack (pack b)).on axis).toInt = (b.on axis).toInt.bmod (2 ^ axis.width) := by
  rw [toInt_on_unpack, field_pack, toInt_setWidth_width]

theorem pack_unpack (w : Int64) : pack (unpack w) = w := by
  refine eq_of_field_eq fun axis => ?_
  apply BitVec.eq_of_toInt_eq
  rw [field_pack, toInt_setWidth_width, toInt_on_unpack, toInt_field, Int.bmod_bmod]

/-- A block in range has the number of every block that it stands for. -/
theorem pack_reduced (b : Block) : b.reduced.pack = b.pack := by rw [← unpack_pack, pack_unpack]

theorem unpack_pack_eq_iff : unpack (pack b) = b ↔ ∀ axis : Axis, axis.Holds (b.on axis).toInt := by
  refine ⟨fun h axis => ?_, fun h => eq_of_on_eq fun axis => Int32.toInt_inj.mp ?_⟩
  · rw [← Axis.bmod_eq_self_iff, ← toInt_on_unpack_pack, h]
  · rw [toInt_on_unpack_pack, Axis.bmod_eq_self_iff]
    exact h axis

/-- **The number of a block has a field for each axis.**

* Each axis is masked and moved up to its field. To read it, the field is moved to the top of the number and
  down again.
* Every number is the number of the block that is unpacked from it.
* A block comes back with every axis in the signed range of its field, where it was but for a multiple of the
  numbers that the field has.
* So the block itself comes back exactly if all its axes are in range.
* If a block is moved on one axis, the field of this axis gets the low bits of the new place, and no other bit
  of the number changes. -/
theorem packed_by_axis :
    ((∀ b : Block, b.pack = (b.x.toInt64 &&& 0x3FFFFFF) <<< 38 ||| (b.z.toInt64 &&& 0x3FFFFFF) <<< 12 |||
        b.y.toInt64 &&& 0xFFF) ∧
      ∀ w, unpack w = ⟨(w >>> 38).toInt32, ((w <<< 52) >>> 52).toInt32, ((w <<< 26) >>> 38).toInt32⟩) ∧
    (∀ w, pack (unpack w) = w) ∧
    (∀ (b : Block) (axis : Axis), let place := ((unpack (pack b)).on axis).toInt
      axis.Holds place ∧ place % 2 ^ axis.width = (b.on axis).toInt % 2 ^ axis.width) ∧
    (∀ b, unpack (pack b) = b ↔ ∀ axis : Axis, axis.Holds (b.on axis).toInt) ∧
    ∀ (b : Block) (v : Int32) (axis : Axis) (i : Nat), (b.moved v axis).pack.toBitVec.getLsbD i =
      if axis.Covers i then v.toBitVec.getLsbD (i - axis.shift) else b.pack.toBitVec.getLsbD i := by
  refine ⟨⟨pack_eq_masked, unpack_eq_shifted⟩, pack_unpack, fun b axis => ?_, fun b => unpack_pack_eq_iff,
    getLsbD_pack_moved⟩
  rw [toInt_on_unpack_pack]
  exact ⟨axis.holds_bmod _, by exact_mod_cast Int.bmod_emod⟩

/-- Just out of range on two axes, and just in range on the third. -/
example : unpack (pack ⟨33554432, -2049, -33554432⟩) = ⟨-33554432, 2047, -33554432⟩ := by decide

end Pickaxe.World.Block
