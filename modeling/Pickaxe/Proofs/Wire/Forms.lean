import Mathlib.Tactic.Ring
import Pickaxe.Proofs.Wire.Varint

/-! The forms of a variable-length number.

A number has one form that is written, and more that are read: with zeros behind it, or with bits beyond
the 32nd. Groups spell a number below the power of 128 that their length says (`value_lt`), and are the
groups of that number unless they end in a zero that says nothing (`groups_value_eq_iff`). What is read is
this number without the bits beyond the 32nd, so the form that was read is the written one if it has
neither (`encode_eq_iff`). Whatever the form, the number is read behind which nothing counts
(`Spells.decode_append`). -/
namespace Pickaxe.Wire.Varint

variable {head : List UInt8} {last : UInt8}

/-! ### The number that groups spell -/

theorem value_append (first rest : List UInt8) :
    value (first ++ rest) = value first + 128 ^ first.length * value rest := by
  induction first with
  | nil => simp [value]
  | cons b first ih =>
    rw [List.cons_append, value, value, ih, List.length_cons, Nat.pow_succ']
    ring

theorem value_lt (bytes : List UInt8) : value bytes < 128 ^ bytes.length := by
  induction bytes with
  | nil => exact Nat.one_pos
  | cons b bytes ih =>
    rw [value, List.length_cons, Nat.pow_succ']
    have hgroup : b.toNat % 128 < 128 := Nat.mod_lt _ (by decide)
    omega

theorem value_concat (head : List UInt8) (hlast : last < 128) :
    value (head ++ [last]) = value head + 128 ^ head.length * last.toNat := by
  have hgroup : value [last] = last.toNat := Nat.mod_eq_of_lt (UInt8.lt_iff_toNat_lt.mp hlast)
  rw [value_append, hgroup]

/-- A last group that is not zero counts. -/
theorem value_concat_pos (head : List UInt8) (hlast : last < 128) (hzero : last ≠ 0) :
    0 < value (head ++ [last]) := by
  have hpos : 0 < last.toNat := Nat.pos_of_ne_zero fun h => hzero (UInt8.toNat_inj.mp h)
  rw [value_concat head hlast]
  exact Nat.add_pos_right _ (Nat.mul_pos (Nat.pow_pos (by decide)) hpos)

/-! ### The groups of a number -/

/-- Groups that do not end in a superfluous zero are those of their number. -/
theorem groups_value (hopen : Open head) (hlast : last < 128) (hends : head = [] ∨ last ≠ 0) :
    groups (value (head ++ [last])) = head ++ [last] := by
  induction head with
  | nil =>
    have hvalue : value ([] ++ [last]) = last.toNat := by rw [value_concat [] hlast]; simp [value]
    rw [hvalue, groups_of_lt (UInt8.lt_iff_toNat_lt.mp hlast)]
    simp
  | cons b head ih =>
    obtain ⟨hb, hopen⟩ := List.forall_mem_cons.mp hopen
    have hzero : last ≠ 0 := hends.resolve_left (List.cons_ne_nil _ _)
    have hpos := value_concat_pos head hlast hzero
    have hcontinued : 128 ≤ b.toNat := UInt8.le_iff_toNat_le.mp hb
    have hbyte : b.toNat < 256 := b.toNat_lt
    rw [List.cons_append, value, groups_of_le (by omega)]
    have hgroup : (b.toNat % 128 + 128 * value (head ++ [last])) % 128 + 128 = b.toNat := by omega
    have hrest : (b.toNat % 128 + 128 * value (head ++ [last])) / 128 = value (head ++ [last]) := by omega
    rw [hgroup, hrest, ih hopen (.inr hzero)]
    simp

/-- The groups of a number are no more than any that spell it. -/
theorem length_groups_le_of_lt {n k : Nat} (hk : 0 < k) (h : n < 128 ^ k) : (groups n).length ≤ k := by
  obtain ⟨k, rfl⟩ := Nat.exists_eq_succ_of_ne_zero (Nat.ne_of_gt hk)
  exact length_groups_le k h

/-- **Which groups are written**: all but those that end in a superfluous zero. -/
theorem groups_value_eq_iff (hopen : Open head) (hlast : last < 128) :
    groups (value (head ++ [last])) = head ++ [last] ↔ head = [] ∨ last ≠ 0 := by
  refine ⟨fun h => ?_, groups_value hopen hlast⟩
  by_contra hsuperfluous
  rw [not_or, not_not] at hsuperfluous
  obtain ⟨hhead, rfl⟩ := hsuperfluous
  -- Without its last zero the number has a form that is shorter.
  have hvalue : value (head ++ [0]) < 128 ^ head.length := by
    rw [value_concat head hlast]
    exact value_lt head
  have hshort := length_groups_le_of_lt (List.length_pos_iff.mpr hhead) hvalue
  rw [h, List.length_append, List.length_singleton] at hshort
  exact Nat.not_succ_le_self _ hshort

/-! ### What is read -/

theorem toNat_toUInt32_ofNat (n : Nat) : (Int32.ofNat n).toUInt32.toNat = n % 2 ^ 32 :=
  UInt32.toNat_ofNat

/-- Only a fifth group has bits beyond the 32nd, and the upper three of its bits are these. -/
theorem value_lt_iff (hlength : head.length < maxSize) (hlast : last < 128) :
    value (head ++ [last]) < 2 ^ 32 ↔ (head.length + 1 = maxSize → last ≤ 0x0F) := by
  rw [maxSize] at hlength ⊢
  rcases Nat.lt_or_ge head.length 4 with hshort | hlong
  · have hvalue := value_lt (head ++ [last])
    rw [List.length_append, List.length_singleton] at hvalue
    have hpower : 128 ^ (head.length + 1) ≤ 128 ^ 4 := Nat.pow_le_pow_right (by decide) hshort
    exact iff_of_true (Nat.lt_of_lt_of_le hvalue (Nat.le_trans hpower (by decide))) (by omega)
  · have hfour : head.length = 4 := by omega
    have hhead := value_lt head
    rw [value_concat head hlast, hfour, UInt8.le_iff_toNat_le]
    rw [hfour] at hhead
    simp only [UInt8.reduceToNat, forall_const]
    omega

/-- What is read of a form is written in no more bytes. -/
theorem length_encode_value_le (head : List UInt8) (last : UInt8) :
    (encode (Int32.ofNat (value (head ++ [last])))).length ≤ head.length + 1 := by
  have hvalue := value_lt (head ++ [last])
  rw [List.length_append, List.length_singleton] at hvalue
  rw [encode, toNat_toUInt32_ofNat]
  exact length_groups_le _ (Nat.lt_of_le_of_lt (Nat.mod_le _ _) hvalue)

/-- **Which forms are written**: those without a superfluous zero and without bits beyond the 32nd. -/
theorem encode_eq_iff (hopen : Open head) (hlength : head.length < maxSize) (hlast : last < 128) :
    encode (Int32.ofNat (value (head ++ [last]))) = head ++ [last] ↔
      (head = [] ∨ last ≠ 0) ∧ (head.length + 1 = maxSize → last ≤ 0x0F) := by
  rw [← groups_value_eq_iff hopen hlast, ← value_lt_iff hlength hlast, encode, toNat_toUInt32_ofNat]
  constructor
  · intro h
    have hwhole : value (head ++ [last]) % 2 ^ 32 = value (head ++ [last]) := by
      rw [← value_groups (value (head ++ [last]) % 2 ^ 32), h]
    rw [hwhole] at h
    exact ⟨h, hwhole ▸ Nat.mod_lt _ (by decide)⟩
  · rintro ⟨h, hfits⟩
    rw [Nat.mod_eq_of_lt hfits, h]

/-! ### The number of bytes -/

theorem size_eq (v : Int32) : size v = (encode v).length := by
  have hwidth (n : Nat) : width n = (groups n).length := by
    induction n using Nat.strongRecOn with
    | ind n ih =>
      rcases Nat.lt_or_ge n 128 with hsmall | hlarge
      · rw [width, if_pos hsmall, groups_of_lt hsmall, List.length_singleton]
      · rw [width, if_neg (Nat.not_lt.mpr hlarge), groups_of_le hlarge, List.length_cons,
          ih (n / 128) (by omega)]
  exact hwidth _

theorem size_pos (v : Int32) : 0 < size v := by
  obtain ⟨head, last, hencode, -⟩ := exists_encode v
  rw [size_eq, hencode, List.length_append]
  exact Nat.succ_pos _

/-! ### Every form -/

theorem decode_eq_tooLong_iff {bytes : List UInt8} :
    decode bytes = .tooLong ↔ maxSize ≤ bytes.length ∧ Open (bytes.take maxSize) := by
  rw [decode_eq_iff]
  constructor
  · intro h
    cases h with
    | @tooLong head hopen hlength rest =>
      rw [List.length_append, List.take_left' hlength]
      exact ⟨hlength ▸ Nat.le_add_right .., hopen⟩
  · rintro ⟨hlength, hopen⟩
    rw [← List.take_append_drop maxSize bytes]
    exact .tooLong hopen (List.length_take_of_le hlength) _

theorem decode_eq_incomplete_iff {bytes : List UInt8} :
    decode bytes = .incomplete ↔ bytes.length < maxSize ∧ Open bytes := by
  rw [decode_eq_iff]
  constructor
  · intro h
    cases h with
    | incomplete hopen hlength => exact ⟨hlength, hopen⟩
  · exact fun ⟨hlength, hopen⟩ => .incomplete hopen hlength

/-- **All forms of numbers.** A number is written in one to five bytes, as many as are said, and read back
from them whatever comes after them. Of any bytes, reading tells that they are

* too long exactly if there are five, and the number goes on behind each of the first five;
* cut off exactly if there are fewer than five, and the number goes on behind each of them;
* and otherwise a number of at most five bytes, of which the last is the first behind which it does not go
  on. Written, the number takes no more bytes, and takes the same bytes exactly if the last of them is not
  a superfluous zero and, if it is the fifth, has no bits beyond the 32nd. -/
theorem forms_told_apart :
    (∀ v rest, decode (encode v ++ rest) = .complete v (size v) ∧ size v = (encode v).length ∧
      1 ≤ size v ∧ size v ≤ 5) ∧
    ∀ bytes : List UInt8,
      let endless := 5 ≤ bytes.length ∧ ∀ b ∈ bytes.take 5, 128 ≤ b
      let cut := bytes.length < 5 ∧ ∀ b ∈ bytes, 128 ≤ b
      (decode bytes = .tooLong ↔ endless) ∧
      (decode bytes = .incomplete ↔ cut) ∧
      (endless ∨ cut ∨ ∃ v k last, decode bytes = .complete v k ∧ 1 ≤ k ∧ k ≤ 5 ∧
        bytes[k - 1]? = some last ∧ last < 128 ∧ (∀ b ∈ bytes.take (k - 1), 128 ≤ b) ∧
        (encode v).length ≤ k ∧
        (encode v = bytes.take k ↔ (k = 1 ∨ last ≠ 0) ∧ (k = 5 → last ≤ 0x0F))) := by
  refine ⟨fun v rest => ⟨?_, size_eq v, size_pos v, ?_⟩, fun bytes =>
    ⟨decode_eq_tooLong_iff, decode_eq_incomplete_iff, ?_⟩⟩
  · rw [size_eq]
    exact decode_encode v rest
  · rw [size_eq]
    exact length_encode_le v
  obtain ⟨found, hfound⟩ := exists_found bytes
  have hdecode := hfound.decode_eq
  cases hfound with
  | tooLong => exact .inl (decode_eq_tooLong_iff.mp hdecode)
  | incomplete => exact .inr (.inl (decode_eq_incomplete_iff.mp hdecode))
  | @complete head last hopen hlength hlast rest =>
    have htake : (head ++ last :: rest).take (head.length + 1) = head ++ [last] :=
      List.take_length_add_append 1
    refine .inr (.inr ⟨_, head.length + 1, last, hdecode, Nat.succ_pos _, hlength, ?_, hlast, ?_,
      length_encode_value_le head last, ?_⟩)
    · rw [Nat.add_sub_cancel, List.getElem?_append_right (Nat.le_refl _), Nat.sub_self]
      rfl
    · rw [Nat.add_sub_cancel, List.take_left]
      exact hopen
    · rw [htake, encode_eq_iff hopen hlength hlast]
      simp [maxSize]

/-- Zero in five bytes, of which the last has bits beyond the 32nd. -/
example : decode [0x80, 0x80, 0x80, 0x80, 0x10, 0xAA] = .complete 0 5 := by decide

/-! ### Bytes that spell a number -/

/-- Bytes that are a number and nothing else, in whatever form. -/
def Spells (form : List UInt8) (v : Int32) : Prop := decode form = .complete v form.length

/-- What spells a number is read whatever comes after it. -/
theorem Spells.decode_append {form : List UInt8} {v : Int32} (h : Spells form v) (rest : List UInt8) :
    decode (form ++ rest) = .complete v form.length := by
  have hfound := decode_eq_iff.mp h
  generalize hused : form.length = used at hfound ⊢
  cases hfound with
  | @complete head last hopen hlength hlast behind =>
    rw [List.length_append, List.length_cons] at hused
    obtain rfl : behind = [] := List.length_eq_zero_iff.mp (by omega)
    rw [List.append_assoc]
    exact (Found.complete hopen hlength hlast rest).decode_eq

/-- A number that bytes begin with is spelled by as many of them as it took. -/
theorem spells_take {bytes : List UInt8} {v : Int32} {used : Nat} (h : decode bytes = .complete v used) :
    Spells (bytes.take used) v ∧ used ≤ bytes.length := by
  have hfound := decode_eq_iff.mp h
  cases hfound with
  | @complete head last hopen hlength hlast behind =>
    have htake : (head ++ last :: behind).take (head.length + 1) = head ++ [last] :=
      List.take_length_add_append 1
    rw [htake, Spells, List.length_append, List.length_append]
    exact ⟨(Found.complete hopen hlength hlast []).decode_eq, Nat.add_le_add_left (Nat.succ_pos _) _⟩

end Pickaxe.Wire.Varint
