import Mathlib.Algebra.Group.Nat.Defs
import Mathlib.Data.List.TakeWhile
import Pickaxe.Wire.Varint

/-! Variable-length integers, read.

Reading looks at the bytes up to the first behind which the number does not go on, and at five of them
at the most. There are three forms of bytes, and `decode_eq_iff` says what is found in each. What was
written is a number that ends, so it is read back whatever comes after it (`decode_encode`), and is told
to be cut off where it is (`decode_take_encode`). -/
namespace Pickaxe.Wire.Varint

/-! ### What is found -/

/-- The number goes on behind each of these bytes. -/
def Open (bytes : List UInt8) : Prop := ∀ b ∈ bytes, 128 ≤ b

/-- What reading finds in bytes. -/
inductive Found : List UInt8 → Decoded → Prop where
  /-- The number ends with the first byte behind which it does not go on. -/
  | complete {head : List UInt8} {last : UInt8} (hopen : Open head) (hlength : head.length < maxSize)
      (hlast : last < 128) (rest : List UInt8) :
      Found (head ++ last :: rest)
        (.complete (Int32.ofNat (value (head ++ [last]))) (head.length + 1))
  | incomplete {bytes : List UInt8} (hopen : Open bytes) (hlength : bytes.length < maxSize) :
      Found bytes .incomplete
  | tooLong {head : List UInt8} (hopen : Open head) (hlength : head.length = maxSize)
      (rest : List UInt8) : Found (head ++ rest) .tooLong

theorem continued_of_open {bytes : List UInt8} (hopen : Open bytes) :
    continued bytes = bytes.take maxSize :=
  List.takeWhile_eq_self_iff.mpr fun b hb => decide_eq_true (hopen b (List.mem_of_mem_take hb))

theorem continued_append {head : List UInt8} (hopen : Open head) (hlength : head.length ≤ maxSize)
    (rest : List UInt8) :
    continued (head ++ rest) = head ++ (rest.take (maxSize - head.length)).takeWhile (128 ≤ ·) := by
  rw [continued, List.take_append, List.take_of_length_le hlength,
    List.takeWhile_append_of_pos fun b hb => decide_eq_true (hopen b hb)]

theorem Found.decode_eq {bytes : List UInt8} {d : Decoded} (h : Found bytes d) : decode bytes = d := by
  cases h with
  | @complete head last hopen hlength hlast rest =>
    have hstop : ¬ 128 ≤ last := UInt8.not_le.mpr hlast
    have hhead : continued (head ++ last :: rest) = head := by
      obtain ⟨room, hroom⟩ := Nat.exists_eq_succ_of_ne_zero (Nat.sub_ne_zero_of_lt hlength)
      rw [continued_append hopen (Nat.le_of_lt hlength), hroom, List.take_succ_cons,
        List.takeWhile_cons_of_neg (by simpa using hstop), List.append_nil]
    simp only [decode, hhead, if_neg (Nat.ne_of_lt hlength), List.drop_left]
  | incomplete hopen hlength =>
    have hall : continued bytes = bytes := by
      rw [continued_of_open hopen, List.take_of_length_le (Nat.le_of_lt hlength)]
    simp only [decode, hall, if_neg (Nat.ne_of_lt hlength), List.drop_length]
  | @tooLong head hopen hlength rest =>
    have hhead : continued (head ++ rest) = head := by
      rw [continued_append hopen (Nat.le_of_eq hlength), hlength, Nat.sub_self, List.take_zero,
        List.takeWhile_nil, List.append_nil]
    simp only [decode, hhead, if_pos hlength]

/-- Any bytes are of one of the three forms. -/
theorem exists_found (bytes : List UInt8) : ∃ d, Found bytes d := by
  have hopen : Open (bytes.takeWhile (128 ≤ ·)) := fun b hb => by simpa using List.mem_takeWhile_imp hb
  have hsplit : bytes.takeWhile (128 ≤ ·) ++ bytes.dropWhile (128 ≤ ·) = bytes :=
    List.takeWhile_append_dropWhile
  rcases Nat.lt_or_ge (bytes.takeWhile (128 ≤ ·)).length maxSize with hshort | hlong
  · cases hrest : bytes.dropWhile (128 ≤ ·) with
    | nil =>
      rw [hrest, List.append_nil] at hsplit
      rw [hsplit] at hopen hshort
      exact ⟨_, .incomplete hopen hshort⟩
    | cons last rest =>
      have hlast : ¬ 128 ≤ last := by
        have hnot := List.dropWhile_get_zero_not (128 ≤ ·) bytes (by rw [hrest]; exact Nat.succ_pos _)
        simpa [hrest] using hnot
      rw [hrest] at hsplit
      have hfound := Found.complete hopen hshort (UInt8.not_le.mp hlast) rest
      rw [hsplit] at hfound
      exact ⟨_, hfound⟩
  · have hfound := Found.tooLong (fun b hb => hopen b (List.mem_of_mem_take hb))
      (List.length_take_of_le hlong) ((bytes.takeWhile (128 ≤ ·)).drop maxSize ++ bytes.dropWhile (128 ≤ ·))
    rw [← List.append_assoc, List.take_append_drop, hsplit] at hfound
    exact ⟨_, hfound⟩

/-- **What reading finds, by the form of the bytes.** -/
theorem decode_eq_iff {bytes : List UInt8} {d : Decoded} : decode bytes = d ↔ Found bytes d := by
  refine ⟨fun h => ?_, Found.decode_eq⟩
  obtain ⟨found, hfound⟩ := exists_found bytes
  rwa [← h, hfound.decode_eq]

/-! ### What is written -/

theorem groups_of_lt {n : Nat} (h : n < 128) : groups n = [n.toUInt8] := by
  rw [groups, if_pos h]

theorem groups_of_le {n : Nat} (h : 128 ≤ n) :
    groups n = (n % 128 + 128).toUInt8 :: groups (n / 128) := by
  rw [groups, if_neg (Nat.not_lt.mpr h)]

theorem value_groups (n : Nat) : value (groups n) = n := by
  induction n using Nat.strongRecOn with
  | ind n ih =>
    rcases Nat.lt_or_ge n 128 with hsmall | hlarge
    · rw [groups_of_lt hsmall, value, value]
      simp
      omega
    · rw [groups_of_le hlarge, value, ih (n / 128) (by omega)]
      simp
      omega

theorem exists_groups (n : Nat) : ∃ head last, groups n = head ++ [last] ∧ Open head ∧ last < 128 := by
  induction n using Nat.strongRecOn with
  | ind n ih =>
    rcases Nat.lt_or_ge n 128 with hsmall | hlarge
    · refine ⟨[], n.toUInt8, groups_of_lt hsmall, List.forall_mem_nil _, ?_⟩
      rw [UInt8.lt_iff_toNat_lt]
      simp
      omega
    · obtain ⟨head, last, hgroups, hopen, hlast⟩ := ih (n / 128) (by omega)
      refine ⟨(n % 128 + 128).toUInt8 :: head, last, by rw [groups_of_le hlarge, hgroups]; rfl, ?_, hlast⟩
      refine List.forall_mem_cons.mpr ⟨?_, hopen⟩
      rw [UInt8.le_iff_toNat_le]
      simp
      omega

/-- A number below 128 to the power `k + 1` has `k + 1` groups at the most. -/
theorem length_groups_le (k : Nat) {n : Nat} (h : n < 128 ^ (k + 1)) : (groups n).length ≤ k + 1 := by
  induction k generalizing n with
  | zero => rw [groups_of_lt h, List.length_singleton]
  | succ k ih =>
    rcases Nat.lt_or_ge n 128 with hsmall | hlarge
    · rw [groups_of_lt hsmall, List.length_singleton]
      exact Nat.succ_pos _
    · rw [groups_of_le hlarge, List.length_cons]
      refine Nat.succ_le_succ (ih ?_)
      rw [Nat.pow_succ] at h
      exact Nat.div_lt_of_lt_mul (Nat.mul_comm _ 128 ▸ h)

theorem length_encode_le (v : Int32) : (encode v).length ≤ maxSize :=
  length_groups_le 4 (Nat.lt_trans v.toUInt32.toNat_lt (by decide))

/-- What was written is a number that ends. -/
theorem exists_encode (v : Int32) : ∃ head last, encode v = head ++ [last] ∧ Open head ∧
    head.length < maxSize ∧ last < 128 ∧ v = Int32.ofNat (value (head ++ [last])) := by
  obtain ⟨head, last, hgroups, hopen, hlast⟩ := exists_groups v.toUInt32.toNat
  have hlength := length_encode_le v
  rw [encode, hgroups, List.length_append, List.length_singleton] at hlength
  refine ⟨head, last, hgroups, hopen, hlength, hlast, ?_⟩
  rw [← hgroups, value_groups]
  exact Int32.toBitVec_inj.mp (by simp)

/-- **What was written is read back**, whatever comes after it. -/
theorem decode_encode (v : Int32) (rest : List UInt8) :
    decode (encode v ++ rest) = .complete v (encode v).length := by
  obtain ⟨head, last, hencode, hopen, hlength, hlast, hv⟩ := exists_encode v
  have hfound := Found.complete hopen hlength hlast rest
  rw [hencode, List.append_assoc, List.length_append]
  conv => rhs; rw [hv]
  exact hfound.decode_eq

/-- **What was written and cut off is a number that does not end.** -/
theorem decode_take_encode (v : Int32) {n : Nat} (h : n < (encode v).length) :
    decode ((encode v).take n) = .incomplete := by
  obtain ⟨head, last, hencode, hopen, hlength, -, -⟩ := exists_encode v
  rw [hencode, List.length_append, List.length_singleton] at h
  have hn : n ≤ head.length := Nat.le_of_lt_succ h
  rw [hencode, List.take_append_of_le_length hn]
  refine decode_eq_iff.mpr (.incomplete (fun b hb => hopen b (List.mem_of_mem_take hb)) ?_)
  exact Nat.lt_of_le_of_lt (List.length_take_le _ _) (Nat.lt_of_le_of_lt hn hlength)

end Pickaxe.Wire.Varint
