import Pickaxe.Proofs.Wire.Field
import Pickaxe.Proofs.Wire.Forms

/-! How long a text may be.

The limit of a text counts characters, but bytes are compared with it, four for each character. Every text
within its limit is read (`text_of_length_le`), for no character has more than four bytes. Most have fewer,
and so longer texts are read as well: the limit is kept only where there is nothing to be read or no more
than any text can have (`text_limit_iff`). -/
namespace Pickaxe.Wire.Reader

open Text (Utf8.encode)

/-- A text behind the number of its bytes, in any form of this number. -/
def Prefixed (form : List UInt8) (s : String) : Prop :=
  ∃ header count, Varint.Spells header count ∧ count.toInt = s.utf8ByteSize ∧ form = header ++ Utf8.encode s

variable {maxChars : Nat} {bytes form rest : List UInt8} {s : String}

/-- **What is read is a text of so many bytes** behind their number. -/
theorem text_eq_ok_iff : text maxChars bytes = (.ok s, rest) ↔
    ∃ form, Prefixed form s ∧ s.utf8ByteSize ≤ maxChars * 4 ∧ bytes = form ++ rest := by
  rw [takes_text maxChars bytes s rest]
  refine ⟨?_, ?_⟩
  · rintro ⟨form, ⟨count, header, hspells, hcount, hle, hform⟩, hbytes⟩
    exact ⟨form, ⟨header, count, hspells, hcount, hform⟩, hle, hbytes⟩
  · rintro ⟨form, ⟨header, count, hspells, hcount, hform⟩, hle, hbytes⟩
    exact ⟨form, ⟨count, header, hspells, hcount, hle, hform⟩, hbytes⟩

theorem text_of_length_le (h : Prefixed form s) (hlength : s.length ≤ maxChars) (rest : List UInt8) :
    text maxChars (form ++ rest) = (.ok s, rest) := by
  have hbytes : s.utf8ByteSize ≤ s.length * 4 := utf8ByteSize_le s
  exact text_eq_ok_iff.mpr ⟨form, h, Nat.le_trans hbytes (Nat.mul_le_mul_right 4 hlength), rfl⟩

/-! ### Texts beyond the limit -/

/-- A text of so many bytes, each of them a character. -/
def plain (n : Nat) : String := String.ofList (List.replicate n 'a')

theorem length_plain (n : Nat) : (plain n).length = n := by
  rw [plain, String.length_ofList, List.length_replicate]

theorem utf8ByteSize_plain (n : Nat) : (plain n).utf8ByteSize = n := by
  have hbytes : (plain n).utf8ByteSize = (Utf8.encode (plain n)).length := rfl
  have hone : 'a'.utf8Size = 1 := rfl
  rw [hbytes, plain, Text.Utf8.encode_ofList, List.length_flatMap]
  simp [hone]

theorem prefixed_plain {n : Nat} (h : n < 2 ^ 31) :
    Prefixed (Varint.encode (Int32.ofNat n) ++ Utf8.encode (plain n)) (plain n) := by
  refine ⟨_, Int32.ofNat n, decode_encode_self _, ?_, rfl⟩
  rw [utf8ByteSize_plain, Int32.toInt_ofNat_of_lt h]

/-- **The limit of a text counts bytes.**

* What is read has no more characters than the limit says only if the limit is zero, or if it is not less than
  all the bytes that a text can have.
* What is read is a text behind the number of its bytes, of at most four bytes for each character of the limit,
  and what comes behind it is left.
* Every text within the limit is read as it is. -/
theorem text_limit_iff (maxChars : Nat) :
    ((∀ bytes s rest, text maxChars bytes = (.ok s, rest) → s.length ≤ maxChars) ↔
      maxChars = 0 ∨ 2 ^ 31 - 1 ≤ maxChars) ∧
    (∀ bytes s rest, text maxChars bytes = (.ok s, rest) ↔
      ∃ form, Prefixed form s ∧ s.utf8ByteSize ≤ maxChars * 4 ∧ bytes = form ++ rest) ∧
    ∀ form s, Prefixed form s → s.length ≤ maxChars → ∀ rest,
      text maxChars (form ++ rest) = (.ok s, rest) := by
  refine ⟨⟨fun hlimit => ?_, ?_⟩, fun _ _ _ => text_eq_ok_iff, fun _ _ => text_of_length_le⟩
  · by_contra hbetween
    -- one character more than the limit, and all of them of one byte
    have hread := text_eq_ok_iff.mpr ⟨_, prefixed_plain (n := maxChars + 1) (by omega),
      (by rw [utf8ByteSize_plain]; omega : _ ≤ maxChars * 4), (List.append_nil _).symm⟩
    have hlength := hlimit _ _ _ hread
    rw [length_plain] at hlength
    omega
  · intro hlimit bytes s rest hread
    obtain ⟨_, ⟨_, count, _, hcount, _⟩, hle, _⟩ := text_eq_ok_iff.mp hread
    have hlength : s.length ≤ s.utf8ByteSize := (utf8ByteSize_bounds s).1
    have hlast : count.toInt < 2 ^ 31 := count.toInt_lt
    omega

/-- Two characters in five bytes, and the number five in two bytes where one would do. -/
theorem text_limit_iff_two :
    let form := [0x85, 0x00, 0xC3, 0xA9, 0xE2, 0x82, 0xAC]
    Prefixed form "é€" ∧ "é€".length ≤ 2 ∧ text 2 (form ++ [9]) = (.ok "é€", [9]) ∧
      ¬ ∀ bytes s rest, text 2 bytes = (.ok s, rest) → s.length ≤ 2 := by
  intro form
  have hform : Prefixed form "é€" := ⟨[0x85, 0x00], 5, rfl, rfl, rfl⟩
  have hlength : "é€".length ≤ 2 := by decide
  obtain ⟨hlimit, -, hread⟩ := text_limit_iff 2
  exact ⟨hform, hlength, hread form _ hform hlength [9], fun h => absurd (hlimit.mp h) (by decide)⟩

/-- A name of a player with a character too many. -/
theorem text_beyond_limit :
    ¬ ∀ maxChars bytes s rest, text maxChars bytes = (.ok s, rest) → s.length ≤ maxChars := by
  intro hlimit
  have hread : text 16 (17 :: List.replicate 17 97) = (.ok "aaaaaaaaaaaaaaaaa", []) := rfl
  exact absurd (hlimit _ _ _ _ hread) (by decide)

end Pickaxe.Wire.Reader
