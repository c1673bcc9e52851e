import Pickaxe.Text.Utf8

/-! The bytes of a text: a text is read back from its bytes, and characters of ASCII are one byte
each, of their number. Behind other bytes they make a text if and only if those are one
(`isSome_decode?_append`). -/
namespace Pickaxe.Text.Utf8

theorem encode_eq (s : String) : encode s = s.toList.flatMap String.utf8EncodeChar := by
  have h : s.toList.utf8Encode = s.toUTF8 := String.utf8Encode_toList
  rw [encode, ← h]
  simp [List.utf8Encode]

theorem encode_append (s t : String) : encode (s ++ t) = encode s ++ encode t := by
  simp [encode_eq]

theorem encode_ofList (cs : List Char) :
    encode (String.ofList cs) = cs.flatMap String.utf8EncodeChar := by
  simp [encode_eq]

theorem fromUTF8?_encode (s : String) : String.fromUTF8? ⟨(encode s).toArray⟩ = some s := by
  have hbytes : (⟨(encode s).toArray⟩ : ByteArray) = s.toByteArray := rfl
  rw [hbytes, String.fromUTF8?, dif_pos s.isValidUTF8]
  rfl

theorem decode?_encode (s : String) : decode? (encode s) = some s := fromUTF8?_encode s

/-- A character of ASCII is a byte. -/
theorem utf8EncodeChar_ascii {c : Char} (h : c.toNat < 0x80) :
    String.utf8EncodeChar c = [UInt8.ofNat c.toNat] := by
  have h' : c.val.toNat ≤ 0x7F := Nat.le_of_lt_succ h
  exact if_pos h'

/-- No byte of any other character is a character of ASCII. -/
theorem le_of_mem_utf8EncodeChar {c : Char} (h : 0x80 ≤ c.toNat) :
    ∀ b ∈ String.utf8EncodeChar c, 0x80 ≤ b := by
  have hc : ¬ c.val.toNat ≤ 0x7F := Nat.not_le_of_lt h
  intro b hb
  unfold String.utf8EncodeChar at hb
  simp only [if_neg hc] at hb
  rw [UInt8.le_iff_toNat_le]
  split at hb
  · simp at hb
    rcases hb with rfl | rfl <;> simp <;> omega
  · split at hb
    · simp at hb
      rcases hb with rfl | rfl | rfl <;> simp <;> omega
    · simp at hb
      rcases hb with rfl | rfl | rfl | rfl <;> simp <;> omega

/-- The bytes of a text of ASCII are its characters. -/
theorem mem_encode_ascii {s : String} (h : ∀ c ∈ s.toList, c.toNat < 0x80) {b : UInt8}
    (hb : b ∈ encode s) : ∃ c ∈ s.toList, b.toNat = c.toNat := by
  rw [encode_eq] at hb
  obtain ⟨c, hc, hbyte⟩ := List.mem_flatMap.mp hb
  have hascii : c.toNat < 0x80 := h c hc
  rw [utf8EncodeChar_ascii hascii] at hbyte
  refine ⟨c, hc, ?_⟩
  rw [List.mem_singleton.mp hbyte, UInt8.toNat_ofNat']
  omega

/-- Bytes of ASCII are a text. -/
theorem encode_ascii {bytes : List UInt8} (h : ∀ b ∈ bytes, b.toNat < 0x80) :
    encode (String.ofList (bytes.map fun b => Char.ofNat b.toNat)) = bytes := by
  rw [encode_ofList]
  induction bytes with
  | nil => rfl
  | cons b rest ih =>
    have hb : b.toNat < 0x80 := h b (List.mem_cons_self ..)
    have hvalid : b.toNat.isValidChar := .inl (Nat.lt_trans hb (by decide))
    have hchar : (Char.ofNat b.toNat).toNat = b.toNat := by
      rw [Char.ofNat, dif_pos hvalid]
      rfl
    have hbyte : String.utf8EncodeChar (Char.ofNat b.toNat) = [b] := by
      rw [utf8EncodeChar_ascii (by rw [hchar]; exact hb), hchar, UInt8.ofNat_toNat]
    rw [List.map_cons, List.flatMap_cons, hbyte, ih fun c hc => h c (List.mem_cons_of_mem b hc)]
    rfl

theorem eq_encode_of_decode? {bytes : List UInt8} {s : String} (h : decode? bytes = some s) :
    bytes = encode s := by
  unfold decode? String.fromUTF8? at h
  split at h
  · rename_i hvalid
    rw [← Option.some.inj h]
    rfl
  · cases h

/-- A text behind a text makes a text. -/
theorem decode?_append {bytes : List UInt8} {s : String} (h : decode? bytes = some s)
    (t : String) : decode? (bytes ++ encode t) = some (s ++ t) := by
  rw [eq_encode_of_decode? h, ← encode_append, decode?_encode]

theorem utf8EncodeChar_concat (c : Char) : ∃ before last, String.utf8EncodeChar c = before ++ [last] := by
  rcases List.eq_nil_or_concat (String.utf8EncodeChar c) with hnil | ⟨before, last, hlast⟩
  · have hsize := congrArg List.length hnil
    rw [String.length_utf8EncodeChar, List.length_nil] at hsize
    exact absurd hsize (Nat.ne_of_gt c.utf8Size_pos)
  · exact ⟨before, last, hlast.trans List.concat_eq_append⟩

/-- A byte of ASCII that ends a text is a character of it, so what stands before it is a text. -/
theorem exists_encode_of_concat {bytes : List UInt8} {b : UInt8} {s : String} (hb : b.toNat < 0x80)
    (h : bytes ++ [b] = encode s) : ∃ t, bytes = encode t := by
  rw [encode_eq] at h
  rcases List.eq_nil_or_concat s.toList with hnil | ⟨before, c, hc⟩
  · rw [hnil] at h
    exact absurd h (List.append_ne_nil_of_right_ne_nil _ (List.cons_ne_nil _ _))
  · rw [hc, List.concat_eq_append, List.flatMap_append, List.flatMap_singleton] at h
    obtain ⟨start, last, hlast⟩ := utf8EncodeChar_concat c
    have hend : last = b := by
      rw [hlast, ← List.append_assoc] at h
      exact (List.cons.inj (List.append_inj' h rfl).2).1.symm
    have hascii : c.toNat < 0x80 := by
      refine Nat.lt_of_not_le fun hlarge => ?_
      have hle := le_of_mem_utf8EncodeChar hlarge last (hlast ▸ List.mem_append_right _ List.mem_cons_self)
      rw [hend, UInt8.le_iff_toNat_le] at hle
      exact absurd hb (Nat.not_lt.mpr hle)
    rw [utf8EncodeChar_ascii hascii] at h
    exact ⟨String.ofList before, (List.append_inj' h rfl).1.trans (encode_ofList before).symm⟩

/-- **Bytes of ASCII behind others make a text if and only if those are one.** -/
theorem isSome_decode?_append {tail : List UInt8} (h : ∀ b ∈ tail, b.toNat < 0x80) (bytes : List UInt8) :
    (decode? (bytes ++ tail)).isSome = (decode? bytes).isSome := by
  rw [Bool.eq_iff_iff, Option.isSome_iff_exists, Option.isSome_iff_exists]
  constructor
  · intro ⟨s, hs⟩
    have hall : ∃ t, bytes ++ tail = encode t := ⟨s, eq_encode_of_decode? hs⟩
    clear hs
    induction tail generalizing bytes with
    | nil =>
      obtain ⟨t, ht⟩ := hall
      rw [List.append_nil] at ht
      exact ⟨t, ht ▸ decode?_encode t⟩
    | cons b rest ih =>
      obtain ⟨hb, hrest⟩ := List.forall_mem_cons.mp h
      have hfirst : ∃ t, decode? (bytes ++ [b]) = some t := by
        refine ih hrest (bytes ++ [b]) ?_
        rwa [List.append_assoc, List.singleton_append]
      obtain ⟨t, ht⟩ := hfirst
      obtain ⟨u, hu⟩ := exists_encode_of_concat hb (eq_encode_of_decode? ht)
      exact ⟨u, hu ▸ decode?_encode u⟩
  · intro ⟨s, hs⟩
    rw [← encode_ascii h]
    exact ⟨_, decode?_append hs _⟩

end Pickaxe.Text.Utf8
