import Pickaxe.Proofs.Text.Utf8

/-! What bytes show that need not be a text.

The bytes of a character show this character. Where no character stands first, the part of the bytes that
might still have become one shows as a single replacement, and so does a byte that starts none (`Broken`).
Inside a character the decoder knows which bytes complete it (`Opens`), so it finds this part
(`first`), and decoding gives what the bytes show and nothing else (`shows_iff`). -/
namespace Pickaxe.Text.Utf8

open String (utf8EncodeChar)

/-! ### What bytes show -/

/-- The bytes begin those of a character. -/
def Begins (bytes : List UInt8) : Prop := ∃ c, bytes <+: utf8EncodeChar c

/-- No character stands first in these bytes. The part in front is all that begins one, or else a single
byte. -/
structure Broken (part rest : List UInt8) : Prop where
  not_char : ∀ c, ¬ utf8EncodeChar c <+: part ++ rest
  begins : (∃ b, part = [b]) ∨ part ≠ [] ∧ Begins part
  longest : ∀ b, rest.head? = some b → ¬ Begins (part ++ [b])

/-- These bytes show these characters. -/
inductive Shows : List UInt8 → List Char → Prop where
  | nil : Shows [] []
  | char (c : Char) {rest : List UInt8} {cs : List Char} (h : Shows rest cs) :
      Shows (utf8EncodeChar c ++ rest) (c :: cs)
  | broken {part rest : List UInt8} {cs : List Char} (hpart : Broken part rest) (h : Shows rest cs) :
      Shows (part ++ rest) (Char.ofNat 0xFFFD :: cs)

variable {part rest bytes : List UInt8} {b : UInt8} {bits low high more : Nat} {c : Char}

theorem Begins.of_append (h : Begins (part ++ rest)) : Begins part :=
  h.elim fun c hc => ⟨c, (List.prefix_append part rest).trans hc⟩

theorem Broken.ne_nil (h : Broken part rest) : part ≠ [] := by
  obtain ⟨b, hb⟩ | ⟨hne, -⟩ := h.begins
  · exact hb ▸ List.cons_ne_nil b []
  · exact hne

/-- Of two parts with the same bytes the one is no longer than the other. -/
theorem Broken.length_le {part' rest' : List UInt8} (h : Broken part rest) (h' : Broken part' rest')
    (heq : part ++ rest = part' ++ rest') : part'.length ≤ part.length := by
  refine Nat.le_of_not_lt fun hlt => ?_
  obtain ⟨more, hmore⟩ : part <+: part' :=
    List.prefix_of_prefix_length_le ⟨rest, heq⟩ (List.prefix_append part' rest') (Nat.le_of_lt hlt)
  subst hmore
  cases more with
  | nil => simp at hlt
  | cons b more =>
    rw [List.append_assoc, List.append_cancel_left_eq] at heq
    refine h.longest b (by rw [heq]; rfl) ?_
    obtain ⟨x, hx⟩ | ⟨-, hbegins⟩ := h'.begins
    · -- a single byte cannot be longer than a part that has one
      have hlength := congrArg List.length hx
      have hpos := List.length_pos_iff.mpr h.ne_nil
      simp only [List.length_append, List.length_cons, List.length_nil] at hlength
      omega
    · rw [List.append_cons] at hbegins
      exact hbegins.of_append

theorem Broken.unique {part' rest' : List UInt8} (h : Broken part rest) (h' : Broken part' rest')
    (heq : part ++ rest = part' ++ rest') : part = part' ∧ rest = rest' :=
  List.append_inj heq (Nat.le_antisymm (h'.length_le h heq.symm) (h.length_le h' heq))

/-! ### The bytes of a character -/

theorem toNat_lt (c : Char) : c.toNat < 0x110000 := by
  have hvalid := c.valid
  simp only [UInt32.isValidChar, Nat.isValidChar] at hvalid
  show c.val.toNat < 0x110000
  omega

/-- The four forms that the bytes of a character have. -/
inductive Form (c : Char) : List UInt8 → Prop where
  | one {a : UInt8} (hhigh : c.toNat < 0x80) (ha : a.toNat = c.toNat) : Form c [a]
  | two {a b : UInt8} (hlow : 0x80 ≤ c.toNat) (hhigh : c.toNat < 0x800) (ha : a.toNat = c.toNat / 64 + 0xC0)
      (hb : b.toNat = c.toNat % 64 + 0x80) : Form c [a, b]
  | three {a b d : UInt8} (hlow : 0x800 ≤ c.toNat) (hhigh : c.toNat < 0x10000)
      (ha : a.toNat = c.toNat / 4096 + 0xE0) (hb : b.toNat = c.toNat / 64 % 64 + 0x80)
      (hd : d.toNat = c.toNat % 64 + 0x80) : Form c [a, b, d]
  | four {a b d f : UInt8} (hlow : 0x10000 ≤ c.toNat) (hhigh : c.toNat < 0x110000)
      (ha : a.toNat = c.toNat / 262144 + 0xF0) (hb : b.toNat = c.toNat / 4096 % 64 + 0x80)
      (hd : d.toNat = c.toNat / 64 % 64 + 0x80) (hf : f.toNat = c.toNat % 64 + 0x80) : Form c [a, b, d, f]

theorem form (c : Char) : Form c (utf8EncodeChar c) := by
  have hlt : c.toNat < 0x110000 := toNat_lt c
  have hval : c.val.toNat = c.toNat := rfl
  unfold utf8EncodeChar
  simp only [hval]
  split
  · exact .one (by omega) (by simp; omega)
  split
  · exact .two (by omega) (by omega) (by simp; omega) (by simp; omega)
  split
  · exact .three (by omega) (by omega) (by simp; omega) (by simp; omega) (by simp; omega)
  · exact .four (by omega) hlt (by simp; omega) (by simp; omega) (by simp; omega) (by simp; omega)

theorem toNat_ofNat {n : Nat} (h : n.isValidChar) : (Char.ofNat n).toNat = n := by
  rw [Char.ofNat, dif_pos h]
  rfl

theorem exists_char {n : Nat} (h : n.isValidChar) : ∃ c : Char, c.toNat = n := ⟨Char.ofNat n, toNat_ofNat h⟩

/-! ### Inside a character -/

/-- Six more bits. -/
def pushed (bits : Nat) (b : UInt8) : Nat := bits * 64 + (b.toNat - 0x80)

/-- The number that is spelled by the bits so far and by these bytes. -/
def number (bits : Nat) (bytes : List UInt8) : Nat := bytes.foldl pushed bits

theorem number_cons (bits : Nat) (b : UInt8) (rest : List UInt8) :
    number bits (b :: rest) = number (pushed bits b) rest := List.foldl_cons ..

/-- A byte behind the second of a character. -/
def Follows (b : UInt8) : Prop := 0x80 ≤ b.toNat ∧ b.toNat ≤ 0xBF

/-- As many bytes as are expected, the first of them in its range. -/
def Completes (low high more : Nat) : List UInt8 → Prop
  | [] => False
  | b :: rest => (low ≤ b.toNat ∧ b.toNat ≤ high) ∧ rest.length = more ∧ ∀ x ∈ rest, Follows x

theorem completes_zero : Completes low high 0 bytes ↔ ∃ x, bytes = [x] ∧ low ≤ x.toNat ∧ x.toNat ≤ high := by
  obtain _ | ⟨x, _ | ⟨y, rest⟩⟩ := bytes <;> simp [Completes]

theorem completes_one : Completes low high 1 bytes ↔
    ∃ x y, bytes = [x, y] ∧ (low ≤ x.toNat ∧ x.toNat ≤ high) ∧ Follows y := by
  obtain _ | ⟨x, _ | ⟨y, _ | ⟨z, rest⟩⟩⟩ := bytes <;> simp [Completes, and_assoc]

theorem completes_two : Completes low high 2 bytes ↔
    ∃ x y z, bytes = [x, y, z] ∧ (low ≤ x.toNat ∧ x.toNat ≤ high) ∧ Follows y ∧ Follows z := by
  obtain _ | ⟨x, _ | ⟨y, _ | ⟨z, _ | ⟨w, rest⟩⟩⟩⟩ := bytes <;> simp [Completes, and_assoc]

/-- The part is open: behind it the bytes that are expected, and no others, complete a character. -/
structure Opens (part : List UInt8) (bits low high more : Nat) : Prop where
  complete : ∀ bytes, Completes low high more bytes →
    ∃ c : Char, utf8EncodeChar c = part ++ bytes ∧ c.toNat = number bits bytes
  completes : ∀ c bytes, utf8EncodeChar c = part ++ bytes → Completes low high more bytes
  range : low ≤ high ∧ high ≤ 0xBF

/-- **One more byte in its range** leaves the part open, if more are expected. -/
theorem Opens.next (h : Opens part bits low high (more + 1)) (hb : low ≤ b.toNat ∧ b.toNat ≤ high) :
    Opens (part ++ [b]) (pushed bits b) 0x80 0xBF more := by
  refine ⟨fun bytes hbytes => ?_, fun c bytes hc => ?_, by decide, by decide⟩
  · cases bytes with
    | nil => exact hbytes.elim
    | cons x rest =>
      rw [Completes] at hbytes
      obtain ⟨hx, hlength, hrest⟩ := hbytes
      have hall : Completes low high (more + 1) (b :: x :: rest) :=
        ⟨hb, by rw [List.length_cons, hlength], List.forall_mem_cons.mpr ⟨hx, hrest⟩⟩
      obtain ⟨c, hc, hnumber⟩ := h.complete _ hall
      exact ⟨c, hc.trans (List.append_assoc part [b] (x :: rest)).symm, hnumber.trans (number_cons ..)⟩
  · rw [List.append_assoc] at hc
    obtain ⟨-, hlength, hrest⟩ := h.completes c _ hc
    cases bytes with
    | nil => cases hlength
    | cons x rest =>
      obtain ⟨hx, hrest⟩ := List.forall_mem_cons.mp hrest
      exact ⟨hx, Nat.succ.inj hlength, hrest⟩

theorem opens_two (hb : 0xC2 ≤ b.toNat ∧ b.toNat ≤ 0xDF) (hbits : bits + 0xC0 = b.toNat) :
    Opens [b] bits 0x80 0xBF 0 := by
  refine ⟨fun bytes hbytes => ?_, fun c bytes hc => ?_, by decide, by decide⟩
  · obtain ⟨x, rfl, hx⟩ := completes_zero.mp hbytes
    have hnumber : number bits [x] = bits * 64 + (x.toNat - 0x80) := rfl
    obtain ⟨c, hc⟩ : ∃ c : Char, c.toNat = number bits [x] := exists_char (.inl (by omega))
    have hform := form c
    refine ⟨c, ?_, hc⟩
    generalize utf8EncodeChar c = bytes at hform ⊢
    cases hform with
    | @two a d hlow hhigh ha hd =>
      obtain rfl : a = b := UInt8.toNat_inj.mp (by omega)
      obtain rfl : d = x := UInt8.toNat_inj.mp (by omega)
      rfl
    | one | three | four => omega
  · have hform := form c
    rw [hc] at hform
    cases hform with
    | two => exact completes_zero.mpr ⟨_, rfl, by omega⟩
    | one | three | four => omega

/-- The second byte keeps shorter forms and surrogates out. -/
theorem opens_three (hb : 0xE0 ≤ b.toNat ∧ b.toNat ≤ 0xEF) (hbits : bits + 0xE0 = b.toNat)
    (hrange : ∀ n, low ≤ n ∧ n ≤ high ↔ (0x80 ≤ n ∧ n ≤ 0xBF) ∧ (b.toNat = 0xE0 → 0xA0 ≤ n) ∧
      (b.toNat = 0xED → n ≤ 0x9F)) : Opens [b] bits low high 1 := by
  refine ⟨fun bytes hbytes => ?_, fun c bytes hc => ?_, ?_⟩
  · obtain ⟨x, y, rfl, hx, hy⟩ := completes_one.mp hbytes
    rw [hrange] at hx
    rw [Follows] at hy
    have hnumber : number bits [x, y] = (bits * 64 + (x.toNat - 0x80)) * 64 + (y.toNat - 0x80) := rfl
    obtain ⟨c, hc⟩ : ∃ c : Char, c.toNat = number bits [x, y] := exists_char (by rw [Nat.isValidChar]; omega)
    have hform := form c
    refine ⟨c, ?_, hc⟩
    generalize utf8EncodeChar c = bytes at hform ⊢
    cases hform with
    | @three a d f hlow hhigh ha hd hf =>
      obtain rfl : a = b := UInt8.toNat_inj.mp (by omega)
      obtain rfl : d = x := UInt8.toNat_inj.mp (by omega)
      obtain rfl : f = y := UInt8.toNat_inj.mp (by omega)
      rfl
    | one | two | four => omega
  · have hvalid : c.toNat.isValidChar := c.valid
    rw [Nat.isValidChar] at hvalid
    have hform := form c
    rw [hc] at hform
    cases hform with
    | three => exact completes_one.mpr ⟨_, _, rfl, (hrange _).mpr (by omega), by rw [Follows]; omega⟩
    | one | two | four => omega
  · have hfirst := hrange 0x80
    have hmiddle := hrange 0xA0
    have hlast := hrange high
    omega

/-- The second byte keeps shorter forms and numbers beyond all characters out. -/
theorem opens_four (hb : 0xF0 ≤ b.toNat ∧ b.toNat ≤ 0xF4) (hbits : bits + 0xF0 = b.toNat)
    (hrange : ∀ n, low ≤ n ∧ n ≤ high ↔ (0x80 ≤ n ∧ n ≤ 0xBF) ∧ (b.toNat = 0xF0 → 0x90 ≤ n) ∧
      (b.toNat = 0xF4 → n ≤ 0x8F)) : Opens [b] bits low high 2 := by
  refine ⟨fun bytes hbytes => ?_, fun c bytes hc => ?_, ?_⟩
  · obtain ⟨x, y, z, rfl, hx, hy, hz⟩ := completes_two.mp hbytes
    rw [hrange] at hx
    rw [Follows] at hy hz
    have hnumber : number bits [x, y, z] =
        ((bits * 64 + (x.toNat - 0x80)) * 64 + (y.toNat - 0x80)) * 64 + (z.toNat - 0x80) := rfl
    obtain ⟨c, hc⟩ : ∃ c : Char, c.toNat = number bits [x, y, z] :=
      exists_char (by rw [Nat.isValidChar]; omega)
    have hform := form c
    refine ⟨c, ?_, hc⟩
    generalize utf8EncodeChar c = bytes at hform ⊢
    cases hform with
    | @four a d f g hlow hhigh ha hd hf hg =>
      obtain rfl : a = b := UInt8.toNat_inj.mp (by omega)
      obtain rfl : d = x := UInt8.toNat_inj.mp (by omega)
      obtain rfl : f = y := UInt8.toNat_inj.mp (by omega)
      obtain rfl : g = z := UInt8.toNat_inj.mp (by omega)
      rfl
    | one | two | three => omega
  · have hform := form c
    rw [hc] at hform
    cases hform with
    | four =>
      exact completes_two.mpr ⟨_, _, _, rfl, (hrange _).mpr (by omega), by rw [Follows]; omega, by
        rw [Follows]; omega⟩
    | one | two | three => omega
  · have hfirst := hrange 0x80
    have hmiddle := hrange 0x90
    have hlast := hrange high
    omega

/-- **The table of first bytes** is that of the bytes that open a character. -/
theorem opens_lead {e : Expect} (h : lead b.toNat = some (bits, e)) : Opens [b] bits e.low e.high e.more := by
  unfold lead at h
  split at h
  · obtain ⟨rfl, rfl⟩ := Prod.mk.inj (Option.some.inj h)
    exact opens_two ‹_› (by omega)
  -- in a row of one byte the range is narrower at one end, in the others it is whole
  iterate 3
    split at h
    · obtain ⟨rfl, rfl⟩ := Prod.mk.inj (Option.some.inj h)
      exact opens_three (by omega) (by omega) (fun n => by simp only; omega)
  iterate 3
    split at h
    · obtain ⟨rfl, rfl⟩ := Prod.mk.inj (Option.some.inj h)
      exact opens_four (by omega) (by omega) (fun n => by simp only; omega)
  cases h

/-! ### The decoder on a character -/

theorem utf8EncodeChar_ne_nil (c : Char) : utf8EncodeChar c ≠ [] := by
  obtain ⟨before, last, hc⟩ := utf8EncodeChar_concat c
  exact hc ▸ List.append_ne_nil_of_right_ne_nil _ (List.cons_ne_nil _ _)

theorem eq_of_utf8EncodeChar_eq {d : Char} (h : utf8EncodeChar c = utf8EncodeChar d) : c = d := by
  have hdecode (c : Char) : decode? (utf8EncodeChar c) = some (String.ofList [c]) := by
    have hc := decode?_encode (String.ofList [c])
    rwa [encode_ofList, List.flatMap_singleton] at hc
  have hlists : String.ofList [c] = String.ofList [d] :=
    Option.some.inj ((hdecode c).symm.trans ((congrArg decode? h).trans (hdecode d)))
  exact (List.cons.inj (String.ofList_injective hlists)).1

theorem lossy_last (hb : low ≤ b.toNat ∧ b.toNat ≤ high) (rest : List UInt8) :
    lossy (some (bits, ⟨low, high, 0⟩)) (b :: rest) = Char.ofNat (pushed bits b) :: lossy none rest := by
  rw [lossy, if_pos hb]
  rfl

theorem lossy_next (hb : low ≤ b.toNat ∧ b.toNat ≤ high) (rest : List UInt8) :
    lossy (some (bits, ⟨low, high, more + 1⟩)) (b :: rest) =
      lossy (some (pushed bits b, ⟨0x80, 0xBF, more⟩)) rest := by
  rw [lossy, if_pos hb]
  rfl

theorem lossy_other (hb : ¬ (low ≤ b.toNat ∧ b.toNat ≤ high)) (rest : List UInt8) :
    lossy (some (bits, ⟨low, high, more⟩)) (b :: rest) = replacement :: lossy none (b :: rest) := if_neg hb

/-- The bytes that are expected are read as the number that they spell. -/
theorem lossy_completes (h : Completes low high more bytes) (bits : Nat) (rest : List UInt8) :
    lossy (some (bits, ⟨low, high, more⟩)) (bytes ++ rest) =
      Char.ofNat (number bits bytes) :: lossy none rest := by
  induction more generalizing bits low high bytes with
  | zero =>
    obtain ⟨x, rfl, hx⟩ := completes_zero.mp h
    exact lossy_last hx rest
  | succ more ih =>
    obtain _ | ⟨x, _ | ⟨y, tail⟩⟩ := bytes
    · exact h.elim
    · cases h.2.1
    · rw [Completes] at h
      obtain ⟨hx, hlength, htail⟩ := h
      obtain ⟨hy, htail⟩ := List.forall_mem_cons.mp htail
      have hmore : Completes 0x80 0xBF more (y :: tail) := ⟨hy, Nat.succ.inj hlength, htail⟩
      rw [List.cons_append, lossy_next hx, number_cons]
      exact ih hmore (pushed bits x)

/-- What starts a character starts it in the table, too. -/
theorem exists_lead (h : utf8EncodeChar c = b :: rest) (hb : ¬ b.toNat < 0x80) :
    ∃ bits e, lead b.toNat = some (bits, e) := by
  have hrange : 0xC2 ≤ b.toNat ∧ b.toNat ≤ 0xF4 := by
    have hform := form c
    rw [h] at hform
    cases hform <;> omega
  unfold lead
  repeat' split
  all_goals first
    | exact ⟨_, _, rfl⟩
    | omega

/-- **A character is read as what it is**, whatever comes behind it. -/
theorem lossy_char (c : Char) (rest : List UInt8) :
    lossy none (utf8EncodeChar c ++ rest) = c :: lossy none rest := by
  obtain ⟨b, tail, hc⟩ := List.exists_cons_of_ne_nil (utf8EncodeChar_ne_nil c)
  by_cases hb : b.toNat < 0x80
  · have hform := form c
    rw [hc] at hform
    cases hform with
    | one hhigh ha =>
      rw [hc, List.singleton_append, lossy, start, if_pos hb, ha, Char.ofNat_toNat]
      rfl
    | two | three | four => omega
  · obtain ⟨bits, e, hlead⟩ := exists_lead hc hb
    have hopens := opens_lead hlead
    have htail := hopens.completes c tail hc
    obtain ⟨d, hd, hnumber⟩ := hopens.complete tail htail
    obtain rfl : d = c := eq_of_utf8EncodeChar_eq (hd.trans hc.symm)
    rw [hc, List.cons_append, lossy, start, if_neg hb, hlead]
    exact (lossy_completes htail bits rest).trans (by rw [← hnumber, Char.ofNat_toNat])

/-- No character's bytes go on as those of another. -/
theorem eq_nil_of_utf8EncodeChar_eq {d : Char} (h : utf8EncodeChar d = utf8EncodeChar c ++ bytes) :
    bytes = [] := by
  have hd := lossy_char d []
  rw [List.append_nil, h, lossy_char] at hd
  obtain ⟨rfl, -⟩ := List.cons.inj hd
  exact List.append_right_eq_self.mp h.symm

/-! ### The part in front -/

theorem Opens.exists_char (h : Opens part bits low high more) :
    ∃ c bytes, utf8EncodeChar c = part ++ bytes ∧ bytes ≠ [] := by
  obtain ⟨hlow, hhigh⟩ := h.range
  have hfirst : (UInt8.ofNat low).toNat = low := UInt8.toNat_ofNat_of_lt' (by simp only [UInt8.size]; omega)
  have hall : Completes low high more (UInt8.ofNat low :: List.replicate more 0x80) := by
    refine ⟨by rw [hfirst]; omega, List.length_replicate, fun x hx => ?_⟩
    rw [List.eq_of_mem_replicate hx]
    exact ⟨by decide, by decide⟩
  obtain ⟨c, hc, -⟩ := h.complete _ hall
  exact ⟨c, _, hc, List.cons_ne_nil _ _⟩

/-- A part that is open breaks off where nothing comes that completes it. -/
theorem Opens.broken (h : Opens part bits low high more) (hne : part ≠ [])
    (hrest : ∀ b, rest.head? = some b → ¬ (low ≤ b.toNat ∧ b.toNat ≤ high)) : Broken part rest := by
  have hlongest : ∀ b, rest.head? = some b → ¬ Begins (part ++ [b]) := by
    intro b hb hbegins
    obtain ⟨c, tail, hc⟩ := hbegins
    rw [List.append_assoc] at hc
    exact hrest b hb (h.completes c _ hc.symm).1
  obtain ⟨d, bytes, hd, hbytes⟩ := h.exists_char
  refine ⟨fun c hc => ?_, .inr ⟨hne, d, bytes, hd.symm⟩, hlongest⟩
  obtain ⟨tail, htail⟩ := hc
  obtain ⟨more, hpart, -⟩ | ⟨more, hchar, hrest'⟩ := List.append_eq_append_iff.mp htail
  · rw [hpart, List.append_assoc] at hd
    exact hbytes (List.append_eq_nil_iff.mp (eq_nil_of_utf8EncodeChar_eq hd)).2
  · cases more with
    | nil =>
      rw [List.append_nil] at hchar
      rw [← hchar] at hd
      exact hbytes (eq_nil_of_utf8EncodeChar_eq hd)
    | cons b more => exact hrest b (by rw [hrest']; rfl) (h.completes c _ hchar).1

/-- What stands first, and what is decoded of it. -/
inductive First (state : Option (Nat × Expect)) (part rest : List UInt8) : Prop where
  | char (c : Char) (tail : List UInt8) (hbytes : part ++ rest = utf8EncodeChar c ++ tail)
      (hlossy : lossy state rest = c :: lossy none tail)
  | broken (front tail : List UInt8) (hbytes : part ++ rest = front ++ tail) (hfront : Broken front tail)
      (hlossy : lossy state rest = Char.ofNat 0xFFFD :: lossy none tail)

/-- **Behind a part that is open** the character is completed, or it breaks off. -/
theorem Opens.first (h : Opens part bits low high more) (hne : part ≠ []) (rest : List UInt8) :
    First (some (bits, ⟨low, high, more⟩)) part rest := by
  induction rest generalizing part bits low high more with
  | nil => exact .broken part [] rfl (h.broken hne nofun) rfl
  | cons b rest ih =>
    by_cases hb : low ≤ b.toNat ∧ b.toNat ≤ high
    · cases more with
      | zero =>
        obtain ⟨c, hc, hnumber⟩ := h.complete [b] (completes_zero.mpr ⟨b, rfl, hb⟩)
        refine .char c rest (by rw [hc, List.append_assoc, List.singleton_append]) ?_
        rw [lossy_last hb, show pushed bits b = c.toNat from hnumber.symm, Char.ofNat_toNat]
      | succ more =>
        have hsplit : part ++ b :: rest = part ++ [b] ++ rest := List.append_cons part b rest
        cases ih (h.next hb) (List.append_ne_nil_of_right_ne_nil _ (List.cons_ne_nil _ _)) with
        | char c tail hbytes hlossy =>
          exact .char c tail (hsplit.trans hbytes) ((lossy_next hb rest).trans hlossy)
        | broken front tail hbytes hfront hlossy =>
          exact .broken front tail (hsplit.trans hbytes) hfront ((lossy_next hb rest).trans hlossy)
    · have hrest : ∀ x, (b :: rest).head? = some x → ¬ (low ≤ x.toNat ∧ x.toNat ≤ high) := by
        intro x hx
        obtain rfl : b = x := Option.some.inj hx
        exact hb
      exact .broken part (b :: rest) rfl (h.broken hne hrest) (lossy_other hb rest)

/-- **What stands first in any bytes.** -/
theorem first (b : UInt8) (rest : List UInt8) : First none [] (b :: rest) := by
  by_cases hb : b.toNat < 0x80
  · obtain ⟨c, hc⟩ : ∃ c : Char, c.toNat = b.toNat := exists_char (.inl (by omega))
    have hform : utf8EncodeChar c = [b] := by rw [utf8EncodeChar_ascii (hc ▸ hb), hc, UInt8.ofNat_toNat]
    have hlossy := lossy_char c rest
    rw [hform] at hlossy
    exact .char c rest (by rw [hform]; rfl) hlossy
  cases hlead : lead b.toNat with
  | some opened =>
    obtain ⟨bits, e⟩ := opened
    have hstart : lossy none (b :: rest) = lossy (some (bits, e)) rest := by
      rw [lossy, start, if_neg hb, hlead]
      rfl
    cases (opens_lead hlead).first (List.cons_ne_nil b []) rest with
    | char c tail hbytes hlossy => exact .char c tail hbytes (hstart.trans hlossy)
    | broken front tail hbytes hfront hlossy => exact .broken front tail hbytes hfront (hstart.trans hlossy)
  | none =>
    have hnone : ∀ c tail, utf8EncodeChar c ≠ b :: tail := by
      intro c tail hc
      obtain ⟨bits, e, hsome⟩ := exists_lead hc hb
      cases hlead.symm.trans hsome
    have hbroken : Broken [b] rest := by
      refine ⟨fun c hc => ?_, .inl ⟨b, rfl⟩, fun x _ hbegins => ?_⟩
      · obtain ⟨a, tail, hform⟩ := List.exists_cons_of_ne_nil (utf8EncodeChar_ne_nil c)
        rw [hform, List.singleton_append, List.cons_prefix_cons] at hc
        exact hnone c tail (hc.1 ▸ hform)
      · obtain ⟨c, tail, hc⟩ := hbegins
        exact hnone c _ hc.symm
    refine .broken [b] rest rfl hbroken ?_
    rw [lossy, start, if_neg hb, hlead]
    rfl

/-! ### The whole -/

/-- What is decoded is shown. -/
theorem shows_lossy (bytes : List UInt8) : Shows bytes (lossy none bytes) := by
  match bytes with
  | [] => exact .nil
  | b :: rest =>
    -- what stands first takes a byte at least, so less is left
    cases first b rest with
    | char c tail hbytes hlossy =>
      have hfull : b :: rest = utf8EncodeChar c ++ tail := hbytes
      have hpos := List.length_pos_iff.mpr (utf8EncodeChar_ne_nil c)
      have hless : tail.length < (b :: rest).length := by
        rw [hfull, List.length_append]
        omega
      rw [hlossy, hfull]
      exact .char c (shows_lossy tail)
    | broken front tail hbytes hfront hlossy =>
      have hfull : b :: rest = front ++ tail := hbytes
      have hpos := List.length_pos_iff.mpr hfront.ne_nil
      have hless : tail.length < (b :: rest).length := by
        rw [hfull, List.length_append]
        omega
      rw [hlossy, hfull]
      exact .broken hfront (shows_lossy tail)
termination_by bytes.length
decreasing_by all_goals exact hless

/-- **Decoding gives what the bytes show**, and nothing else. -/
theorem shows_iff {cs : List Char} : Shows bytes cs ↔ lossy none bytes = cs := by
  refine ⟨fun h => ?_, fun h => h ▸ shows_lossy bytes⟩
  induction h with
  | nil => rfl
  | char c h ih => rw [lossy_char, ih]
  | @broken part rest cs hpart h ih =>
    obtain ⟨b, tail, hbytes⟩ : ∃ b tail, part ++ rest = b :: tail :=
      List.exists_cons_of_ne_nil (List.append_ne_nil_of_left_ne_nil hpart.ne_nil rest)
    rw [hbytes]
    cases first b tail with
    | char c left hleft => exact absurd ⟨left, (hbytes.trans hleft).symm⟩ (hpart.not_char c)
    | broken front left hleft hfront hlossy =>
      obtain ⟨rfl, rfl⟩ := hpart.unique hfront (hbytes.trans hleft)
      rw [hlossy, ih]

theorem decodeLossy_eq_iff {s : String} : decodeLossy bytes = s ↔ Shows bytes s.toList := by
  rw [shows_iff, decodeLossy, ← String.toList_inj, String.toList_ofList]

/-- A text that was encoded comes back, as it does where only texts are taken. -/
theorem decodeLossy_encode (s : String) : decodeLossy (encode s) = s := by
  rw [decodeLossy_eq_iff, encode_eq]
  induction s.toList with
  | nil => exact .nil
  | cons c rest ih => exact .char c ih

/-- A byte that starts nothing, a character that is cut off, and three bytes that would be a surrogate. -/
example : (decodeLossy [0xFF, 0x61, 0xE2, 0x82, 0x62, 0xED, 0xA0, 0x80]).toList.map Char.toNat =
    [0xFFFD, 0x61, 0xFFFD, 0x62, 0xFFFD, 0xFFFD, 0xFFFD] := by decide

end Pickaxe.Text.Utf8
