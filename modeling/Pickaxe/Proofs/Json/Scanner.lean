import Pickaxe.Json.Scanner
import Pickaxe.Json.Writer
import Pickaxe.Proofs.Text.Utf8

/-! What the scanner makes of texts and integers as the writer writes them: an escaped text leaves
it with the glyphs of the text (`run_text`), digits with their numeral (`run_int`). What any byte can
make of it is said once (`stepped_step`). -/
namespace Pickaxe.Json

open Text

/-! ### Running the scanner -/

namespace Scanner

theorem run_cons (s : Scanner) (b : UInt8) (rest : List UInt8) :
    s.run (b :: rest) = (s.step b).bind (·.run rest) := rfl

theorem run_append (s : Scanner) (a b : List UInt8) : s.run (a ++ b) = (s.run a).bind (·.run b) :=
  List.foldlM_append

/-- Nothing happens at a blank where a value, a key, a colon or the end of one may stand. -/
def Waits : Mode → Prop
  | .value | .firstItem | .key | .firstKey | .colon _ | .after => True
  | .word .. | .string .. | .number .. => False

theorem run_blanks {mode : Mode} (hmode : Waits mode) {blanks : List UInt8}
    (hblanks : ∀ b ∈ blanks, isSpace b = true) (stack : List Open) (root : Option Document) :
    (⟨stack, mode, root⟩ : Scanner).run blanks = some ⟨stack, mode, root⟩ := by
  induction blanks with
  | nil => rfl
  | cons b rest ih =>
    have hb : isSpace b = true := hblanks b (List.mem_cons_self ..)
    have hstep : (⟨stack, mode, root⟩ : Scanner).step b = some ⟨stack, mode, root⟩ := by
      cases mode <;> first | exact hmode.elim | simp [step, next, hb]
    rw [run_cons, hstep]
    exact ih fun c hc => hblanks c (List.mem_cons_of_mem b hc)

/-! ### What a byte can do -/

/-- What a byte can make of the scanner. The letters of a word are those that were left, or those of a word
that has just begun. -/
inductive Stepped (s : Scanner) : Scanner → Prop where
  | stays : Stepped s s
  | ends (d : Document) (stack : List Open) : Stepped s (finish d stack)
  | goesOn {stack : List Open} {mode : Mode}
      (hword : ∀ left v, mode = .word left v →
        (∃ c, s.mode = .word (c :: left) v) ∨ ∀ b ∈ left, isSpace b = false) :
    Stepped s ⟨stack, mode, none⟩

section
variable {s s' : Scanner} {b : UInt8}

theorem stepped_begin {stack : List Open} (h : begin stack b = some s') : Stepped s s' := by
  unfold begin at h
  repeat' split at h
  all_goals cases h
  all_goals
    refine .goesOn fun left v hmode => .inr ?_
    cases hmode
  all_goals simp [isSpace]

theorem next_cases (h : s.next b = some s') : (isSpace b = true ∧ s' = s) ∨
    (∃ d stack, s' = finish d stack) ∨ ∃ stack, s' = ⟨stack, .value, none⟩ ∨ s' = ⟨stack, .key, none⟩ := by
  unfold next at h
  split at h
  · rename_i hspace
    cases h
    exact .inl ⟨hspace, rfl⟩
  · repeat' split at h
    all_goals cases h
    · exact .inr (.inr ⟨_, .inl rfl⟩)
    · exact .inr (.inl ⟨_, _, rfl⟩)
    · exact .inr (.inr ⟨_, .inr rfl⟩)
    · exact .inr (.inl ⟨_, _, rfl⟩)

/-- Behind a value that is not `s`, a byte that is no blank. -/
theorem stepped_next {t : Scanner} (h : t.next b = some s') (hstays : isSpace b = true → Stepped s t) :
    Stepped s s' := by
  obtain ⟨hspace, rfl⟩ | ⟨d, stack, rfl⟩ | ⟨stack, rfl | rfl⟩ := next_cases h
  · exact hstays hspace
  · exact .ends d stack
  · exact .goesOn nofun
  · exact .goesOn nofun

theorem stepped_inString {stack : List Open} {isKey : Bool} {glyphs : List Glyph} {escape : Escape}
    (h : inString stack isKey glyphs escape b = some s') : Stepped s s' := by
  unfold inString at h
  cases escape with
  | none =>
    simp only at h
    repeat' split at h
    all_goals cases h
    all_goals first
      | exact .ends _ _
      | exact .goesOn nofun
  | started =>
    simp only at h
    split at h
    · cases h
      exact .goesOn nofun
    · obtain ⟨c, -, rfl⟩ := Option.map_eq_some_iff.mp h
      exact .goesOn nofun
  | code due value =>
    obtain ⟨d, -, rfl⟩ := Option.map_eq_some_iff.mp h
    cases due <;> exact .goesOn nofun

theorem stepped_step (h : s.step b = some s') : Stepped s s' := by
  obtain ⟨stack, mode, root⟩ := s
  -- no blank closes a container
  have hclose {b : UInt8} {stays : Prop} (hb : b = 0x5D ∨ b = 0x7D) : isSpace b = true → stays := by
    intro hspace
    obtain rfl | rfl := hb <;> cases hspace
  cases mode with
  | value =>
    simp only [step] at h
    split at h
    · cases h
      exact .stays
    · exact stepped_begin h
  | firstItem =>
    simp only [step] at h
    split at h
    · cases h
      exact .stays
    · split at h
      · exact stepped_next h (hclose (.inl ‹_›))
      · exact stepped_begin h
  | key =>
    simp only [step] at h
    repeat' split at h
    all_goals cases h
    · exact .stays
    · exact .goesOn nofun
  | firstKey =>
    simp only [step] at h
    repeat' split at h
    · cases h
      exact .stays
    · exact stepped_next h (hclose (.inr ‹_›))
    · cases h
      exact .goesOn nofun
    · cases h
  | colon key =>
    simp only [step] at h
    repeat' split at h
    · cases h
      exact .stays
    · unfold name at h
      split at h
      · cases h
        exact .goesOn nofun
      · cases h
    · cases h
  | after => exact stepped_next h fun _ => .stays
  | word left v =>
    cases left with
    | nil => cases h
    | cons c left =>
      simp only [step] at h
      repeat' split at h
      all_goals cases h
      · exact .ends _ _
      · refine .goesOn fun rest v' hmode => .inl ⟨c, ?_⟩
        cases hmode
        rfl
  | string isKey glyphs escape => exact stepped_inString h
  | number part n =>
    simp only [step] at h
    split at h
    · cases h
      exact .goesOn nofun
    · obtain ⟨n', -, hnext⟩ := Option.bind_eq_some_iff.mp h
      exact stepped_next hnext fun _ => .ends _ _

end

/-! ### Strings -/

/-- The glyphs that a written character is read as. -/
def glyphsOf (c : Char) : List Glyph :=
  if c.toNat < 0x20 ∧ c.toNat ≠ 0x08 ∧ c.toNat ≠ 0x0C ∧ c ≠ '\n' ∧ c ≠ '\r' ∧ c ≠ '\t' then
    [.unit (UInt16.ofNat c.toNat)]
  else (String.utf8EncodeChar c).map .byte

/-- A digit in base sixteen. -/
def hexByte (d : Nat) : UInt8 := UInt8.ofNat (if d < 10 then 0x30 + d else 0x57 + d)

theorem hexDigit?_hexByte : ∀ d < 16, hexDigit? (hexByte d) = some d := by
  decide

theorem encode_unicodeEscape : ∀ n < 0x20,
    (unicodeEscape n).flatMap String.utf8EncodeChar =
      [0x5C, 0x75, 0x30, 0x30, hexByte (n / 16), hexByte (n % 16)] := by
  decide +kernel

/-- A byte that stands for itself in a string. -/
def Plain (b : UInt8) : Prop := b ≠ 0x22 ∧ b ≠ 0x5C ∧ ¬ b < 0x20

variable (stack : List Open) (isKey : Bool) (glyphs : List Glyph)

theorem run_plain {bytes : List UInt8} (h : ∀ b ∈ bytes, Plain b) :
    (⟨stack, .string isKey glyphs .none, none⟩ : Scanner).run bytes =
      some ⟨stack, .string isKey ((bytes.map Glyph.byte).reverse ++ glyphs) .none, none⟩ := by
  induction bytes generalizing glyphs with
  | nil => rfl
  | cons b rest ih =>
    obtain ⟨hquote, hescape, hcontrol⟩ := h b (List.mem_cons_self ..)
    have hstep : (⟨stack, .string isKey glyphs .none, none⟩ : Scanner).step b =
        some ⟨stack, .string isKey (.byte b :: glyphs) .none, none⟩ := by
      simp [step, inString, hquote, hescape, hcontrol]
    rw [run_cons, hstep, Option.bind_some, ih _ fun c hc => h c (List.mem_cons_of_mem b hc)]
    simp

theorem run_code {a b : UInt8} {high low : Nat} (ha : hexDigit? a = some high)
    (hb : hexDigit? b = some low) :
    (⟨stack, .string isKey glyphs .none, none⟩ : Scanner).run [0x5C, 0x75, 0x30, 0x30, a, b] =
      some ⟨stack, .string isKey (.unit (UInt16.ofNat (high * 16 + low)) :: glyphs) .none,
        none⟩ := by
  have hzeros : (⟨stack, .string isKey glyphs .none, none⟩ : Scanner).run [0x5C, 0x75, 0x30, 0x30] =
    some ⟨stack, .string isKey glyphs (.code 1 0), none⟩ := rfl
  have hhigh : (⟨stack, .string isKey glyphs (.code 1 0), none⟩ : Scanner).step a =
      some ⟨stack, .string isKey glyphs (.code 0 high), none⟩ := by
    simp [step, inString, ha]
  have hlow : (⟨stack, .string isKey glyphs (.code 0 high), none⟩ : Scanner).step b =
      some ⟨stack, .string isKey (.unit (UInt16.ofNat (high * 16 + low)) :: glyphs) .none,
        none⟩ := by
    simp [step, inString, hb]
  rw [show [0x5C, 0x75, 0x30, 0x30, a, b] = [0x5C, 0x75, 0x30, 0x30] ++ [a, b] from rfl, run_append,
    hzeros, Option.bind_some, run_cons, hhigh, Option.bind_some, run_cons, hlow]
  rfl

/-- No character but those with a short escape and the control characters is escaped. -/
theorem plain_of_mem_utf8EncodeChar {c : Char} (hquote : c ≠ '"') (hescape : c ≠ '\\')
    (hcontrol : ¬ c.toNat < 0x20) : ∀ b ∈ String.utf8EncodeChar c, Plain b := by
  intro b hb
  by_cases hascii : c.toNat < 0x80
  · rw [Utf8.utf8EncodeChar_ascii hascii] at hb
    have hbyte : b.toNat = c.toNat := by
      rw [List.mem_singleton.mp hb, UInt8.toNat_ofNat']
      omega
    refine ⟨?_, ?_, ?_⟩
    · rintro rfl
      exact hquote (Char.toNat_inj.mp hbyte.symm)
    · rintro rfl
      exact hescape (Char.toNat_inj.mp hbyte.symm)
    · rw [UInt8.lt_iff_toNat_lt, hbyte]
      exact hcontrol
  · have hle : 0x80 ≤ b.toNat := Utf8.le_of_mem_utf8EncodeChar (Nat.not_lt.mp hascii) b hb
    refine ⟨?_, ?_, ?_⟩
    · rintro rfl
      exact absurd hle (by decide)
    · rintro rfl
      exact absurd hle (by decide)
    · rw [UInt8.lt_iff_toNat_lt]
      exact Nat.not_lt.mpr (Nat.le_trans (by decide) hle)

theorem run_escapeChar (c : Char) :
    (⟨stack, .string isKey glyphs .none, none⟩ : Scanner).run
        ((escapeChar c).flatMap String.utf8EncodeChar) =
      some ⟨stack, .string isKey ((glyphsOf c).reverse ++ glyphs) .none, none⟩ := by
  by_cases hquote : c = '"'
  · subst hquote
    rfl
  by_cases hescape : c = '\\'
  · subst hescape
    rfl
  by_cases hback : c.toNat = 0x08
  · obtain rfl : c = '\x08' := Char.toNat_inj.mp hback
    rfl
  by_cases hfeed : c.toNat = 0x0C
  · obtain rfl : c = '\x0C' := Char.toNat_inj.mp hfeed
    rfl
  by_cases hline : c = '\n'
  · subst hline
    rfl
  by_cases hreturn : c = '\r'
  · subst hreturn
    rfl
  by_cases htab : c = '\t'
  · subst htab
    rfl
  by_cases hcontrol : c.toNat < 0x20
  · have hescaped : escapeChar c = unicodeEscape c.toNat := by
      simp [escapeChar, hquote, hescape, hback, hfeed, hline, hreturn, htab, hcontrol]
    have hglyphs : glyphsOf c = [.unit (UInt16.ofNat c.toNat)] :=
      if_pos ⟨hcontrol, hback, hfeed, hline, hreturn, htab⟩
    have hcode := run_code stack isKey glyphs (hexDigit?_hexByte (c.toNat / 16) (by omega))
      (hexDigit?_hexByte (c.toNat % 16) (by omega))
    rw [Nat.div_add_mod'] at hcode
    rw [hescaped, encode_unicodeEscape c.toNat hcontrol, hcode, hglyphs]
    rfl
  · have hescaped : escapeChar c = [c] := by
      simp [escapeChar, hquote, hescape, hback, hfeed, hline, hreturn, htab, hcontrol]
    have hglyphs : glyphsOf c = (String.utf8EncodeChar c).map .byte :=
      if_neg fun h => hcontrol h.1
    have hplain := plain_of_mem_utf8EncodeChar hquote hescape hcontrol
    rw [hescaped, List.flatMap_singleton, run_plain stack isKey glyphs hplain, hglyphs]

theorem run_escapeChars (cs : List Char) :
    (⟨stack, .string isKey glyphs .none, none⟩ : Scanner).run
        ((cs.flatMap escapeChar).flatMap String.utf8EncodeChar) =
      some ⟨stack, .string isKey ((cs.flatMap glyphsOf).reverse ++ glyphs) .none, none⟩ := by
  induction cs generalizing glyphs with
  | nil => rfl
  | cons c rest ih =>
    rw [List.flatMap_cons, List.flatMap_append, run_append, run_escapeChar, Option.bind_some, ih]
    simp

end Scanner

/-- The glyphs that a written text is read as. -/
def glyphs (s : String) : List Glyph := s.toList.flatMap Scanner.glyphsOf

theorem encode_escaped (s : String) :
    Utf8.encode (escaped s) =
      0x22 :: (s.toList.flatMap escapeChar).flatMap String.utf8EncodeChar ++ [0x22] := by
  have hquote : String.utf8EncodeChar '"' = [0x22] := rfl
  rw [escaped, Utf8.encode_ofList, List.flatMap_append, List.flatMap_cons]
  simp [hquote]

namespace Scanner
/-- A written text up to its last quote. -/
theorem run_escaped (s : Scanner) (isKey : Bool) (text : String)
    (hstart : s.step 0x22 = some ⟨s.stack, .string isKey [] .none, none⟩) :
    s.run (Utf8.encode (escaped text)) =
      some (if isKey then ⟨s.stack, .colon (glyphs text), none⟩
        else finish (.text (glyphs text)) s.stack) := by
  rw [encode_escaped, List.cons_append, run_cons, hstart, Option.bind_some, run_append,
    run_escapeChars, List.append_nil]
  simp only [Option.bind_some, run_cons, step, inString, if_true, List.reverse_reverse]
  rfl

theorem run_text (stack : List Open) (text : String) :
    (⟨stack, .value, none⟩ : Scanner).run (Utf8.encode (escaped text)) =
      some (finish (.text (glyphs text)) stack) :=
  run_escaped ⟨stack, .value, none⟩ false text rfl

theorem run_key (stack : List Open) {mode : Mode} (hmode : mode = .key ∨ mode = .firstKey)
    (name : String) :
    (⟨stack, mode, none⟩ : Scanner).run (Utf8.encode (escaped name)) =
      some ⟨stack, .colon (glyphs name), none⟩ := by
  rcases hmode with rfl | rfl <;> exact run_escaped _ true name rfl

end Scanner

/-! ### Integers -/

/-- The decimal digits of a number. -/
def digits (n : Nat) : List Nat := (Nat.toDigits 10 n).map fun c => c.toNat - 48

/-- What a written integer is read as. -/
def numeral (n : Int) : Numeral := ⟨decide (n < 0), digits n.natAbs, [], none⟩

/-- A number of one digit is that digit; of any other the first digit is not zero. -/
theorem toDigits_cases (n : Nat) :
    n = 0 ∧ Nat.toDigits 10 n = ['0'] ∨
      ∃ d rest, 0 < d ∧ d < 10 ∧ Nat.toDigits 10 n = d.digitChar :: rest ∧
        ∀ c ∈ rest, c.isDigit = true := by
  induction n using Nat.strongRecOn with
  | ind n ih =>
    rw [Nat.toDigits_eq_if (by decide)]
    by_cases hn : n < 10
    · by_cases hzero : n = 0
      · subst hzero
        exact .inl ⟨rfl, rfl⟩
      · rw [if_pos hn]
        exact .inr ⟨n, [], Nat.pos_of_ne_zero hzero, hn, rfl, fun c hc => nomatch hc⟩
    · rw [if_neg hn]
      rcases ih (n / 10) (by omega) with ⟨hzero, -⟩ | ⟨d, rest, hpos, hd, heq, hrest⟩
      · omega
      · refine .inr ⟨d, rest ++ [(n % 10).digitChar], hpos, hd, by rw [heq]; rfl, ?_⟩
        intro c hc
        rcases List.mem_append.mp hc with hc | hc
        · exact hrest c hc
        · rw [List.mem_singleton.mp hc, Nat.isDigit_digitChar]
          exact decide_eq_true (Nat.mod_lt n (by decide))

namespace Scanner
/-- The byte of a digit. -/
def digitByte (c : Char) : UInt8 := UInt8.ofNat c.toNat

theorem encode_digit {c : Char} (hc : c.isDigit = true) :
    String.utf8EncodeChar c = [digitByte c] := by
  have hrange := Char.isDigit_iff_toNat.mp hc
  exact Utf8.utf8EncodeChar_ascii (Nat.lt_of_le_of_lt hrange.2 (by decide))

theorem digitByte_toNat {c : Char} (hc : c.isDigit = true) :
    (digitByte c).toNat = c.toNat ∧ 48 ≤ c.toNat ∧ c.toNat ≤ 57 := by
  have hrange : 48 ≤ c.toNat ∧ c.toNat ≤ 57 := Char.isDigit_iff_toNat.mp hc
  refine ⟨?_, hrange⟩
  rw [digitByte, UInt8.toNat_ofNat']
  omega

theorem isDigit_digitByte {c : Char} (hc : c.isDigit = true) : isDigit (digitByte c) = true := by
  obtain ⟨hbyte, hlow, hhigh⟩ := digitByte_toNat hc
  simp only [isDigit, Bool.and_eq_true, decide_eq_true_eq, UInt8.le_iff_toNat_le, hbyte]
  exact ⟨hlow, hhigh⟩

theorem digit_digitByte {c : Char} (hc : c.isDigit = true) :
    digit (digitByte c) = c.toNat - 48 := by
  rw [digit, (digitByte_toNat hc).1]

variable (stack : List Open)

/-- Digits after the first. -/
theorem run_digits (negative : Bool) (read : List Nat) {cs : List Char}
    (hcs : ∀ c ∈ cs, c.isDigit = true) :
    (⟨stack, .number .whole ⟨negative, read, [], none⟩, none⟩ : Scanner).run
        (cs.flatMap String.utf8EncodeChar) =
      some ⟨stack, .number .whole
        ⟨negative, (cs.map fun c => c.toNat - 48).reverse ++ read, [], none⟩, none⟩ := by
  induction cs generalizing read with
  | nil => rfl
  | cons c rest ih =>
    have hc : c.isDigit = true := hcs c (List.mem_cons_self ..)
    have hstep : (⟨stack, .number .whole ⟨negative, read, [], none⟩, none⟩ : Scanner).step
        (digitByte c) =
      some ⟨stack, .number .whole ⟨negative, (c.toNat - 48) :: read, [], none⟩, none⟩ := by
      simp only [step, extend, isDigit_digitByte hc, if_true, digit_digitByte hc]
    rw [List.flatMap_cons, encode_digit hc, List.singleton_append, run_cons, hstep,
      Option.bind_some, ih _ fun d hd => hcs d (List.mem_cons_of_mem c hd)]
    simp

/-- Where the digits of a number may start. -/
structure Opens (s : Scanner) (negative : Bool) : Prop where
  zero : s.step 0x30 = some ⟨s.stack, .number .zero ⟨negative, [0], [], none⟩, none⟩
  whole : ∀ d, 0 < d → d < 10 → s.step (digitByte d.digitChar) =
    some ⟨s.stack, .number .whole ⟨negative, [d], [], none⟩, none⟩

theorem opens_value : Opens ⟨stack, .value, none⟩ false where
  zero := rfl
  whole := fun d hpos hd => by
    obtain rfl | rfl | rfl | rfl | rfl | rfl | rfl | rfl | rfl : d = 1 ∨ d = 2 ∨ d = 3 ∨ d = 4 ∨
      d = 5 ∨ d = 6 ∨ d = 7 ∨ d = 8 ∨ d = 9 := by omega
    all_goals rfl

theorem opens_sign : Opens ⟨stack, .number .sign ⟨true, [], [], none⟩, none⟩ true where
  zero := rfl
  whole := fun d hpos hd => by
    obtain rfl | rfl | rfl | rfl | rfl | rfl | rfl | rfl | rfl : d = 1 ∨ d = 2 ∨ d = 3 ∨ d = 4 ∨
      d = 5 ∨ d = 6 ∨ d = 7 ∨ d = 8 ∨ d = 9 := by omega
    all_goals rfl

/-- A number read up to its last digit. -/
def Numbered (s : Scanner) (stack : List Open) (n : Numeral) : Prop :=
  ∃ part, (part = .zero ∨ part = .whole) ∧ s = ⟨stack, .number part n, none⟩

theorem run_nat {s : Scanner} {negative : Bool} (h : Opens s negative) (n : Nat) :
    ∃ s', s.run (Utf8.encode n.repr) = some s' ∧
      Numbered s' s.stack ⟨negative, (digits n).reverse, [], none⟩ := by
  rw [Utf8.encode_eq, Nat.toList_repr]
  rcases toDigits_cases n with ⟨rfl, -⟩ | ⟨d, rest, hpos, hd, heq, hrest⟩
  · refine ⟨_, ?_, .zero, .inl rfl, rfl⟩
    show (s.step 0x30).bind _ = _
    rw [h.zero]
    rfl
  · have hdigit : d.digitChar.isDigit = true := by
      rw [Nat.isDigit_digitChar]
      exact decide_eq_true hd
    have hvalue : d.digitChar.toNat - 48 = d := Nat.toNat_digitChar_sub_48_of_lt_ten hd
    refine ⟨_, ?_, .whole, .inr rfl, rfl⟩
    rw [digits, heq, List.flatMap_cons, encode_digit hdigit, List.singleton_append, run_cons,
      h.whole d hpos hd, Option.bind_some, run_digits _ _ _ hrest]
    simp [hvalue]

theorem run_int (n : Int) :
    ∃ s', (⟨stack, .value, none⟩ : Scanner).run (Utf8.encode (toString n)) = some s' ∧
      Numbered s' stack ⟨decide (n < 0), (digits n.natAbs).reverse, [], none⟩ := by
  rw [Int.toString_eq_repr, Int.repr_eq_if]
  by_cases hn : 0 ≤ n
  · have hnat : n.toNat = n.natAbs := by omega
    have hsign : decide (n < 0) = false := decide_eq_false (by omega)
    rw [if_pos hn, hnat, hsign]
    exact run_nat (opens_value stack) n.natAbs
  · have hnat : (-n).toNat = n.natAbs := by omega
    have hsign : decide (n < 0) = true := decide_eq_true (by omega)
    have hminus : Utf8.encode "-" = [0x2D] := rfl
    rw [if_neg hn, hnat, hsign, Utf8.encode_append, hminus, List.singleton_append, run_cons]
    exact run_nat (opens_sign stack) n.natAbs

end Scanner

end Pickaxe.Json
