import Pickaxe.Json.Decoder
import Pickaxe.Proofs.Json.Scanner

/-! What is read of what the writer writes.

Some bytes spell a document if the scanner, wherever it expects a value, takes them for that
document once something follows that ends a value (`Spells`). Written texts and integers spell
themselves, and members that spell make an object, with blanks between them or without
(`object_closes`). From what is spelled the decoders get back what was written. -/
namespace Pickaxe.Json

open Text

/-! ### Documents -/

namespace Scanner

/-- A byte that may follow a value. -/
def Ends (b : UInt8) : Prop := b = 0x2C ∨ b = 0x7D ∨ isSpace b = true

/-- The bytes are read as the document once something follows that ends a value. -/
def Spells (bytes : List UInt8) (d : Document) : Prop :=
  ∀ stack b rest, Ends b →
    (⟨stack, .value, none⟩ : Scanner).run (bytes ++ b :: rest) = (finish d stack).run (b :: rest)

/-- The bytes are read as the document, whatever follows. -/
def Closes (bytes : List UInt8) (d : Document) : Prop :=
  ∀ stack, (⟨stack, .value, none⟩ : Scanner).run bytes = some (finish d stack)

theorem Closes.spells {bytes : List UInt8} {d : Document} (h : Closes bytes d) :
    Spells bytes d := by
  intro stack b rest _
  rw [run_append, h stack]
  rfl

theorem finish_eq (d : Document) (stack : List Open) :
    finish d stack = ⟨(finish d stack).stack, .after, (finish d stack).root⟩ := by
  cases stack with
  | nil => rfl
  | cons top stack => cases top <;> rfl

theorem step_finish (d : Document) (stack : List Open) (b : UInt8) :
    (finish d stack).step b = (finish d stack).next b := by
  rw [finish_eq]
  rfl

theorem extend_none {part : NumeralPart} (hpart : part = .zero ∨ part = .whole) (n : Numeral)
    {b : UInt8} (hb : Ends b) : extend part n b = none := by
  have hdigit : isDigit b = false ∧ b ≠ 0x2E ∧ b ≠ 0x65 ∧ b ≠ 0x45 := by
    rcases hb with rfl | rfl | hspace
    · decide
    · decide
    · simp only [isSpace, Bool.or_eq_true, beq_iff_eq] at hspace
      obtain ((rfl | rfl) | rfl) | rfl := hspace <;> decide
  obtain ⟨hdigit, hpoint, hlower, hupper⟩ := hdigit
  rcases hpart with rfl | rfl <;>
    simp [extend, extend.fractionOrMark, hdigit, hpoint, hlower, hupper]

theorem spells_int (n : Int) : Spells (Utf8.encode (toString n)) (.number (numeral n)) := by
  intro stack b rest hb
  obtain ⟨s', hrun, part, hpart, rfl⟩ := run_int stack n
  have hended : ended part ⟨decide (n < 0), (digits n.natAbs).reverse, [], none⟩ =
      some (numeral n) := by
    rcases hpart with rfl | rfl <;> simp [ended, numeral]
  rw [run_append, hrun, Option.bind_some, run_cons, run_cons, step_finish]
  simp only [step, extend_none hpart _ hb, hended, Option.bind_some]

theorem closes_text (text : String) :
    Closes (Utf8.encode (escaped text)) (.text (glyphs text)) :=
  fun stack => run_text stack text

/-- The blanks of an object: before each member, after each colon, and before the end. -/
structure Layout where
  before : List UInt8
  after : List UInt8
  last : List UInt8
  before_blank : ∀ b ∈ before, isSpace b = true
  after_blank : ∀ b ∈ after, isSpace b = true
  last_blank : ∀ b ∈ last, isSpace b = true

namespace Layout

variable (l : Layout)

def member (name : String) (value : List UInt8) : List UInt8 :=
  l.before ++ (Utf8.encode (escaped name) ++ 0x3A :: (l.after ++ value))

/-- An object of these members, given by their names and the bytes of their values. -/
def object (members : List (String × List UInt8)) : List UInt8 :=
  0x7B :: ([0x2C].intercalate (members.map fun m => l.member m.1 m.2) ++ (l.last ++ [0x7D]))

variable (found : List (List Glyph × Document)) (stack : List Open)

theorem run_member {mode : Mode} (hmode : mode = .key ∨ mode = .firstKey) (key : List Glyph)
    (name : String) {value : List UInt8} {d : Document} (h : Spells value d) {b : UInt8}
    (hb : Ends b) (rest : List UInt8) :
    (⟨.object found key :: stack, mode, none⟩ : Scanner).run (l.member name value ++ b :: rest) =
      (⟨.object ((glyphs name, d) :: found) [] :: stack, .after, none⟩ : Scanner).run
        (b :: rest) := by
  have hwaits : Waits mode := by rcases hmode with rfl | rfl <;> trivial
  have hcolon : (⟨.object found key :: stack, .colon (glyphs name), none⟩ : Scanner).step 0x3A =
    some ⟨.object found (glyphs name) :: stack, .value, none⟩ := rfl
  rw [member, List.append_assoc, run_append, run_blanks hwaits l.before_blank, Option.bind_some,
    List.append_assoc, run_append, run_key _ hmode, Option.bind_some, List.cons_append, run_cons,
    hcolon, Option.bind_some, List.append_assoc, run_append,
    run_blanks (show Waits .value from trivial) l.after_blank, Option.bind_some, h _ _ _ hb]
  rfl

theorem run_last :
    (⟨.object found [] :: stack, .after, none⟩ : Scanner).run (l.last ++ [0x7D]) =
      some (finish (.object found.reverse) stack) := by
  rw [run_append, run_blanks (show Waits .after from trivial) l.last_blank]
  rfl

/-- What follows the last member ends its value. -/
theorem last_ends : ∃ b rest, l.last ++ [0x7D] = b :: rest ∧ Ends b := by
  cases hlast : l.last with
  | nil => exact ⟨0x7D, [], rfl, .inr (.inl rfl)⟩
  | cons b rest =>
    have hb : isSpace b = true := l.last_blank b (by rw [hlast]; exact List.mem_cons_self ..)
    exact ⟨b, rest ++ [0x7D], rfl, .inr (.inr hb)⟩

theorem run_members {mode : Mode} (hmode : mode = .key ∨ mode = .firstKey) (key : List Glyph)
    (m : String × List UInt8 × Document) (members : List (String × List UInt8 × Document))
    (h : ∀ m' ∈ m :: members, Spells m'.2.1 m'.2.2) :
    (⟨.object found key :: stack, mode, none⟩ : Scanner).run
        ([0x2C].intercalate ((m :: members).map fun m => l.member m.1 m.2.1) ++
          (l.last ++ [0x7D])) =
      some (finish (.object (found.reverse ++
        (m :: members).map fun m => (glyphs m.1, m.2.2))) stack) := by
  induction members generalizing m found mode key with
  | nil =>
    obtain ⟨b, rest, heq, hb⟩ := l.last_ends
    rw [List.map_singleton, List.intercalate_singleton, heq,
      l.run_member found stack hmode key m.1 (h m (List.mem_cons_self ..)) hb, ← heq, run_last]
    simp
  | cons next members ih =>
    have hcomma : ∀ found : List (List Glyph × Document),
        (⟨.object found [] :: stack, .after, none⟩ : Scanner).step 0x2C =
          some ⟨.object found [] :: stack, .key, none⟩ := fun _ => rfl
    have hrest := ih ((glyphs m.1, m.2.2) :: found) (.inl rfl) [] next
      fun m' hm' => h m' (List.mem_cons_of_mem m hm')
    rw [List.map_cons, List.map_cons, List.intercalate_cons_cons, List.append_assoc,
      List.append_assoc, List.singleton_append,
      l.run_member found stack hmode key m.1 (h m (List.mem_cons_self ..)) (.inl rfl), run_cons,
      hcomma, Option.bind_some]
    refine hrest.trans ?_
    simp

/-- Members that spell their documents make an object that does. -/
theorem object_closes (m : String × List UInt8 × Document)
    (members : List (String × List UInt8 × Document))
    (h : ∀ m' ∈ m :: members, Spells m'.2.1 m'.2.2) :
    Closes (l.object ((m :: members).map fun m => (m.1, m.2.1)))
      (.object ((m :: members).map fun m => (glyphs m.1, m.2.2))) := by
  intro stack
  have hopen : (⟨stack, .value, none⟩ : Scanner).step 0x7B =
    some ⟨.object [] [] :: stack, .firstKey, none⟩ := rfl
  rw [object, run_cons, hopen, Option.bind_some, List.map_map]
  exact l.run_members [] stack (.inr rfl) [] m members h

end Layout

end Scanner

/-! ### Objects as they are written -/

theorem encode_intercalate (texts : List String) :
    Utf8.encode (",".intercalate texts) = [0x2C].intercalate (texts.map Utf8.encode) := by
  have hcomma : Utf8.encode "," = [0x2C] := rfl
  induction texts with
  | nil => rfl
  | cons s rest ih =>
    cases rest with
    | nil => simp
    | cons t rest =>
      rw [String.intercalate_cons_cons, Utf8.encode_append, Utf8.encode_append, ih, hcomma]
      simp

/-- A value that is an integer or a text, and what it is read as. -/
inductive Scalar : Json → Document → Prop where
  | int (n : Int) : Scalar (.int n) (.number (numeral n))
  | text (s : String) : Scalar (.text s) (.text (glyphs s))

theorem Scalar.spells {v : Json} {d : Document} (h : Scalar v d) :
    Scanner.Spells (Utf8.encode (compact v)) d := by
  cases h with
  | int n => rw [compact]; exact Scanner.spells_int n
  | text s => rw [compact]; exact (Scanner.closes_text s).spells

theorem Scalar.indented_eq {v : Json} {d : Document} (h : Scalar v d) (level : Nat) :
    indented level v = compact v := by
  cases h with
  | int n => rw [indented] <;> exact fun _ _ h => nomatch h
  | text s => rw [indented] <;> exact fun _ _ h => nomatch h

namespace Scanner.Layout

/-- No blanks. -/
def none : Layout :=
  ⟨[], [], [], fun _ h => (nomatch h), fun _ h => (nomatch h), fun _ h => nomatch h⟩

theorem newline_blank (level : Nat) : ∀ b ∈ Utf8.encode (newline level), isSpace b = true := by
  have hblank : String.utf8EncodeChar ' ' = [0x20] := rfl
  have hline : Utf8.encode "\n" = [0x0A] := rfl
  intro b hb
  rw [newline, Utf8.encode_append, hline, Utf8.encode_ofList] at hb
  rcases List.mem_append.mp hb with hb | hb
  · rw [List.mem_singleton.mp hb]
    rfl
  · obtain ⟨c, hc, hb⟩ := List.mem_flatMap.mp hb
    rw [(List.mem_replicate.mp hc).2, hblank] at hb
    rw [List.mem_singleton.mp hb]
    rfl

/-- A member on each line. -/
def lines (level : Nat) : Layout :=
  ⟨Utf8.encode (newline (level + 1)), [0x20], Utf8.encode (newline level), newline_blank _,
    fun b hb => by rw [List.mem_singleton.mp hb]; rfl, newline_blank _⟩

end Scanner.Layout

section
variable {m : String × Json × Document} {members : List (String × Json × Document)}

/-- The members with their bytes in place of their values. -/
def spelled (members : List (String × Json × Document)) :
    List (String × List UInt8 × Document) :=
  members.map fun m => (m.1, Utf8.encode (compact m.2.1), m.2.2)

theorem spelled_spells (h : ∀ m' ∈ members, Scalar m'.2.1 m'.2.2) :
    ∀ m' ∈ spelled members, Scanner.Spells m'.2.1 m'.2.2 := by
  intro m' hm'
  obtain ⟨m'', hm'', rfl⟩ := List.mem_map.mp hm'
  exact (h m'' hm'').spells

theorem encode_compactMembers (members : List (String × Json × Document)) :
    (compactMembers (members.map fun m => (m.1, m.2.1))).map Utf8.encode =
      (spelled members).map fun m => Scanner.Layout.none.member m.1 m.2.1 := by
  have hcolon : Utf8.encode ":" = [0x3A] := rfl
  induction members with
  | nil => rfl
  | cons m rest ih =>
    rw [List.map_cons, compactMembers, List.map_cons, ih]
    simp [spelled, Scanner.Layout.member, Scanner.Layout.none, Utf8.encode_append, hcolon]

theorem encode_indentedMembers (level : Nat) (h : ∀ m' ∈ members, Scalar m'.2.1 m'.2.2) :
    (indentedMembers (level + 1) (members.map fun m => (m.1, m.2.1))).map Utf8.encode =
      (spelled members).map fun m => (Scanner.Layout.lines level).member m.1 m.2.1 := by
  have hcolon : Utf8.encode ": " = [0x3A, 0x20] := rfl
  induction members with
  | nil => rfl
  | cons m rest ih =>
    rw [List.map_cons, indentedMembers, List.map_cons,
      ih fun m' hm' => h m' (List.mem_cons_of_mem m hm'),
      (h m (List.mem_cons_self ..)).indented_eq]
    simp [spelled, Scanner.Layout.member, Scanner.Layout.lines, Utf8.encode_append, hcolon]

/-- An object of integers and texts on one line. -/
theorem compact_closes (h : ∀ m' ∈ m :: members, Scalar m'.2.1 m'.2.2) :
    Scanner.Closes
      (Utf8.encode (compact (.object ((m :: members).map fun m => (m.1, m.2.1)))))
      (.object ((m :: members).map fun m => (glyphs m.1, m.2.2))) := by
  have hclosed := Scanner.Layout.none.object_closes _ _ (spelled_spells h)
  have hopen : Utf8.encode "\x7b" = [0x7B] := rfl
  have hclose : Utf8.encode "\x7d" = [0x7D] := rfl
  rw [compact, Utf8.encode_append, Utf8.encode_append, encode_intercalate, encode_compactMembers,
    hopen, hclose]
  simpa [Scanner.Layout.object, Scanner.Layout.none, spelled, Function.comp_def] using hclosed

/-- The same over several lines. -/
theorem indented_closes (level : Nat) (h : ∀ m' ∈ m :: members, Scalar m'.2.1 m'.2.2) :
    Scanner.Closes
      (Utf8.encode (indented level (.object ((m :: members).map fun m => (m.1, m.2.1)))))
      (.object ((m :: members).map fun m => (glyphs m.1, m.2.2))) := by
  have hclosed := (Scanner.Layout.lines level).object_closes _ _ (spelled_spells h)
  have hopen : Utf8.encode "\x7b" = [0x7B] := rfl
  have hclose : Utf8.encode "\x7d" = [0x7D] := rfl
  rw [List.map_cons, indented,
    ← List.map_cons (f := fun m : String × Json × Document => (m.1, m.2.1)), Utf8.encode_append,
    Utf8.encode_append, Utf8.encode_append, encode_intercalate, encode_indentedMembers level h,
    hopen, hclose]
  simpa [Scanner.Layout.object, Scanner.Layout.lines, spelled, Function.comp_def] using hclosed

end

/-- A whole text. -/
theorem read?_of_closes {bytes : List UInt8} {d : Document} (h : Scanner.Closes bytes d) :
    Document.read? bytes = some d := by
  rw [Document.read?, Scanner.initial, h []]
  rfl

/-! ### Values read back -/

theorem le_ofDigitChars (cs : List Char) (n : Nat) : n ≤ Nat.ofDigitChars 10 cs n := by
  induction cs generalizing n with
  | nil => exact Nat.le_of_eq Nat.ofDigitChars_nil.symm
  | cons c rest ih =>
    rw [Nat.ofDigitChars_cons]
    exact Nat.le_trans (by omega) (ih _)

/-- Digits are taken in while the number fits. -/
theorem absorb_digits (cs : List Char) (n : Nat)
    (h : Nat.ofDigitChars 10 cs n < UInt64.size) :
    absorb n (cs.map fun c => c.toNat - 48) = (Nat.ofDigitChars 10 cs n, []) := by
  induction cs generalizing n with
  | nil => rfl
  | cons c rest ih =>
    rw [Nat.ofDigitChars_cons] at h ⊢
    have hcomm : n * 10 + (c.toNat - 48) = 10 * n + (c.toNat - '0'.toNat) := by
      rw [Nat.mul_comm]
      rfl
    have hfits : 10 * n + (c.toNat - '0'.toNat) < UInt64.size :=
      Nat.lt_of_le_of_lt (le_ofDigitChars rest _) h
    rw [List.map_cons, absorb, hcomm, if_pos hfits, ih _ h]

/-- An integer of 64 bits, with a sign or without, is read as the integer it was. -/
theorem value?_numeral {n : Int} (hlow : Int64.minValue.toInt ≤ n) (hhigh : n < UInt64.size) :
    (numeral n).value? = some (.int n) := by
  have hsize : n.natAbs < UInt64.size := by
    have hmin : Int64.minValue.toInt = -9223372036854775808 := rfl
    simp only [UInt64.size] at hhigh ⊢
    omega
  have hdigits : absorb 0 (digits n.natAbs) = (n.natAbs, []) := by
    have h := absorb_digits (Nat.toDigits 10 n.natAbs) 0
    rw [Nat.ofDigitChars_ten_toDigits] at h
    exact h hsize
  unfold Numeral.value?
  simp only [numeral, hdigits, true_and]
  by_cases hneg : n < 0
  · have habs : ((n.natAbs : Nat) : Int) = -n := by omega
    rw [if_pos (.inr ⟨by omega, by omega⟩), decide_eq_true hneg, if_pos rfl, habs, Int.neg_neg]
  · have habs : ((n.natAbs : Nat) : Int) = n := by omega
    rw [if_pos (.inl (decide_eq_false hneg)), decide_eq_false hneg, if_neg Bool.false_ne_true, habs]

theorem bytes?_glyphsOf (c : Char) (rest : List Glyph) :
    Glyph.bytes? (Scanner.glyphsOf c ++ rest) =
      (Glyph.bytes? rest).map (String.utf8EncodeChar c ++ ·) := by
  unfold Scanner.glyphsOf
  split
  · rename_i h
    have hc : (UInt16.ofNat c.toNat).toNat = c.toNat := by
      rw [UInt16.toNat_ofNat']
      omega
    have hunit : c.toNat < 0xD800 ∨ 0xDFFF < c.toNat := by omega
    rw [List.singleton_append, Glyph.bytes?.eq_def]
    simp only [hc, if_pos hunit, Char.ofNat_toNat]
  · generalize String.utf8EncodeChar c = bytes
    induction bytes with
    | nil => simp
    | cons b bytes ih =>
      rw [List.map_cons, List.cons_append, Glyph.bytes?, ih]
      simp [Function.comp_def]

/-- A written text is read as the text it was. -/
theorem text?_glyphs (s : String) : Glyph.text? (glyphs s) = some s := by
  have hbytes : ∀ cs : List Char, Glyph.bytes? (cs.flatMap Scanner.glyphsOf) =
      some (cs.flatMap String.utf8EncodeChar) := by
    intro cs
    induction cs with
    | nil => rfl
    | cons c rest ih => rw [List.flatMap_cons, bytes?_glyphsOf, ih]; rfl
  rw [Glyph.text?, glyphs, hbytes, ← Utf8.encode_eq, Option.bind_some]
  exact Utf8.fromUTF8?_encode s

/-- Written members under the names of a record are all found, if no name stands twice. -/
theorem Fields.ofMembers?_glyphs (names : List String) (strict : Bool)
    {members : List (String × Json × Document)} (hnames : ∀ m ∈ members, m.1 ∈ names)
    (hnodup : (members.map Prod.fst).Nodup) :
    ofMembers? names strict (members.map fun m => (glyphs m.1, m.2.2)) =
      some (members.map fun m => (m.1, m.2.2)) := by
  induction members with
  | nil => rfl
  | cons m rest ih =>
    obtain ⟨hfirst, hrest⟩ := List.nodup_cons.mp hnodup
    have hnone : (rest.map fun m => (m.1, m.2.2)).lookup m.1 = none := by
      rw [List.lookup_eq_none_iff]
      intro p hp
      obtain ⟨m', hm', rfl⟩ := List.mem_map.mp hp
      exact bne_iff_ne.mpr fun h => hfirst (List.mem_map.mpr ⟨m', hm', h.symm⟩)
    have hmem := hnames m (List.mem_cons_self ..)
    have hfound := ih (fun p hp => hnames p (List.mem_cons_of_mem m hp)) hrest
    rw [List.map_cons, ofMembers?, text?_glyphs, hfound]
    simp only [Option.bind_eq_bind, Option.bind_some, hmem, if_true, hnone, Option.isSome_none,
      Bool.false_eq_true, if_false, List.map_cons]

namespace Decoder

theorem decode_text (room : Nat) (s : String) : text room (.text (glyphs s)) = some s :=
  text?_glyphs s

theorem decode_choice {α : Type} (names : List (String × α)) (room : Nat) (s : String) :
    choice names room (.text (glyphs s)) = names.lookup s := by
  rw [choice, text?_glyphs]
  rfl

theorem decode_int (room : Nat) {low high n : Int} (hlow : low ≤ n) (hhigh : n ≤ high)
    (hmin : Int64.minValue.toInt ≤ low) (hmax : high < UInt64.size) :
    int low high room (.number (numeral n)) = some n := by
  have hvalue := value?_numeral (Int.le_trans hmin hlow) (Int.lt_of_le_of_lt hhigh hmax)
  simp only [int, hvalue, hlow, hhigh, and_self, if_true]

theorem decode_i32 (room : Nat) (n : Int32) : i32 room (.number (numeral n.toInt)) = some n := by
  rw [i32, decode_int room (Int32.minValue_le_toInt n) (Int32.toInt_le n) (by decide) (by decide)]
  exact congrArg some (Int32.ofInt_toInt n)

theorem decode_u64 (room : Nat) (n : UInt64) : u64 room (.number (numeral n.toNat)) = some n := by
  have hlt : n.toNat < UInt64.size := n.toNat_lt
  rw [u64, decode_int room (Int.natCast_nonneg _) (by omega) (by decide) (by decide)]
  exact congrArg some (UInt64.ofNat_toNat)

/-- A record is built of the fields that were written, if they come in its order. -/
theorem decode_record {α : Type} {names : List String} (build : Fields → Option α)
    {members : List (String × Json × Document)} (hnodup : names.Nodup)
    (hsublist : (members.map Prod.fst).Sublist names) (room : Nat) :
    record names build (room + 1) (.object (members.map fun m => (glyphs m.1, m.2.2))) =
      build ⟨room, members.map fun m => (m.1, m.2.2)⟩ := by
  have hnames : ∀ m ∈ members, m.1 ∈ names := fun m hm =>
    hsublist.subset (List.mem_map_of_mem hm)
  rw [record, Fields.ofDocument?,
    Fields.ofMembers?_glyphs names false hnames (hnodup.sublist hsublist)]
  rfl

end Decoder

end Pickaxe.Json
