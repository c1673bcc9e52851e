import Pickaxe.Proofs.Wire.Text

/-! Where reading stands in a packet.

Reading goes on from where it stands, also behind a read that failed, so what a failed read has taken by then decides
what the next one finds. A field of fixed width and a varint are taken as a whole or not at all. But a length is taken
before it is refused, and so are the bytes of a text before they turn out to be none.

The failures of a read are stated like its forms (`Fails`), and those of one read after another are made of the forms
and the failures of both (`Fails.bind`). All reads are of a few shapes, and `Shape.Passed` and `Shape.Failed` say for
each of them what can come of it, what is taken then, and what is left (`Read.hasShape`). So no read steps back or
beyond the end, and in every row of reads what was consumed is what the buffer begins with
(`Read.cursor_disciplined`). -/
namespace Pickaxe.Wire

/-! ### Shapes of reads -/

/-- Which bytes a read is after. -/
inductive Shape where
  /-- None: it says something of those that are left. -/
  | looking
  /-- All that are left. -/
  | rest
  /-- So many. -/
  | fixed (width : Nat)
  | varint
  /-- A varint that is a length of at most `max`. -/
  | length (max : Nat)
  /-- A length, and a text of so many bytes. -/
  | text (maxChars : Nat)

namespace Shape

/-- The bytes spell a number that is a length. -/
def Announces (form : List UInt8) (n : Nat) : Prop := ∃ count, Varint.Spells form count ∧ count.toInt = n

/-- How many bytes a text may have, as far as 64 bits can count them. -/
def textLimit (maxChars : Nat) : Nat := min (maxChars * 4) (UInt64.size - 1)

/-- A length that was read is within 31 bits, so 64 bits are enough to count up to it. -/
theorem Announces.le_textLimit {form : List UInt8} {n maxChars : Nat} (h : Announces form n)
    (hmax : n ≤ maxChars * 4) : n ≤ textLimit maxChars := by
  obtain ⟨count, -, hcount⟩ := h
  have hlast : count.toInt < 2 ^ 31 := count.toInt_lt
  rw [textLimit, UInt64.size]
  omega

/-- What a read that succeeds has taken, and what it leaves. -/
inductive Passed : Shape → (taken left : List UInt8) → Prop where
  | looking (left : List UInt8) : Passed .looking [] left
  | rest (taken : List UInt8) : Passed .rest taken []
  | fixed (taken left : List UInt8) : Passed (.fixed taken.length) taken left
  | varint {taken : List UInt8} {count : Int32} (h : Varint.Spells taken count) (left : List UInt8) :
      Passed .varint taken left
  | length {taken : List UInt8} {n max : Nat} (h : Announces taken n) (hmax : n ≤ max) (left : List UInt8) :
      Passed (.length max) taken left
  | text {taken : List UInt8} {s : String} {maxChars : Nat} (h : Reader.Prefixed taken s)
      (hmax : s.utf8ByteSize ≤ maxChars * 4) (left : List UInt8) : Passed (.text maxChars) taken left

/-- What a read reports that fails, what it has taken, and what it leaves. -/
inductive Failed : Shape → PacketError → (taken left : List UInt8) → Prop where
  /-- Too few bytes are left, and none of them is taken. -/
  | short {n : Nat} {left : List UInt8} (h : left.length < n) :
      Failed (.fixed n) (.truncated n left.length) [] left
  /-- The bytes end inside the varint, and none of them is taken. -/
  | cut {left : List UInt8} (hlength : left.length < Varint.maxSize) (hopen : Varint.Open left) :
      Failed .varint (.truncated (left.length + 1) left.length) [] left
  /-- The varint does not end in time, and none of its bytes is taken. -/
  | endless {left : List UInt8} (hlength : Varint.maxSize ≤ left.length)
      (hopen : Varint.Open (left.take Varint.maxSize)) : Failed .varint .varintTooLong [] left
  /-- The varint of the length fails. -/
  | uncounted {max : Nat} {e : PacketError} {taken left : List UInt8} (h : Failed .varint e taken left) :
      Failed (.length max) e taken left
  /-- The varint is no length or too great, and is taken. -/
  | refused {max : Nat} {count : Int32} {taken : List UInt8} (h : Varint.Spells taken count)
      (hrange : ¬ (0 ≤ count.toInt ∧ count.toInt ≤ max)) (left : List UInt8) :
      Failed (.length max) (.invalidLength count.toInt max) taken left
  /-- The length of the text fails. -/
  | unmeasured {maxChars : Nat} {e : PacketError} {taken left : List UInt8}
      (h : Failed (.length (textLimit maxChars)) e taken left) : Failed (.text maxChars) e taken left
  /-- Fewer bytes are left behind the length than it announces, and it alone is taken. -/
  | missing {maxChars n : Nat} {taken left : List UInt8} (h : Announces taken n) (hmax : n ≤ maxChars * 4)
      (hmissing : left.length < n) : Failed (.text maxChars) (.truncated n left.length) taken left
  /-- The bytes behind the length are no text, and are taken with it. -/
  | illFormed {maxChars : Nat} {header body : List UInt8} (h : Announces header body.length)
      (hmax : body.length ≤ maxChars * 4) (hbody : Text.Utf8.decode? body = none) (left : List UInt8) :
      Failed (.text maxChars) .invalidText (header ++ body) left

/-- What is told to be cut off is told to need more than there is, and that is what is left. -/
theorem Failed.truncated_lt {shape : Shape} {needed remaining : Nat} {taken left : List UInt8}
    (h : shape.Failed (.truncated needed remaining) taken left) :
    remaining < needed ∧ remaining = left.length := by
  generalize he : PacketError.truncated needed remaining = e at h
  induction h with
  | short h | missing _ _ h =>
    cases he
    exact ⟨h, rfl⟩
  | cut =>
    cases he
    exact ⟨Nat.lt_succ_self _, rfl⟩
  | uncounted _ ih | unmeasured _ ih => exact ih he
  | endless | refused | illFormed => cases he

end Shape

namespace Reader

variable {α β : Type} {r : Reader α}

/-! ### Failures -/

/-- The read succeeds exactly where it can take bytes so. -/
def Passes (r : Reader α) (P : List UInt8 → List UInt8 → Prop) : Prop :=
  ∀ bytes left, (∃ a, r bytes = (.ok a, left)) ↔ ∃ taken, P taken left ∧ bytes = taken ++ left

/-- The read fails exactly so: with this error, behind the bytes that it has taken. -/
def Fails (r : Reader α) (F : PacketError → List UInt8 → List UInt8 → Prop) : Prop :=
  ∀ bytes e left, r bytes = (.error e, left) ↔ ∃ taken, F e taken left ∧ bytes = taken ++ left

section Fails

variable {F G : PacketError → List UInt8 → List UInt8 → Prop} {P Q : List UInt8 → List UInt8 → Prop}

theorem Takes.passes {S : α → List UInt8 → Prop} (h : r.Takes S) :
    r.Passes fun taken _ => ∃ a, S a taken := by
  intro bytes left
  refine (exists_congr fun a => h bytes a left).trans ⟨?_, ?_⟩
  · rintro ⟨a, taken, hform, hbytes⟩
    exact ⟨taken, ⟨a, hform⟩, hbytes⟩
  · rintro ⟨taken, ⟨a, hform⟩, hbytes⟩
    exact ⟨a, taken, hform, hbytes⟩

theorem Passes.congr (h : r.Passes P) (hiff : ∀ taken left, P taken left ↔ Q taken left) : r.Passes Q :=
  fun bytes left => (h bytes left).trans (exists_congr fun taken => and_congr_left' (hiff taken left))

theorem Fails.congr (h : r.Fails F) (hiff : ∀ e taken left, F e taken left ↔ G e taken left) : r.Fails G :=
  fun bytes e left => (h bytes e left).trans (exists_congr fun taken => and_congr_left' (hiff e taken left))

/-- A read that always succeeds. -/
theorem fails_of_ok (hok : ∀ bytes, ∃ a left, r bytes = (.ok a, left))
    (hnone : ∀ e taken left, ¬ F e taken left) : r.Fails F := by
  intro bytes e left
  obtain ⟨a, rest, hread⟩ := hok bytes
  refine ⟨fun h => ?_, fun ⟨_, hfailed, _⟩ => absurd hfailed (hnone _ _ _)⟩
  cases hread.symm.trans h

theorem fails_pure (a : α) : (Pure.pure a : Reader α).Fails fun _ _ _ => False :=
  fails_of_ok (fun bytes => ⟨a, bytes, rfl⟩) fun _ _ _ => id

theorem fails_fail (e : PacketError) :
    (fail e : Reader α).Fails fun found taken _ => found = e ∧ taken = [] := by
  intro bytes found left
  refine ⟨fun h => ?_, ?_⟩
  · cases h
    exact ⟨[], ⟨rfl, rfl⟩, rfl⟩
  · rintro ⟨_, ⟨rfl, rfl⟩, rfl⟩
    rfl

/-- One read after another fails where the first does, or the second behind the first. -/
theorem bind_eq_error {f : α → Reader β} {bytes left : List UInt8} {e : PacketError} :
    (r >>= f) bytes = (.error e, left) ↔
      r bytes = (.error e, left) ∨ ∃ a behind, r bytes = (.ok a, behind) ∧ f a behind = (.error e, left) := by
  change Reader.bind r f bytes = _ ↔ _
  rw [Reader.bind]
  split
  · rename_i a behind hfirst
    simp [hfirst]
  · rename_i found behind hfirst
    simp [hfirst]

/-- **One read after another** fails as the first does, or as the second does behind a form of the first. -/
theorem Fails.bind {f : α → Reader β} {S : α → List UInt8 → Prop}
    {H : α → PacketError → List UInt8 → List UInt8 → Prop} (hr : r.Fails F) (hs : r.Takes S)
    (hf : ∀ a, (f a).Fails (H a)) :
    (r >>= f).Fails fun e taken left =>
      F e taken left ∨ ∃ a head tail, S a head ∧ H a e tail left ∧ taken = head ++ tail := by
  intro bytes e left
  rw [bind_eq_error, hr bytes e left]
  refine ⟨?_, ?_⟩
  · rintro (⟨taken, hfailed, hbytes⟩ | ⟨a, behind, hfirst, hsecond⟩)
    · exact ⟨taken, .inl hfailed, hbytes⟩
    · obtain ⟨head, hhead, rfl⟩ := (hs _ _ _).mp hfirst
      obtain ⟨tail, htail, rfl⟩ := (hf a _ _ _).mp hsecond
      exact ⟨head ++ tail, .inr ⟨a, head, tail, hhead, htail, rfl⟩, (List.append_assoc ..).symm⟩
  · rintro ⟨_, hfailed | ⟨a, head, tail, hhead, htail, rfl⟩, rfl⟩
    · exact .inl ⟨_, hfailed, rfl⟩
    · rw [List.append_assoc]
      exact .inr ⟨a, tail ++ left, hs.read hhead _, (hf a _ _ _).mpr ⟨tail, htail, rfl⟩⟩

/-- A value that is given back only under a condition. -/
theorem fails_guard (p : Prop) [Decidable p] (a : α) (e : PacketError) :
    (if p then Pure.pure a else fail e : Reader α).Fails fun found taken _ => ¬ p ∧ found = e ∧ taken = [] := by
  by_cases hp : p
  · rw [if_pos hp]
    exact (fails_pure a).congr fun _ _ _ => ⟨False.elim, fun h => h.1 hp⟩
  · rw [if_neg hp]
    exact (fails_fail e).congr fun _ _ _ => (and_iff_right hp).symm

end Fails

/-! ### Shapes -/

/-- The read passes and fails as the shape says. -/
structure HasShape (r : Reader α) (shape : Shape) : Prop where
  passes : r.Passes shape.Passed
  fails : r.Fails shape.Failed

theorem HasShape.map {shape : Shape} (h : r.HasShape shape) (f : α → β) :
    (do return f (← r) : Reader β).HasShape shape := by
  constructor
  · intro bytes left
    refine Iff.trans ⟨?_, ?_⟩ (h.passes bytes left)
    · rintro ⟨b, hread⟩
      obtain ⟨a, behind, hfirst, hsecond⟩ := bind_eq_ok.mp hread
      cases hsecond
      exact ⟨a, hfirst⟩
    · rintro ⟨a, hread⟩
      exact ⟨f a, bind_eq_ok.mpr ⟨a, left, hread, rfl⟩⟩
  · intro bytes e left
    refine Iff.trans ?_ (h.fails bytes e left)
    refine bind_eq_error.trans ⟨?_, .inl⟩
    rintro (hread | ⟨a, behind, -, hnone⟩)
    · exact hread
    · cases hnone

theorem hasShape_remaining : remaining.HasShape .looking := by
  refine ⟨fun bytes left => ⟨?_, ?_⟩, fails_of_ok (fun bytes => ⟨_, bytes, rfl⟩) ?_⟩
  · rintro ⟨a, hread⟩
    cases hread
    exact ⟨[], .looking _, rfl⟩
  · rintro ⟨taken, hpassed, rfl⟩
    cases hpassed
    exact ⟨_, rfl⟩
  · intro e taken left hfailed
    cases hfailed

theorem hasShape_rest : rest.HasShape .rest := by
  refine ⟨fun bytes left => ⟨?_, ?_⟩, fails_of_ok (fun bytes => ⟨bytes, [], rfl⟩) ?_⟩
  · rintro ⟨a, hread⟩
    cases hread
    exact ⟨bytes, .rest bytes, (List.append_nil bytes).symm⟩
  · rintro ⟨taken, hpassed, rfl⟩
    cases hpassed
    exact ⟨_, rfl⟩
  · intro e taken left hfailed
    cases hfailed

theorem hasShape_bytes (n : Nat) : (bytes n).HasShape (.fixed n) := by
  constructor
  · refine (takes_bytes n).passes.congr fun taken left => ⟨?_, ?_⟩
    · rintro ⟨_, -, rfl⟩
      exact .fixed taken left
    · intro hpassed
      cases hpassed
      exact ⟨taken, rfl, rfl⟩
  · intro bytes e left
    rw [Reader.bytes]
    refine ⟨fun hread => ?_, ?_⟩
    · split at hread
      · cases hread
      · rename_i hshort
        cases hread
        exact ⟨[], .short (Nat.lt_of_not_le hshort), rfl⟩
    · rintro ⟨taken, hfailed, rfl⟩
      cases hfailed with
      | short hshort => exact if_neg (Nat.not_le_of_lt hshort)

theorem hasShape_unsigned (width : Nat) : (unsigned width).HasShape (.fixed width) :=
  (hasShape_bytes width).map bigEndian

theorem hasShape_varint : varint.HasShape .varint := by
  constructor
  · refine takes_varint.passes.congr fun taken left => ⟨?_, ?_⟩
    · rintro ⟨count, hspells⟩
      exact .varint hspells left
    · intro hpassed
      cases hpassed with
      | varint hspells => exact ⟨_, hspells⟩
  · intro bytes e left
    rw [varint]
    refine ⟨fun hread => ?_, ?_⟩
    · split at hread
      · cases hread
      · rename_i hdecode
        obtain ⟨hlength, hopen⟩ := Varint.decode_eq_incomplete_iff.mp hdecode
        cases hread
        exact ⟨[], .cut hlength hopen, rfl⟩
      · rename_i hdecode
        obtain ⟨hlength, hopen⟩ := Varint.decode_eq_tooLong_iff.mp hdecode
        cases hread
        exact ⟨[], .endless hlength hopen, rfl⟩
    · rintro ⟨_, hfailed, rfl⟩
      cases hfailed with
      | cut hlength hopen =>
        rw [List.nil_append, Varint.decode_eq_incomplete_iff.mpr ⟨hlength, hopen⟩]
      | endless hlength hopen =>
        rw [List.nil_append, Varint.decode_eq_tooLong_iff.mpr ⟨hlength, hopen⟩]

theorem takes_announced (max : Nat) :
    (length max).Takes fun n form => Shape.Announces form n ∧ n ≤ max := by
  refine (takes_length max).congr fun n form => ⟨?_, ?_⟩
  · rintro ⟨count, hspells, hcount, hmax⟩
    exact ⟨⟨count, hspells, hcount⟩, hmax⟩
  · rintro ⟨⟨count, hspells, hcount⟩, hmax⟩
    exact ⟨count, hspells, hcount, hmax⟩

theorem hasShape_length (max : Nat) : (length max).HasShape (.length max) := by
  constructor
  · refine (takes_announced max).passes.congr fun taken left => ⟨?_, ?_⟩
    · rintro ⟨n, hannounced, hmax⟩
      exact .length hannounced hmax left
    · intro hpassed
      cases hpassed with
      | length hannounced hmax => exact ⟨_, hannounced, hmax⟩
  · refine (hasShape_varint.fails.bind takes_varint fun count =>
      fails_guard _ count.toInt.toNat _).congr fun e taken left => ⟨?_, ?_⟩
    · rintro (hfailed | ⟨count, head, _, hspells, ⟨hrange, rfl, rfl⟩, rfl⟩)
      · exact .uncounted hfailed
      · rw [List.append_nil]
        exact .refused hspells hrange left
    · intro hfailed
      cases hfailed with
      | uncounted hfailed => exact .inl hfailed
      | refused hspells hrange =>
        exact .inr ⟨_, taken, [], hspells, ⟨hrange, rfl, rfl⟩, (List.append_nil taken).symm⟩

/-- The bytes of a text are refused only if they are none. -/
theorem fails_decoded (bytes : List UInt8) :
    (match Text.Utf8.decode? bytes with
      | some s => Pure.pure s
      | none => fail .invalidText : Reader String).Fails
      fun e taken _ => Text.Utf8.decode? bytes = none ∧ e = .invalidText ∧ taken = [] := by
  split
  · rename_i s hdecode
    exact (fails_pure s).congr fun _ _ _ => ⟨False.elim, fun h => by cases hdecode.symm.trans h.1⟩
  · rename_i hdecode
    exact (fails_fail _).congr fun _ _ _ => (and_iff_right hdecode).symm

theorem hasShape_text (maxChars : Nat) : (text maxChars).HasShape (.text maxChars) := by
  constructor
  · intro bytes left
    refine (exists_congr fun s => text_eq_ok_iff).trans ⟨?_, ?_⟩
    · rintro ⟨s, form, hform, hmax, hbytes⟩
      exact ⟨form, .text hform hmax left, hbytes⟩
    · rintro ⟨form, hpassed, hbytes⟩
      cases hpassed with
      | text hform hmax => exact ⟨_, form, hform, hmax, hbytes⟩
  · refine ((hasShape_length _).fails.bind (takes_announced _) fun n =>
      (hasShape_bytes n).fails.bind (takes_bytes n) fails_decoded).congr fun e taken left => ⟨?_, ?_⟩
    · rintro (hfailed | ⟨n, header, tail, ⟨hannounced, hmax⟩, hbehind, rfl⟩)
      · exact .unmeasured hfailed
      · have hmax : n ≤ maxChars * 4 := Nat.le_trans hmax (Nat.min_le_left ..)
        rcases hbehind with hmissing | ⟨_, body, _, ⟨rfl, rfl⟩, ⟨hbody, rfl, rfl⟩, rfl⟩
        · obtain ⟨hmissing⟩ := hmissing
          rw [List.append_nil]
          exact .missing hannounced hmax hmissing
        · rw [List.append_nil]
          exact .illFormed hannounced hmax hbody left
    · intro hfailed
      cases hfailed with
      | unmeasured hfailed => exact .inl hfailed
      | missing hannounced hmax hmissing =>
        exact .inr ⟨_, taken, [], ⟨hannounced, hannounced.le_textLimit hmax⟩, .inl (.short hmissing),
          (List.append_nil taken).symm⟩
      | @illFormed _ header body hannounced hmax hbody =>
        exact .inr ⟨_, header, body, ⟨hannounced, hannounced.le_textLimit hmax⟩,
          .inr ⟨body, body, [], ⟨rfl, rfl⟩, ⟨hbody, rfl, rfl⟩, (List.append_nil body).symm⟩, rfl⟩

end Reader

/-! ### Reads -/

/-- What can be asked of a packet. -/
inductive Read where
  | remaining
  | isEmpty
  | rest
  | bytes (n : Nat)
  | u8
  | i8
  | bool
  | u16
  | i16
  | i32
  | i64
  | f32
  | f64
  | uuid
  | position
  | varint
  | length (max : Nat)
  | text (maxChars : Nat)

namespace Read

/-- What is found, if the read succeeds. -/
def Value : Read → Type
  | .remaining | .length _ => Nat
  | .isEmpty | .bool => Bool
  | .rest | .bytes _ => List UInt8
  | .u8 => UInt8
  | .i8 => Int8
  | .u16 => UInt16
  | .i16 => Int16
  | .i32 | .varint => Int32
  | .i64 => Int64
  | .f32 => Float32
  | .f64 => Float
  | .uuid => BitVec 128
  | .position => World.Block
  | .text _ => String

def reader : (r : Read) → Reader r.Value
  | .remaining => Reader.remaining
  | .isEmpty => do return (← Reader.remaining) == 0
  | .rest => Reader.rest
  | .bytes n => Reader.bytes n
  | .u8 => Reader.u8
  | .i8 => Reader.i8
  | .bool => Reader.bool
  | .u16 => Reader.u16
  | .i16 => Reader.i16
  | .i32 => Reader.i32
  | .i64 => Reader.i64
  | .f32 => Reader.f32
  | .f64 => Reader.f64
  | .uuid => Reader.uuid
  | .position => Reader.position
  | .varint => Reader.varint
  | .length max => Reader.length max
  | .text maxChars => Reader.text maxChars

def shape : Read → Shape
  | .remaining | .isEmpty => .looking
  | .rest => .rest
  | .bytes n => .fixed n
  | .u8 | .i8 | .bool => .fixed 1
  | .u16 | .i16 => .fixed 2
  | .i32 | .f32 => .fixed 4
  | .i64 | .f64 | .position => .fixed 8
  | .uuid => .fixed 16
  | .varint => .varint
  | .length max => .length max
  | .text maxChars => .text maxChars

/-- **Every read has its shape.** -/
theorem hasShape (r : Read) : r.reader.HasShape r.shape := by
  cases r with
  | remaining => exact Reader.hasShape_remaining
  | isEmpty => exact Reader.hasShape_remaining.map _
  | rest => exact Reader.hasShape_rest
  | bytes n => exact Reader.hasShape_bytes n
  | u8 | i8 | u16 | i16 | i32 | i64 | f32 | f64 | uuid => exact (Reader.hasShape_unsigned _).map _
  | bool => exact ((Reader.hasShape_unsigned 1).map _).map _
  | position => exact ((Reader.hasShape_unsigned 8).map _).map _
  | varint => exact Reader.hasShape_varint
  | length max => exact Reader.hasShape_length max
  | text maxChars => exact Reader.hasShape_text maxChars

/-- What is found where these bytes are left. -/
def found (r : Read) (bytes : List UInt8) : Except PacketError r.Value := (r.reader bytes).1

/-- What is left behind the read, whether it fails or not. -/
def behind (r : Read) (bytes : List UInt8) : List UInt8 := (r.reader bytes).2

/-- The bytes that are no more left behind the read. -/
def taken (r : Read) (bytes : List UInt8) : List UInt8 := bytes.take (bytes.length - (r.behind bytes).length)

variable {r : Read} {bytes : List UInt8}

theorem taken_eq {first : List UInt8} (h : bytes = first ++ r.behind bytes) : r.taken bytes = first := by
  rw [taken]
  generalize r.behind bytes = left at h ⊢
  rw [h, List.length_append, Nat.add_sub_cancel, List.take_left]

/-- A read passes or fails, and either way it has taken the first of the bytes. -/
theorem taken_append_behind (r : Read) (bytes : List UInt8) : r.taken bytes ++ r.behind bytes = bytes := by
  have htaken : ∃ first, bytes = first ++ r.behind bytes := by
    cases hfound : r.reader bytes with
    | mk found left =>
      rw [behind, hfound]
      cases found with
      | ok a =>
        obtain ⟨first, -, hbytes⟩ := (r.hasShape.passes _ _).mp ⟨a, hfound⟩
        exact ⟨first, hbytes⟩
      | error e =>
        obtain ⟨first, -, hbytes⟩ := (r.hasShape.fails _ _ _).mp hfound
        exact ⟨first, hbytes⟩
  obtain ⟨first, hbytes⟩ := htaken
  rw [taken_eq hbytes]
  exact hbytes.symm

/-- **When a read succeeds**, and where it stands then. -/
theorem exists_found_eq_ok_iff :
    (∃ a, r.found bytes = .ok a) ↔ r.shape.Passed (r.taken bytes) (r.behind bytes) := by
  refine ⟨fun ⟨a, hfound⟩ => ?_, fun hpassed => ?_⟩
  · obtain ⟨first, hpassed, hbytes⟩ := (r.hasShape.passes _ _).mp ⟨a, Prod.ext hfound rfl⟩
    rwa [taken_eq hbytes]
  · obtain ⟨a, hread⟩ := (r.hasShape.passes _ _).mpr ⟨_, hpassed, (r.taken_append_behind bytes).symm⟩
    exact ⟨a, congrArg Prod.fst hread⟩

/-- **When a read fails**, and where it stands then. -/
theorem found_eq_error_iff {e : PacketError} :
    r.found bytes = .error e ↔ r.shape.Failed e (r.taken bytes) (r.behind bytes) := by
  refine ⟨fun hfound => ?_, fun hfailed => ?_⟩
  · obtain ⟨first, hfailed, hbytes⟩ := (r.hasShape.fails _ _ _).mp (Prod.ext hfound rfl)
    rwa [taken_eq hbytes]
  · have hread := (r.hasShape.fails _ _ _).mpr ⟨_, hfailed, (r.taken_append_behind bytes).symm⟩
    exact congrArg Prod.fst hread

/-! ### Rows of reads -/

/-- What is left behind reads, each of them where the one before it stands. -/
def left : List Read → List UInt8 → List UInt8
  | [], buffer => buffer
  | r :: reads, buffer => left reads (r.behind buffer)

/-- What reads have taken, one behind the other. -/
def consumed : List Read → List UInt8 → List UInt8
  | [], _ => []
  | r :: reads, buffer => r.taken buffer ++ consumed reads (r.behind buffer)

theorem left_append (reads more : List Read) (buffer : List UInt8) :
    left (reads ++ more) buffer = left more (left reads buffer) := by
  induction reads generalizing buffer with
  | nil => rfl
  | cons r reads ih => exact ih _

theorem consumed_append (reads more : List Read) (buffer : List UInt8) :
    consumed (reads ++ more) buffer = consumed reads buffer ++ consumed more (left reads buffer) := by
  induction reads generalizing buffer with
  | nil => rfl
  | cons r reads ih => rw [List.cons_append, consumed, ih, consumed, left, List.append_assoc]

/-- Of the buffer, no byte is passed over, and none is taken twice. -/
theorem consumed_append_left (reads : List Read) (buffer : List UInt8) :
    consumed reads buffer ++ left reads buffer = buffer := by
  induction reads generalizing buffer with
  | nil => rfl
  | cons r reads ih => rw [consumed, left, List.append_assoc, ih, taken_append_behind]

/-- **The discipline of the cursor.** Let any reads be asked for on any buffer, one after another, whether they fail or
not.

* What they have consumed is what the buffer begins with, and the rest of it is left.
* What was consumed stays so, whatever else is asked for, and the next read takes the first bytes of those that are
  left.
* It succeeds and it fails exactly as its shape says, and has taken then what the shape says. A field of fixed width and
  a varint that fail have taken nothing. A length that fails has taken nothing or its varint, and a text has taken
  nothing, its length, or its length and its bytes, the last only if they are no text.
* Who is told that bytes are missing is told to need more of them than are left. -/
theorem cursor_disciplined (buffer : List UInt8) (reads : List Read) :
    consumed reads buffer ++ left reads buffer = buffer ∧
    (∀ more, consumed reads buffer <+: consumed (reads ++ more) buffer) ∧
    ∀ next : Read,
      let before := left reads buffer
      let after := left (reads ++ [next]) buffer
      let found := next.found before
      let taken := next.taken before
      consumed (reads ++ [next]) buffer = consumed reads buffer ++ taken ∧ before = taken ++ after ∧
      ((∃ a, found = .ok a) ↔ next.shape.Passed taken after) ∧
      (∀ e, found = .error e ↔ next.shape.Failed e taken after) ∧
      ∀ needed remaining, found = .error (.truncated needed remaining) →
        remaining < needed ∧ remaining = after.length := by
  refine ⟨consumed_append_left reads buffer, fun more => ?_, fun next => ?_⟩
  · rw [consumed_append]
    exact List.prefix_append ..
  · intro before after found taken
    have hafter : after = next.behind before := left_append reads [next] buffer
    have hconsumed : consumed (reads ++ [next]) buffer = consumed reads buffer ++ taken := by
      rw [consumed_append, consumed, consumed, List.append_nil]
    rw [hafter]
    refine ⟨hconsumed, (next.taken_append_behind before).symm, exists_found_eq_ok_iff,
      fun e => found_eq_error_iff, fun needed remaining hfound => ?_⟩
    exact (found_eq_error_iff.mp hfound).truncated_lt

/-- A text that is none is taken, one that is cut off is taken up to its length, and a number that is cut off is not
taken. -/
example : left [.text 16] [2, 0xC3, 0x28, 9] = [9] ∧ left [.text 16] [3, 0x61, 0x62] = [0x61, 0x62] ∧
    left [.text 16, .i32, .u8] [3, 0x61, 0x62] = [0x62] := ⟨rfl, rfl, rfl⟩

end Read

end Pickaxe.Wire
