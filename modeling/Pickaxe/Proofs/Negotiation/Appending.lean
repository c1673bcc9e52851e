import Pickaxe.Proofs.Json.Blank
import Pickaxe.Proofs.Negotiation.Interrupted
import Pickaxe.Proofs.Text.Blank

/-! A trial behind any ledger.

A ledger may hold any bytes. If they are a text it is read line by line: a carriage return before a line
feed is a part of the line's end, and lines of nothing but blanks are passed over like those that hold no
trial (`attempts_eq`). What is added begins a line of its own, and its bytes make a text of no bytes that are
none. So the reading afterwards is the one before with the trial behind it, or the same error
(`append_law`). -/
namespace Pickaxe.Negotiation

open Text

/-- A blank behind a line, such as a carriage return, changes nothing. -/
theorem Attempt.read?_append_blank (line : List UInt8) {b : UInt8} (h : Json.Scanner.isSpace b = true) :
    read? (line ++ [b]) = read? line := by
  rw [read?, Json.Decoder.run?, Json.read?_append_blank line h]
  rfl

namespace StateDir

/-! ### Lines of text -/

/-- A line without the carriage return that is a part of its end. -/
def bare (line : List UInt8) : List UInt8 :=
  if line.getLast? = some 0x0D then line.dropLast else line

/-- The lines of a text. What stands behind the last line feed has no end, so no part of it is one. -/
def textLines (bytes : List UInt8) : List (List UInt8) :=
  (lines bytes).dropLast.map bare ++ (lines bytes).getLast?.toList

/-- Nothing but blanks, of any script. -/
def IsBlank (line : List UInt8) : Prop := (Utf8.decode? line).map trim = some ""

instance (line : List UInt8) : Decidable (IsBlank line) := inferInstanceAs (Decidable (_ = _))

theorem read?_bare (line : List UInt8) : Attempt.read? (bare line) = Attempt.read? line := by
  unfold bare
  split
  · next h =>
    obtain ⟨before, rfl⟩ := List.getLast?_eq_some_iff.mp h
    rw [List.dropLast_concat, Attempt.read?_append_blank before rfl]
  · rfl

/-- No value begins with a byte of a blank. -/
theorem begin_of_isBlank {c : Char} (hc : isBlank c = true) {b : UInt8} (hb : b ∈ String.utf8EncodeChar c) :
    Json.Scanner.isSpace b = true ∨ Json.Scanner.begin [] b = none := by
  by_cases hascii : c.toNat < 0x80
  · have hblank : c.toNat = 9 ∨ c.toNat = 10 ∨ c.toNat = 11 ∨ c.toNat = 12 ∨ c.toNat = 13 ∨ c.toNat = 0x20 := by
      simp only [isBlank, Bool.or_eq_true, Bool.and_eq_true, decide_eq_true_eq, beq_iff_eq] at hc
      omega
    rw [Utf8.utf8EncodeChar_ascii hascii, List.mem_singleton] at hb
    obtain hn | hn | hn | hn | hn | hn := hblank
    all_goals
      rw [hb, hn]
      first | exact .inl rfl | exact .inr rfl
  · refine .inr (Option.eq_none_iff_forall_ne_some.mpr fun s hs => ?_)
    have hle := Utf8.le_of_mem_utf8EncodeChar (Nat.le_of_not_lt hascii) b hb
    exact absurd hle (UInt8.not_le.mpr (Json.Scanner.begin_lt hs))

/-- A blank line holds no trial. -/
theorem read?_of_isBlank {line : List UInt8} (h : IsBlank line) : Attempt.read? line = none := by
  obtain ⟨s, hs, htrim⟩ := Option.map_eq_some_iff.mp h
  have hnone : Json.Document.read? line = none := by
    refine Json.read?_of_no_value fun b hb => ?_
    rw [Utf8.eq_encode_of_decode? hs, Utf8.encode_eq] at hb
    obtain ⟨c, hc, hb⟩ := List.mem_flatMap.mp hb
    exact begin_of_isBlank (trim_eq_empty_iff.mp htrim c hc) hb
  rw [Attempt.read?, Json.Decoder.run?, hnone]
  rfl

/-- The trials on the lines of a text that are not blank. -/
def trialsOf (bytes : List UInt8) : List Attempt :=
  ((textLines bytes).filter fun line => ¬ IsBlank line).filterMap Attempt.read?

/-- Ends of lines and blank lines make no difference to what a ledger holds. -/
theorem attempts_eq (bytes : List UInt8) : attempts bytes = trialsOf bytes := by
  have hblank : (fun line => if decide (¬ IsBlank line) = true then Attempt.read? line else none) =
      Attempt.read? := by
    funext line
    by_cases h : IsBlank line
    · simp [h, read?_of_isBlank h]
    · simp [h]
  have hlines : (lines bytes).dropLast ++ (lines bytes).getLast?.toList = lines bytes := by
    rcases List.eq_nil_or_concat (lines bytes) with hnil | ⟨before, last, hlast⟩
    · rw [hnil]
      rfl
    · rw [hlast, List.concat_eq_append, List.dropLast_concat, List.getLast?_concat]
      rfl
  have hbare : Attempt.read? ∘ bare = Attempt.read? := funext read?_bare
  rw [trialsOf, List.filterMap_filter, hblank, textLines, List.filterMap_append, List.filterMap_map, hbare,
    ← List.filterMap_append, hlines, attempts]

/-! ### One more line -/

/-- What a ledger with these bytes is read as. -/
def reading (bytes : List UInt8) : Except StoreError (List Attempt) :=
  match Utf8.decode? bytes with
  | some _ => .ok (trialsOf bytes)
  | none => .error (.io "stream did not contain valid UTF-8")

/-- No file is read like an empty one. -/
theorem loadLedger_eq {d : StateDir} (h : d.ledger ≠ .directory) : d.loadLedger = reading d.ledgerBytes := by
  obtain ⟨record, slot, temp⟩ := d
  cases slot with
  | absent => rfl
  | directory => exact absurd rfl h
  | file bytes =>
    cases hbytes : Utf8.decode? bytes <;> simp only [loadLedger, ledgerBytes, reading, hbytes, attempts_eq]

theorem reading_addition (bytes : List UInt8) (a : Attempt) :
    reading (bytes ++ addition bytes a) = (reading bytes).map (· ++ [a]) := by
  have htext := Utf8.isSome_decode?_append (ascii_addition bytes a) bytes
  have htrials : trialsOf (bytes ++ addition bytes a) = trialsOf bytes ++ [a] := by
    rw [← attempts_eq, attempts_addition, attempts_eq]
  unfold reading
  cases hbefore : Utf8.decode? bytes with
  | none =>
    rw [hbefore, Option.isSome_none, Option.isSome_eq_false_iff, Option.isNone_iff_eq_none] at htext
    rw [htext]
    rfl
  | some before =>
    rw [hbefore, Option.isSome_some] at htext
    obtain ⟨after, hafter⟩ := Option.isSome_iff_exists.mp htext
    rw [hafter, htrials]
    rfl

/-- **A ledger with one more trial is read as it was, with that trial behind it.** Let it be no file or a file
with any bytes. The trial can be added. The reading afterwards is the one before with the trial behind it,
and the same error if there was one. That is so where the bytes are no text, and any text is read as the
trials on its lines. -/
theorem append_law (d : StateDir) (a : Attempt) (h : d.ledger ≠ .directory) :
    (Store.append a d).1 = .ok () ∧
      Store.loadLedger (Store.append a d).2 = (Store.loadLedger d).map (· ++ [a]) ∧
      Store.loadLedger d = reading d.ledgerBytes := by
  have hbefore : Store.loadLedger d = reading d.ledgerBytes := loadLedger_eq h
  obtain ⟨hfile, hbytes⟩ := (Addition.mk a .all).leaves_ledgerBytes h
  have hafter : Store.loadLedger (Store.append a d).2 = reading (d.ledgerBytes ++ addition d.ledgerBytes a) :=
    (loadLedger_eq hfile).trans (congrArg reading hbytes)
  refine ⟨?_, ?_, hbefore⟩
  · obtain ⟨record, slot, temp⟩ := d
    cases slot with
    | directory => exact absurd rfl h
    | absent | file => rfl
  · rw [hafter, hbefore, reading_addition]

/-- Among a broken line, a line that ends in two characters, one of nothing but blanks and one that does not
end, two trials; and a file that is no text. -/
theorem append_law_twice :
    let text : String := "767\n\x7b\"candidate\":767,\"outcome\":\"unknown\"\x7d\r\n \u00A0\x0B\r\n" ++
      "\x7b\"outcome\":\"connection_error\",\"candidate\":768\x7d"
    let mixed : StateDir := ⟨.absent, .file (Utf8.encode text), .absent⟩
    let broken : StateDir := ⟨.absent, .file [0xFF], .absent⟩
    mixed.ledger ≠ .directory ∧ broken.ledger ≠ .directory ∧
      Store.loadLedger (Store.append ⟨769, .success⟩ mixed).2 =
        .ok [⟨767, .unknown⟩, ⟨768, .connectionError⟩, ⟨769, .success⟩] ∧
      Store.loadLedger (Store.append ⟨769, .success⟩ broken).2 = Store.loadLedger broken := by
  intro text mixed broken
  have hmixed : mixed.ledger ≠ .directory := nofun
  have hbroken : broken.ledger ≠ .directory := nofun
  obtain ⟨-, happended, hread⟩ := append_law mixed ⟨769, .success⟩ hmixed
  obtain ⟨-, hsame, herror⟩ := append_law broken ⟨769, .success⟩ hbroken
  have htrials : trialsOf (Utf8.encode text) = [⟨767, .unknown⟩, ⟨768, .connectionError⟩] := by decide +kernel
  have hreading : reading (Utf8.encode text) = .ok [⟨767, .unknown⟩, ⟨768, .connectionError⟩] := by
    rw [reading, Utf8.decode?_encode, htrials]
  have hnone : reading [0xFF] = .error (.io "stream did not contain valid UTF-8") := by
    have hbytes : Utf8.decode? [0xFF] = none := by decide +kernel
    rw [reading, hbytes]
  refine ⟨hmixed, hbroken, ?_, ?_⟩
  · rw [happended, hread]
    exact congrArg (Except.map (· ++ [_])) hreading
  · rw [hsame, herror]
    exact congrArg (Except.map (· ++ [_])) hnone |>.trans hnone.symm

end StateDir

end Pickaxe.Negotiation
