import Pickaxe.Negotiation.StateDir
import Pickaxe.Proofs.Json.Line
import Pickaxe.Proofs.Json.Written
import Pickaxe.Proofs.Negotiation.Lawful

/-! The store on disk as a store.

What it writes it reads back: a record (`Record.read?_write`), and trials, each on a line of its
own whatever the ledger ends in (`attempts_addition`). So it is lawful, and no call fails while
none of its three files is a directory. -/
namespace Pickaxe.Negotiation

open Text

/-! ### Reading back -/

namespace Record
/-- The members of a written record, and what they are read as. -/
def members (r : Record) : List (String × Json × Json.Document) :=
  [("protocol_version", .int r.version.toInt, .number (Json.numeral r.version.toInt)),
    ("discovered_at", .int r.discoveredAt.toNat, .number (Json.numeral r.discoveredAt.toNat))] ++
    (r.server.map fun s => ("server", Json.text s, Json.Document.text (Json.glyphs s))).toList

theorem members_scalar (r : Record) : ∀ m ∈ r.members, Json.Scalar m.2.1 m.2.2 := by
  obtain ⟨version, stamp, server⟩ := r
  intro m hm
  cases server with
  | none =>
    simp only [members, Option.map_none, Option.toList_none, List.append_nil, List.mem_cons,
      List.not_mem_nil, or_false] at hm
    rcases hm with rfl | rfl <;> constructor
  | some s =>
    simp only [members, Option.map_some, Option.toList_some, List.cons_append, List.nil_append,
      List.mem_cons, List.not_mem_nil, or_false] at hm
    rcases hm with rfl | rfl | rfl <;> constructor

theorem json_eq (r : Record) : r.json = .object (r.members.map fun m => (m.1, m.2.1)) := by
  obtain ⟨version, stamp, server⟩ := r
  cases server <;> rfl

theorem members_names (r : Record) :
    (r.members.map Prod.fst).Sublist ["protocol_version", "discovered_at", "server"] := by
  obtain ⟨version, stamp, server⟩ := r
  refine .cons_cons _ (.cons_cons _ ?_)
  cases server with
  | none => exact List.nil_sublist _
  | some s => exact List.Sublist.refl _

/-- What is written of a record is read as that record. -/
theorem read?_write (r : Record) : read? r.write = some r := by
  have hread : Json.Document.read? r.write =
      some (.object (r.members.map fun m => (Json.glyphs m.1, m.2.2))) := by
    rw [write, json_eq]
    exact Json.read?_of_closes (Json.indented_closes 0 r.members_scalar)
  rw [read?, Json.Decoder.run?, hread, Option.bind_some]
  refine (Json.Decoder.decode_record _ (by decide) r.members_names _).trans ?_
  -- Each field is looked up once; `f` keeps the others from being looked up with it.
  generalize hf : Json.Fields.mk _ (r.members.map fun m => (m.1, m.2.2)) = f
  have hversion : f.required "protocol_version" .i32 = some r.version := by
    rw [← hf]
    exact Json.Decoder.decode_i32 _ r.version
  have hstamp : f.required "discovered_at" .u64 = some r.discoveredAt := by
    rw [← hf]
    exact Json.Decoder.decode_u64 _ r.discoveredAt
  have hserver : f.defaulted "server" (.nullable .text) none = some r.server := by
    rw [← hf]
    obtain ⟨version, stamp, server⟩ := r
    cases server with
    | none => rfl
    | some s => exact congrArg (Option.map some) (Json.Decoder.decode_text _ s)
  simp only [hversion, hstamp, hserver]
  rfl

end Record

namespace Attempt

/-- The members of a written trial, and what they are read as. -/
def members (a : Attempt) : List (String × Json × Json.Document) :=
  [("candidate", .int a.candidate.toInt, .number (Json.numeral a.candidate.toInt)),
    ("outcome", .text a.outcome.stored, .text (Json.glyphs a.outcome.stored))]

theorem members_scalar (a : Attempt) : ∀ m ∈ a.members, Json.Scalar m.2.1 m.2.2 := by
  intro m hm
  simp only [members, List.mem_cons, List.not_mem_nil, or_false] at hm
  rcases hm with rfl | rfl <;> constructor

theorem members_names (a : Attempt) :
    (a.members.map Prod.fst).Sublist ["candidate", "outcome"] := List.Sublist.refl _

theorem json_eq (a : Attempt) : a.json = .object (a.members.map fun m => (m.1, m.2.1)) := rfl

/-- What is written of a trial is read as that trial. -/
theorem read?_write (a : Attempt) : read? a.write = some a := by
  have hread : Json.Document.read? a.write =
      some (.object (a.members.map fun m => (Json.glyphs m.1, m.2.2))) := by
    rw [write, json_eq]
    exact Json.read?_of_closes (Json.compact_closes a.members_scalar)
  rw [read?, Json.Decoder.run?, hread, Option.bind_some]
  refine (Json.Decoder.decode_record _ (by decide) a.members_names _).trans ?_
  generalize hf : Json.Fields.mk _ (a.members.map fun m => (m.1, m.2.2)) = f
  have hcandidate : f.required "candidate" .i32 = some a.candidate := by
    rw [← hf]
    exact Json.Decoder.decode_i32 _ a.candidate
  have houtcome : f.required "outcome"
      (.choice (TrialOutcome.all.map fun o => (o.stored, o))) = some a.outcome := by
    rw [← hf]
    have hlookup : (TrialOutcome.all.map fun o => (o.stored, o)).lookup a.outcome.stored =
        some a.outcome := by
      cases a.outcome <;> rfl
    exact (Json.Decoder.decode_choice _ f.room a.outcome.stored).trans hlookup
  simp only [hcandidate, houtcome]
  rfl

/-- A trial is written in bytes that show, on one line. -/
theorem shown_write (a : Attempt) : ∀ b ∈ a.write, 0x20 ≤ b.toNat ∧ b.toNat < 0x7F := by
  refine Json.encode_shown (Json.shown_object ?_)
  rw [List.forall_mem_cons, List.forall_mem_singleton]
  refine ⟨⟨by simp [Json.Shown], ?_⟩, by simp [Json.Shown], ?_⟩
  · rw [Json.compact, Int.toString_eq_repr]
    exact Json.shown_repr _
  · rw [Json.compact]
    exact Json.shown_escaped (by cases a.outcome <;> simp [TrialOutcome.stored, Json.Shown])

theorem lineFeed_not_mem_write (a : Attempt) : 0x0A ∉ a.write := fun h =>
  absurd (a.shown_write _ h).1 (by decide)

end Attempt

/-! ### Ledgers -/

namespace StateDir

theorem lines_append (a b : List UInt8) : lines (a ++ 0x0A :: b) = lines a ++ lines b := by
  have hsome : ∀ bytes, lines bytes ≠ [] := by
    intro bytes
    cases bytes with
    | nil => exact List.cons_ne_nil _ _
    | cons c rest =>
      rw [lines]
      split
      · exact List.cons_ne_nil _ _
      · split <;> exact List.cons_ne_nil _ _
  induction a with
  | nil => rfl
  | cons c rest ih =>
    rw [List.cons_append, lines, lines, ih]
    by_cases hc : c = 0x0A
    · rw [if_pos hc, if_pos hc]
      rfl
    · rw [if_neg hc, if_neg hc]
      cases hrest : lines rest with
      | nil => exact absurd hrest (hsome rest)
      | cons l ls => rfl

theorem lines_of_not_mem {bytes : List UInt8} (h : 0x0A ∉ bytes) : lines bytes = [bytes] := by
  induction bytes with
  | nil => rfl
  | cons c rest ih =>
    rw [List.mem_cons, not_or] at h
    rw [lines, if_neg (Ne.symm h.1), ih h.2]

theorem attempts_append (a b : List UInt8) :
    attempts (a ++ 0x0A :: b) = attempts a ++ attempts b := by
  rw [attempts, lines_append, List.filterMap_append]
  rfl

theorem attempts_write (a : Attempt) : attempts a.write = [a] := by
  rw [attempts, lines_of_not_mem a.lineFeed_not_mem_write, List.filterMap_cons, a.read?_write]
  rfl

theorem attempts_nil : attempts [] = [] := rfl

/-- What parts a ledger from what is added to it. -/
def separator (ledger : List UInt8) : List UInt8 := if endsMidLine ledger then [0x0A] else []

theorem addition_eq (ledger : List UInt8) (a : Attempt) :
    addition ledger a = separator ledger ++ (a.write ++ [0x0A]) := List.append_assoc ..

/-- What comes behind the separator stands on lines of its own. -/
theorem attempts_separated (ledger added : List UInt8) :
    attempts (ledger ++ (separator ledger ++ added)) = attempts ledger ++ attempts added := by
  unfold separator
  cases hmid : endsMidLine ledger with
  | true => rw [if_pos rfl, List.singleton_append, attempts_append]
  | false =>
    rw [if_neg Bool.false_ne_true, List.nil_append]
    rcases List.eq_nil_or_concat ledger with rfl | ⟨before, last, rfl⟩
    · rfl
    · obtain rfl : last = 0x0A := by simpa [endsMidLine] using hmid
      rw [List.concat_eq_append, List.append_assoc, List.singleton_append, attempts_append,
        attempts_append, attempts_nil, List.append_nil]

/-- **A trial is added to those that a ledger holds**, whatever else is in it. -/
theorem attempts_addition (ledger : List UInt8) (a : Attempt) :
    attempts (ledger ++ addition ledger a) = attempts ledger ++ [a] := by
  rw [addition_eq, attempts_separated, attempts_append, attempts_write, attempts_nil]
  rfl

theorem ascii_addition (ledger : List UInt8) (a : Attempt) :
    ∀ b ∈ addition ledger a, b.toNat < 0x80 := by
  have hseparator : ∀ b ∈ separator ledger, b.toNat < 0x80 := by
    unfold separator
    split <;> simp
  rw [addition_eq, List.forall_mem_append, List.forall_mem_append, List.forall_mem_singleton]
  exact ⟨hseparator, fun b hb => Nat.lt_trans (a.shown_write b hb).2 (by decide), by decide⟩

/-- A ledger that is text stays text. -/
theorem decode?_addition (ledger : List UInt8) {text : String}
    (h : Utf8.decode? ledger = some text) (a : Attempt) :
    (Utf8.decode? (ledger ++ addition ledger a)).isSome = true := by
  rw [Utf8.isSome_decode?_append (ascii_addition ledger a), h]
  rfl

/-! ### The laws -/

theorem loadLedger_append {d : StateDir} {ledger : List Attempt} (h : d.loadLedger = .ok ledger)
    (a : Attempt) : (d.append a).2.loadLedger = .ok (ledger ++ [a]) := by
  obtain ⟨record, slot, temp⟩ := d
  cases slot with
  | directory => cases h
  | absent =>
    cases h
    obtain ⟨text, htext⟩ := Option.isSome_iff_exists.mp (decode?_addition [] rfl a)
    rw [List.nil_append] at htext
    have hattempts := attempts_addition [] a
    rw [List.nil_append, attempts_nil] at hattempts
    simp only [append, loadLedger, htext, hattempts]
  | file bytes =>
    cases hbytes : Utf8.decode? bytes with
    | none => simp only [loadLedger, hbytes, reduceCtorEq] at h
    | some before =>
      simp only [loadLedger, hbytes, Except.ok.injEq] at h
      obtain ⟨text, htext⟩ := Option.isSome_iff_exists.mp (decode?_addition bytes hbytes a)
      simp only [append, loadLedger, htext, attempts_addition, h]

theorem saveRecord_made {d : StateDir} (r : Record) (hok : (d.saveRecord r).1 = .ok ()) :
    (d.saveRecord r).2.loadRecord = .ok (some r) := by
  obtain ⟨record, ledger, temp⟩ := d
  cases temp with
  | directory => cases hok
  | absent | file =>
    cases record with
    | directory => cases hok
    | absent | file => simp [saveRecord, writeTemp, renameTemp, loadRecord, r.read?_write]

theorem saveRecord_loadLedger (d : StateDir) (r : Record) :
    (d.saveRecord r).2.loadLedger = d.loadLedger := by
  obtain ⟨record, ledger, temp⟩ := d
  cases temp <;> cases record <;> rfl

instance : LawfulStore StateDir where
  made := fun change d hok => by
    cases change with
    | saveRecord r => exact ⟨saveRecord_made r hok, saveRecord_loadLedger d r⟩
    | deleteRecord =>
      obtain ⟨record, ledger, temp⟩ := d
      cases record with
      | directory => cases hok
      | absent | file => exact ⟨rfl, rfl⟩
    | append a =>
      refine ⟨?_, fun ledger h => loadLedger_append h a⟩
      obtain ⟨record, ledger, temp⟩ := d
      cases ledger <;> rfl
    | clearLedger =>
      obtain ⟨record, ledger, temp⟩ := d
      cases ledger with
      | directory => cases hok
      | absent | file => exact ⟨rfl, rfl⟩
  failed := fun change d e he => by
    obtain ⟨record, ledger, temp⟩ := d
    cases change with
    | saveRecord r => cases temp <;> cases record <;> cases he <;> exact ⟨rfl, rfl⟩
    | deleteRecord =>
      cases record with
      | directory => exact ⟨rfl, rfl⟩
      | absent | file => cases he
    | append a | clearLedger =>
      cases ledger with
      | directory => exact ⟨rfl, rfl⟩
      | absent | file => cases he

/-- No file of the store is a directory. -/
def Writable (d : StateDir) : Prop :=
  d.record ≠ .directory ∧ d.ledger ≠ .directory ∧ d.temp ≠ .directory

/-- Then every call succeeds, whatever bytes the files hold. -/
theorem reliable : Reliable Writable where
  succeeds := fun change d hd => by
    obtain ⟨record, ledger, temp⟩ := d
    obtain ⟨hrecord, hledger, htemp⟩ := hd
    cases change with
    | saveRecord r => cases temp <;> cases record <;> first | rfl | contradiction
    | deleteRecord => cases record <;> first | rfl | contradiction
    | append a => cases ledger <;> first | rfl | contradiction
    | clearLedger => cases ledger <;> first | rfl | contradiction
  stays := fun change d hd => by
    obtain ⟨record, ledger, temp⟩ := d
    obtain ⟨hrecord, hledger, htemp⟩ := hd
    cases change with
    | saveRecord r =>
      cases temp <;> cases record <;> first | contradiction | exact ⟨nofun, hledger, nofun⟩
    | deleteRecord => cases record <;> first | contradiction | exact ⟨nofun, hledger, htemp⟩
    | append a => cases ledger <;> first | contradiction | exact ⟨hrecord, nofun, htemp⟩
    | clearLedger => cases ledger <;> first | contradiction | exact ⟨hrecord, nofun, htemp⟩

end StateDir

end Pickaxe.Negotiation
