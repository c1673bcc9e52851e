import Pickaxe.Proofs.Json.Cut
import Pickaxe.Proofs.Negotiation.Files

/-! Calls that are broken off while they write.

A call that adds a trial to the ledger may be cut at any byte. What has come of it by then stands
on lines of its own, whatever the ledger held before, and is read as the trial if its text is
complete, as nothing if it is not (`attempts_part`). So a ledger is read as the trials whose texts
have reached it whole, in the order of their calls, however many of the calls were cut
(`torn_ledger`).

A call that saves a record writes no byte of it where the record is read. Broken off anywhere it
leaves the record that was; what it leaves in the temporary file is of no matter to later calls
(`record_replaced`). -/
namespace Pickaxe.Negotiation

open Text

namespace Attempt

/-- The text of a trial ends in a brace, so that no more than a part of it is a text. -/
theorem read?_take (a : Attempt) {n : Nat} (hn : n < a.write.length) :
    read? (a.write.take n) = none := by
  have hbrace : 0x7D ∈ a.write.drop n := by
    obtain ⟨body, hbody⟩ : ∃ body, a.write = body ++ [0x7D] := Json.object_concat _
    have hlength : n ≤ body.length := by
      rw [hbody, List.length_append, List.length_singleton] at hn
      omega
    rw [hbody, List.drop_append_of_le_length hlength]
    exact List.mem_append_right _ (List.mem_singleton_self _)
  obtain ⟨d, hd, -⟩ := Option.bind_eq_some_iff.mp a.read?_write
  rw [← List.take_append_drop n a.write] at hd
  rw [read?, Json.Decoder.run?, Json.read?_cut hd hbrace]
  rfl

theorem write_ne_nil (a : Attempt) : a.write ≠ [] := by
  obtain ⟨body, hbody⟩ : ∃ body, a.write = body ++ [0x7D] := Json.object_concat _
  rw [hbody]
  exact List.append_ne_nil_of_right_ne_nil _ (List.cons_ne_nil _ _)

end Attempt

/-- A trial and what has reached the ledger of it. -/
structure Part where
  attempt : Attempt
  bytes : List UInt8
deriving DecidableEq, Repr

/-- The whole text of the trial is there. -/
def Part.IsWhole (p : Part) : Prop := p.attempt.write <:+: p.bytes

instance (p : Part) : Decidable p.IsWhole := inferInstanceAs (Decidable (_ <:+: _))

namespace StateDir

/-! ### A part of an addition -/

theorem separator_cases (ledger : List UInt8) :
    separator ledger = [] ∨ separator ledger = [0x0A] := by
  unfold separator
  split
  · exact .inr rfl
  · exact .inl rfl

/-- The text of a trial is complete in a part of its addition as soon as that part is long enough:
it stands nowhere but where it belongs. -/
theorem isWhole_iff (ledger : List UInt8) (a : Attempt) (n : Nat) :
    (Part.mk a ((addition ledger a).take n)).IsWhole ↔
      (separator ledger).length + a.write.length ≤ n := by
  constructor
  · intro hwhole
    have hpart : a.write <:+: (addition ledger a).take n := hwhole
    have hlength : a.write.length ≤ n :=
      Nat.le_trans hpart.length_le (List.length_take_le n _)
    rcases separator_cases ledger with hnone | hbreak
    · rw [hnone, List.length_nil, Nat.zero_add]
      exact hlength
    · rw [hbreak, List.length_singleton]
      refine Decidable.byContradiction fun hshort => ?_
      -- The part would be the text, though it starts with a line break.
      obtain rfl : n = a.write.length := by omega
      have htext : a.write = (addition ledger a).take a.write.length := by
        refine hpart.eq_of_length ?_
        rw [List.length_take, addition_eq, List.length_append, List.length_append]
        omega
      rw [addition_eq, hbreak, List.singleton_append] at htext
      cases hwrite : a.write with
      | nil => exact a.write_ne_nil hwrite
      | cons b rest =>
        rw [hwrite, List.length_cons, List.take_succ_cons, List.cons.injEq] at htext
        have hfirst : 0x0A ∈ a.write := by
          rw [hwrite, htext.1]
          exact List.mem_cons_self ..
        exact a.lineFeed_not_mem_write hfirst
  · intro hlong
    have hwhole : separator ledger ++ a.write <+: (addition ledger a).take n := by
      rw [List.prefix_take_iff, addition_eq, ← List.append_assoc, List.length_append]
      exact ⟨List.prefix_append _ _, hlong⟩
    exact (List.suffix_append _ _).isInfix.trans hwhole.isInfix

theorem attempts_take_write (a : Attempt) (n : Nat) :
    attempts ((a.write ++ [0x0A]).take n) = if a.write.length ≤ n then [a] else [] := by
  by_cases hlong : a.write.length ≤ n
  · rw [if_pos hlong, List.take_append, List.take_of_length_le hlong]
    cases hn : n - a.write.length with
    | zero => rw [List.take_zero, List.append_nil, attempts_write]
    | succ k =>
      rw [List.take_succ_cons, List.take_nil, attempts_append, attempts_write, attempts_nil]
      rfl
  · have hshort : n < a.write.length := Nat.lt_of_not_le hlong
    have hline : 0x0A ∉ a.write.take n := fun h =>
      a.lineFeed_not_mem_write (List.mem_of_mem_take h)
    rw [if_neg hlong, List.take_append_of_le_length (Nat.le_of_lt hshort), attempts,
      lines_of_not_mem hline, List.filterMap_cons, a.read?_take hshort]
    rfl

/-- **A part of a trial adds the trial to what a ledger is read as, or nothing**, whatever else is
in it. -/
theorem attempts_part (ledger : List UInt8) (a : Attempt) (n : Nat) :
    attempts (ledger ++ (addition ledger a).take n) =
      attempts ledger ++ if (Part.mk a ((addition ledger a).take n)).IsWhole then [a] else [] := by
  simp only [isWhole_iff]
  by_cases hseparated : (separator ledger).length ≤ n
  · have hlong : (separator ledger).length + a.write.length ≤ n ↔
        a.write.length ≤ n - (separator ledger).length := by omega
    rw [addition_eq, List.take_append, List.take_of_length_le hseparated, attempts_separated,
      attempts_take_write]
    simp only [hlong]
  · obtain rfl : n = 0 := by
      rcases separator_cases ledger with h | h <;> simp [h] at hseparated
      exact hseparated
    rw [List.take_zero, List.append_nil, if_neg (by omega), List.append_nil]

/-- With a part of a trial a text stays text. -/
theorem decode?_part {ledger : List UInt8} {text : String} (h : Utf8.decode? ledger = some text)
    (a : Attempt) (n : Nat) :
    (Utf8.decode? (ledger ++ (addition ledger a).take n)).isSome = true := by
  have hascii : ∀ b ∈ (addition ledger a).take n, b.toNat < 0x80 := fun b hb =>
    ascii_addition ledger a b (List.mem_of_mem_take hb)
  rw [Utf8.isSome_decode?_append hascii, h]
  rfl

/-! ### The ledger as bytes -/

/-- What the file of the ledger holds, if there is one. -/
def ledgerBytes (d : StateDir) : List UInt8 :=
  match d.ledger with
  | .file bytes => bytes
  | .absent | .directory => []

theorem loadLedger_eq_ok_iff {d : StateDir} {ledger : List Attempt} :
    d.loadLedger = .ok ledger ↔ d.ledger ≠ .directory ∧
      (Utf8.decode? d.ledgerBytes).isSome = true ∧ attempts d.ledgerBytes = ledger := by
  obtain ⟨record, slot, temp⟩ := d
  cases slot with
  | absent =>
    have hempty : (Utf8.decode? []).isSome = true := rfl
    simp [loadLedger, ledgerBytes, attempts_nil, hempty]
  | directory => simp [loadLedger]
  | file bytes => cases h : Utf8.decode? bytes <;> simp [loadLedger, ledgerBytes, h]

/-- The first bytes of a trial, in a ledger that is made if there is none. -/
def appendPart (n : Nat) (a : Attempt) (d : StateDir) : StateDir :=
  match d.ledger with
  | .absent => { d with ledger := .file ((addition [] a).take n) }
  | .file bytes => { d with ledger := .file (bytes ++ (addition bytes a).take n) }
  | .directory => d

end StateDir

/-! ### Calls that add trials -/

/-- How far a call comes that writes to a file. -/
inductive Extent where
  /-- It is broken off before it opens the file. -/
  | unopened
  /-- It is broken off when so many bytes have reached the file. -/
  | bytes (n : Nat)
  /-- It returns. -/
  | all
deriving DecidableEq, Repr

/-- A call that adds a trial. -/
structure Addition where
  attempt : Attempt
  extent : Extent
deriving DecidableEq, Repr

namespace Addition

/-- What the call leaves of the directory. -/
def leaves (x : Addition) (d : StateDir) : StateDir :=
  match x.extent with
  | .unopened => d
  | .bytes n => d.appendPart n x.attempt
  | .all => (Store.append x.attempt d).2

/-- What it brings to the ledger. -/
def part (x : Addition) (d : StateDir) : Part :=
  let whole := StateDir.addition d.ledgerBytes x.attempt
  match x.extent with
  | .unopened => ⟨x.attempt, []⟩
  | .bytes n => ⟨x.attempt, whole.take n⟩
  | .all => ⟨x.attempt, whole⟩

theorem part_eq_take (x : Addition) (d : StateDir) :
    ∃ n, x.part d = ⟨x.attempt, (StateDir.addition d.ledgerBytes x.attempt).take n⟩ := by
  obtain ⟨a, extent⟩ := x
  cases extent with
  | unopened => exact ⟨0, rfl⟩
  | bytes n => exact ⟨n, rfl⟩
  | all => exact ⟨_, by rw [List.take_length]; rfl⟩

theorem leaves_ledgerBytes (x : Addition) {d : StateDir} (hd : d.ledger ≠ .directory) :
    (x.leaves d).ledger ≠ .directory ∧
      (x.leaves d).ledgerBytes = d.ledgerBytes ++ (x.part d).bytes := by
  obtain ⟨a, extent⟩ := x
  obtain ⟨record, slot, temp⟩ := d
  cases slot with
  | directory => exact absurd rfl hd
  | absent => cases extent <;> exact ⟨nofun, rfl⟩
  | file bytes =>
    cases extent with
    | unopened => exact ⟨nofun, (List.append_nil bytes).symm⟩
    | bytes n => exact ⟨nofun, rfl⟩
    | all => exact ⟨nofun, rfl⟩

/-- **A call adds its trial to the ledger if the whole text has reached it**, and nothing else. -/
theorem leaves_loadLedger (x : Addition) {d : StateDir} {ledger : List Attempt}
    (h : d.loadLedger = .ok ledger) :
    (x.leaves d).loadLedger =
      .ok (ledger ++ if (x.part d).IsWhole then [x.attempt] else []) := by
  obtain ⟨hfile, htext, hread⟩ := StateDir.loadLedger_eq_ok_iff.mp h
  obtain ⟨hfile', hbytes⟩ := x.leaves_ledgerBytes hfile
  obtain ⟨text, htext⟩ := Option.isSome_iff_exists.mp htext
  obtain ⟨n, hpart⟩ := x.part_eq_take d
  rw [hpart] at hbytes ⊢
  refine StateDir.loadLedger_eq_ok_iff.mpr ⟨hfile', ?_, ?_⟩
  · rw [hbytes]
    exact StateDir.decode?_part htext x.attempt n
  · rw [hbytes, StateDir.attempts_part, hread]

end Addition

/-- What calls leave of a directory, one after another. -/
def addAll : List Addition → StateDir → StateDir
  | [], d => d
  | x :: rest, d => addAll rest (x.leaves d)

/-- What they bring to the ledger. -/
def parts : List Addition → StateDir → List Part
  | [], _ => []
  | x :: rest, d => x.part d :: parts rest (x.leaves d)

theorem addAll_ledgerBytes (calls : List Addition) {d : StateDir} (hd : d.ledger ≠ .directory) :
    (addAll calls d).ledgerBytes = d.ledgerBytes ++ ((parts calls d).map Part.bytes).flatten := by
  induction calls generalizing d with
  | nil => exact (List.append_nil _).symm
  | cons x rest ih =>
    obtain ⟨hfile, hbytes⟩ := x.leaves_ledgerBytes hd
    rw [addAll, parts, List.map_cons, List.flatten_cons, ih hfile, hbytes, List.append_assoc]

theorem addAll_loadLedger (calls : List Addition) {d : StateDir} {ledger : List Attempt}
    (h : d.loadLedger = .ok ledger) :
    (addAll calls d).loadLedger =
      .ok (ledger ++ ((parts calls d).filter Part.IsWhole).map Part.attempt) := by
  induction calls generalizing d ledger with
  | nil => rw [addAll, parts, h, List.filter_nil, List.map_nil, List.append_nil]
  | cons x rest ih =>
    have hattempt : (x.part d).attempt = x.attempt := by
      obtain ⟨n, hpart⟩ := x.part_eq_take d
      rw [hpart]
    rw [addAll, parts, ih (x.leaves_loadLedger h), List.filter_cons]
    by_cases hwhole : (x.part d).IsWhole <;> simp [hwhole, hattempt]

/-- **A ledger loses only what has not reached it whole.** After any calls that add trials to a
ledger that was not there, each of which may have been cut by a crash at any byte, the file holds
what the calls have brought to it, and is read as the trials whose whole text is among that, in
their order. -/
theorem torn_ledger (calls : List Addition) (d : StateDir) (hd : d.ledger = .absent) :
    (addAll calls d).ledgerBytes = ((parts calls d).map Part.bytes).flatten ∧
      (addAll calls d).loadLedger =
        .ok (((parts calls d).filter Part.IsWhole).map Part.attempt) := by
  have hfile : d.ledger ≠ .directory := by simp [hd]
  have hbytes : d.ledgerBytes = [] := by rw [StateDir.ledgerBytes, hd]
  have hload : d.loadLedger = .ok [] := by rw [StateDir.loadLedger, hd]
  refine ⟨?_, ?_⟩
  · rw [addAll_ledgerBytes calls hfile, hbytes, List.nil_append]
  · rw [addAll_loadLedger calls hload, List.nil_append]

/-- A call is cut inside a name, the next one behind its line break, the third before its own. -/
theorem torn_ledger_thrice :
    let calls : List Addition := [⟨⟨767, .incompatibleClient⟩, .bytes 20⟩,
      ⟨⟨768, .unknown⟩, .bytes 1⟩, ⟨⟨769, .connectionError⟩, .bytes 46⟩, ⟨⟨770, .success⟩, .all⟩]
    StateDir.empty.ledger = .absent ∧
      (addAll calls .empty).loadLedger = .ok [⟨769, .connectionError⟩, ⟨770, .success⟩] := by
  intro calls
  refine ⟨rfl, (torn_ledger calls .empty rfl).2.trans (congrArg Except.ok ?_)⟩
  decide +kernel

/-! ### Calls that save records -/

/-- A call that saves a record. -/
structure Saving where
  record : Record
  extent : Extent
deriving DecidableEq, Repr

namespace Saving

/-- What the call leaves of the directory. All bytes are in the temporary file before it is
renamed, and a call that cannot rename it is broken off there. -/
def leaves (x : Saving) (d : StateDir) : StateDir :=
  match x.extent with
  | .unopened => d
  | .bytes n => (d.writeTemp (x.record.write.take n)).2
  | .all => (Store.saveRecord x.record d).2

end Saving

namespace StateDir

theorem writeTemp_loadRecord (d : StateDir) (bytes : List UInt8) :
    (d.writeTemp bytes).2.loadRecord = d.loadRecord := by
  obtain ⟨record, ledger, temp⟩ := d
  cases temp <;> rfl

theorem record_of_loadRecord {d : StateDir} {found : Option Record}
    (h : d.loadRecord = .ok found) : d.record ≠ .directory := by
  intro hrecord
  rw [loadRecord, hrecord] at h
  cases h

/-- A record can be saved where no directory stands in the way. -/
theorem saveRecord_ok {d : StateDir} (hrecord : d.record ≠ .directory)
    (htemp : d.temp ≠ .directory) (r : Record) : (Store.saveRecord r d).1 = .ok () := by
  obtain ⟨record, ledger, temp⟩ := d
  cases temp with
  | directory => exact absurd rfl htemp
  | absent | file =>
    cases record with
    | directory => exact absurd rfl hrecord
    | absent | file => rfl

end StateDir

namespace Saving

/-- A call that is broken off leaves the record. -/
theorem leaves_broken (x : Saving) (hx : x.extent ≠ .all) (d : StateDir) :
    (x.leaves d).loadRecord = d.loadRecord := by
  obtain ⟨r, extent⟩ := x
  cases extent with
  | unopened => rfl
  | bytes n => exact d.writeTemp_loadRecord _
  | all => exact absurd rfl hx

/-- **Any call leaves the record that was, or the new one.** -/
theorem leaves_loadRecord (x : Saving) (d : StateDir) :
    (x.leaves d).loadRecord = d.loadRecord ∨ (x.leaves d).loadRecord = .ok (some x.record) := by
  obtain ⟨r, extent⟩ := x
  cases extent with
  | unopened => exact .inl (leaves_broken ⟨r, .unopened⟩ nofun d)
  | bytes n => exact .inl (leaves_broken ⟨r, .bytes n⟩ nofun d)
  | all =>
    rcases LawfulStore.made_or_unchanged (.saveRecord r) d with hmade | hunchanged
    · exact .inr hmade.record
    · exact .inl hunchanged.record

/-- No call puts a directory in the place of a file. -/
theorem leaves_slots (x : Saving) {d : StateDir} (hrecord : d.record ≠ .directory)
    (htemp : d.temp ≠ .directory) :
    (x.leaves d).record ≠ .directory ∧ (x.leaves d).temp ≠ .directory := by
  obtain ⟨r, extent⟩ := x
  obtain ⟨record, ledger, temp⟩ := d
  cases extent with
  | unopened => exact ⟨hrecord, htemp⟩
  | bytes n =>
    cases temp with
    | directory => exact absurd rfl htemp
    | absent | file => exact ⟨hrecord, nofun⟩
  | all =>
    cases temp with
    | directory => exact absurd rfl htemp
    | absent | file =>
      cases record with
      | directory => exact absurd rfl hrecord
      | absent | file => exact ⟨nofun, nofun⟩

end Saving

/-- What calls that save records leave of a directory, one after another. -/
def saveAll : List Saving → StateDir → StateDir
  | [], d => d
  | x :: rest, d => saveAll rest (x.leaves d)

theorem saveAll_loadRecord (saves : List Saving) (d : StateDir) :
    (saveAll saves d).loadRecord = d.loadRecord ∨
      ∃ x ∈ saves, (saveAll saves d).loadRecord = .ok (some x.record) := by
  induction saves generalizing d with
  | nil => exact .inl rfl
  | cons x rest ih =>
    rcases ih (x.leaves d) with hsame | ⟨y, hy, hsaved⟩
    · rcases x.leaves_loadRecord d with hold | hnew
      · exact .inl (hsame.trans hold)
      · exact .inr ⟨x, List.mem_cons_self .., hsame.trans hnew⟩
    · exact .inr ⟨y, List.mem_cons_of_mem _ hy, hsaved⟩

theorem saveAll_slots (saves : List Saving) {d : StateDir} (hrecord : d.record ≠ .directory)
    (htemp : d.temp ≠ .directory) :
    (saveAll saves d).record ≠ .directory ∧ (saveAll saves d).temp ≠ .directory := by
  induction saves generalizing d with
  | nil => exact ⟨hrecord, htemp⟩
  | cons x rest ih =>
    obtain ⟨hrecord', htemp'⟩ := x.leaves_slots hrecord htemp
    exact ih hrecord' htemp'

/-- **A record is replaced whole or not at all.** Let a directory hold a record that can be read, or
none, and anything in the temporary file. After any calls that save records, each of which may have
been broken off anywhere:

* what is read is what was there at first, or one of the records that were to be saved;
* a further call leaves what was read before it if it is broken off, and what was read or its own
  record in any case;
* if it returns without an error, its own record is read, and it does so unless a directory stands
  in the place of the temporary file. -/
theorem record_replaced (saves : List Saving) (d : StateDir) (old : Option Record)
    (hold : d.loadRecord = .ok old) (x : Saving) :
    let found := saveAll saves d
    (found.loadRecord = .ok old ∨ ∃ y ∈ saves, found.loadRecord = .ok (some y.record)) ∧
    ((x.leaves found).loadRecord = found.loadRecord ∨
      (x.leaves found).loadRecord = .ok (some x.record)) ∧
    (x.extent ≠ .all → (x.leaves found).loadRecord = found.loadRecord) ∧
    ((Store.saveRecord x.record found).1 = .ok () →
      (Store.saveRecord x.record found).2.loadRecord = .ok (some x.record)) ∧
    (d.temp ≠ .directory → (Store.saveRecord x.record found).1 = .ok ()) := by
  intro found
  refine ⟨?_, x.leaves_loadRecord found, fun hx => x.leaves_broken hx found,
    StateDir.saveRecord_made x.record, fun htemp => ?_⟩
  · rw [← hold]
    exact saveAll_loadRecord saves d
  · obtain ⟨hrecord', htemp'⟩ := saveAll_slots saves (StateDir.record_of_loadRecord hold) htemp
    exact StateDir.saveRecord_ok hrecord' htemp' x.record

/-- One call is cut in the temporary file, where another had been, the next one before it renames
it, and the third returns. -/
theorem record_replaced_late :
    let d : StateDir := ⟨.file (Record.write ⟨767, 5, none⟩), .absent, .file [0x7B]⟩
    let cut : List Saving := [⟨⟨768, 6, none⟩, .bytes 10⟩, ⟨⟨769, 7, none⟩, .bytes 1000⟩]
    d.loadRecord = .ok (some ⟨767, 5, none⟩) ∧
      (saveAll cut d).loadRecord = .ok (some ⟨767, 5, none⟩) ∧
      (Store.saveRecord ⟨770, 8, none⟩ (saveAll cut d)).2.loadRecord =
        .ok (some ⟨770, 8, none⟩) := by
  intro d cut
  have hold : d.loadRecord = .ok (some ⟨767, 5, none⟩) := by
    simp [d, StateDir.loadRecord, Record.read?_write]
  have hfirst := (record_replaced [] d _ hold ⟨⟨768, 6, none⟩, .bytes 10⟩).2.2.1 (by decide)
  have hsecond := (record_replaced [⟨⟨768, 6, none⟩, .bytes 10⟩] d _ hold
    ⟨⟨769, 7, none⟩, .bytes 1000⟩).2.2.1 (by decide)
  obtain ⟨-, -, -, hsaved, hreturns⟩ :=
    record_replaced cut d _ hold ⟨⟨770, 8, none⟩, .all⟩
  exact ⟨hold, hsecond.trans (hfirst.trans hold), hsaved (hreturns (by simp [d]))⟩

end Pickaxe.Negotiation
