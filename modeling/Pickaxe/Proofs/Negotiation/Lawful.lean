import Pickaxe.Proofs.Negotiation.Alike

/-! What a store owes to those who use it.

A store is lawful if a call that succeeds does what it is asked to and nothing else, and one that
fails changes nothing that can be read. Nothing is said of what stands in the store before: a
record that cannot be read is a record like any other until it is replaced. Under a condition that
keeps all calls from failing (`Reliable`), a lawful store that can be read is one in memory
(`Reliable.simulation`); two with the same ledger go on to have the same ledger, and what they have
on record stays the same but for its stamp. -/
namespace Pickaxe.Negotiation

open Packet (Version)

variable {σ τ : Type} [Store σ] [Store τ]

/-- Nothing that can be read has changed. -/
structure Unchanged (s s' : σ) : Prop where
  record : Store.loadRecord s' = Store.loadRecord s
  ledger : Store.loadLedger s' = Store.loadLedger s

/-- What can be read of the record once the change is made. -/
def Change.RecordMade (s s' : σ) : Change → Prop
  | .saveRecord r => Store.loadRecord s' = .ok (some r)
  | .deleteRecord => Store.loadRecord s' = .ok none
  | .append _ | .clearLedger => Store.loadRecord s' = Store.loadRecord s

/-- What can be read of the ledger. A trial comes after those that could be read before. -/
def Change.LedgerMade (s s' : σ) : Change → Prop
  | .append a => ∀ ledger, Store.loadLedger s = .ok ledger →
    Store.loadLedger s' = .ok (ledger ++ [a])
  | .clearLedger => Store.loadLedger s' = .ok []
  | .saveRecord _ | .deleteRecord => Store.loadLedger s' = Store.loadLedger s

/-- The change is made, and nothing else. -/
structure Change.Made (change : Change) (s s' : σ) : Prop where
  record : change.RecordMade s s'
  ledger : change.LedgerMade s s'

class LawfulStore (σ : Type) [Store σ] : Prop where
  made : ∀ (change : Change) (s : σ), (change.apply s).1 = .ok () →
    change.Made s (change.apply s).2
  failed : ∀ (change : Change) (s : σ) (e : StoreError), (change.apply s).1 = .error e →
    Unchanged s (change.apply s).2

theorem LawfulStore.made_or_unchanged [LawfulStore σ] (change : Change) (s : σ) :
    change.Made s (change.apply s).2 ∨ Unchanged s (change.apply s).2 := by
  cases hresult : (change.apply s).1 with
  | ok => exact .inl (made change s hresult)
  | error e => exact .inr (failed change s e hresult)

/-- A condition under which no call fails, and that no call ends. -/
structure Reliable (ready : σ → Prop) : Prop where
  succeeds : ∀ (change : Change) s, ready s → (change.apply s).1 = .ok ()
  stays : ∀ (change : Change) s, ready s → ready (change.apply s).2

instance : LawfulStore MemoryStore where
  made := fun change s _ => by
    cases change with
    | append a => exact ⟨rfl, fun ledger h => by cases h; rfl⟩
    | saveRecord _ | deleteRecord | clearLedger => exact ⟨rfl, rfl⟩
  failed := fun change s e h => by cases change <;> cases h

theorem MemoryStore.reliable : Reliable (fun _ : MemoryStore => True) where
  succeeds := fun change _ _ => by cases change <;> rfl
  stays := fun _ _ _ => trivial

/-! ### Failing calls -/

/-- The call that makes the change. -/
def Change.call : Change → StoreCall
  | .saveRecord _ => .saveRecord
  | .deleteRecord => .deleteRecord
  | .append _ => .append
  | .clearLedger => .clearLedger

namespace Faulty

theorem apply_eq (change : Change) (s : Faulty σ) :
    change.apply s = Faulty.change change.call change.apply s := by
  cases change <;> rfl

variable [LawfulStore σ]

/-- A change that succeeds in spite of the schedule is made. -/
theorem made (change : Change) (s : Faulty σ) (hok : (change.apply s).1 = .ok ()) :
    change.Made s.inner (change.apply s).2.inner := by
  rw [apply_eq] at hok ⊢
  unfold Faulty.change at hok ⊢
  cases hfault : s.fault s.asked change.call with
  | some e =>
    rw [hfault] at hok
    cases hok
  | none =>
    rw [hfault] at hok
    exact LawfulStore.made change s.inner hok

/-- One that does not, by the schedule or by itself, changes nothing. -/
theorem made_or_unchanged (change : Change) (s : Faulty σ) :
    change.Made s.inner (change.apply s).2.inner ∨
      Unchanged s.inner (change.apply s).2.inner := by
  rw [apply_eq]
  unfold Faulty.change
  cases s.fault s.asked change.call with
  | some e => exact .inr ⟨rfl, rfl⟩
  | none => exact LawfulStore.made_or_unchanged change s.inner

end Faulty

/-- A store that does not fail by itself does not begin to on a schedule of faults. -/
theorem Reliable.replay_faulty {ready : σ → Prop} (h : Reliable ready) (changes : List Change)
    (s : Faulty σ) (hs : ready s.inner) : ready (replay changes s).inner := by
  induction changes generalizing s with
  | nil => exact hs
  | cons change rest ih =>
    refine ih (change.apply s).2 ?_
    rcases Faulty.apply_inner change s with hsame | hmade
    · rwa [hsame]
    · rw [hmade]
      exact h.stays change s.inner hs

/-! ### Lawful stores side by side -/

/-- What can be read of the store is what is in memory. -/
structure Holds (s : σ) (m : MemoryStore) : Prop where
  record : Store.loadRecord s = .ok m.record
  ledger : Store.loadLedger s = .ok m.ledger

theorem Change.Made.ledger_memory {change : Change} {s s' : σ} (h : change.Made s s')
    {m : MemoryStore} (hm : Store.loadLedger s = .ok m.ledger) :
    Store.loadLedger s' = .ok (change.apply m).2.ledger := by
  have hledger := h.ledger
  cases change with
  | append a => exact hledger m.ledger hm
  | clearLedger => exact hledger
  | saveRecord _ | deleteRecord => exact Eq.trans hledger hm

theorem Change.Made.record_memory {change : Change} {s s' : σ} (h : change.Made s s')
    {m : MemoryStore} (hm : Store.loadRecord s = .ok m.record) :
    Store.loadRecord s' = .ok (change.apply m).2.record := by
  have hrecord := h.record
  cases change with
  | saveRecord _ | deleteRecord => exact hrecord
  | append _ | clearLedger => exact Eq.trans hrecord hm

/-- **A lawful store that does not fail is a store in memory**, once it can be read. -/
theorem Reliable.simulation [LawfulStore σ] {ready : σ → Prop} (h : Reliable ready) :
    Simulation fun (s : σ) (m : MemoryStore) => ready s ∧ Holds s m where
  loadRecord := fun s m hs => hs.2.record
  loadLedger := fun s m hs => hs.2.ledger
  change := fun change s m hs => by
    have hok := h.succeeds change s hs.1
    have hmade := LawfulStore.made change s hok
    refine ⟨?_, h.stays change s hs.1, hmade.record_memory hs.2.record,
      hmade.ledger_memory hs.2.ledger⟩
    rw [hok]
    cases change <;> rfl

/-- The same change, but for the stamp of a record. -/
inductive Change.Twins : Change → Change → Prop
  | saveRecord (version : Version) (stamp stamp' : UInt64) (server : Option String) :
    Twins (.saveRecord ⟨version, stamp, server⟩) (.saveRecord ⟨version, stamp', server⟩)
  | refl (change : Change) : Twins change change

/-- Stores of which no such change is told apart answer alike at any times. -/
theorem Mirrors.of_twins {stores : σ → τ → Prop}
    (hload : ∀ s t, stores s t → Store.loadLedger s = Store.loadLedger t)
    (hchange : ∀ {change change' : Change}, change.Twins change' → ∀ s t, stores s t →
      Agree stores (change.apply s) (change'.apply t)) (now now' : UInt64) :
    Mirrors now now' stores where
  loadLedger := hload
  saveRecord := fun version server => hchange (.saveRecord version now now' server)
  deleteRecord := hchange (.refl .deleteRecord)
  append := fun a => hchange (.refl (.append a))
  clearLedger := hchange (.refl .clearLedger)

/-- A record without its stamp. -/
def Record.unstamped (r : Record) : Version × Option String := (r.version, r.server)

theorem Change.Twins.ledger {change change' : Change} (h : change.Twins change')
    {m m' : MemoryStore} (hm : m.ledger = m'.ledger) :
    (change.apply m).2.ledger = (change'.apply m').2.ledger := by
  cases h with
  | saveRecord => exact hm
  | refl =>
    cases change with
    | append a => exact congrArg (· ++ [a]) hm
    | clearLedger => rfl
    | saveRecord _ | deleteRecord => exact hm

theorem Change.Twins.record {change change' : Change} (h : change.Twins change')
    {m m' : MemoryStore} (hm : m.record.map Record.unstamped = m'.record.map Record.unstamped) :
    (change.apply m).2.record.map Record.unstamped =
      (change'.apply m').2.record.map Record.unstamped := by
  cases h with
  | saveRecord => rfl
  | refl =>
    cases change with
    | saveRecord _ | deleteRecord => rfl
    | append _ | clearLedger => exact hm

section
variable (ready : σ → Prop) (ready' : τ → Prop)

/-- Two stores that do not fail and have the same ledger. -/
structure SameLedger (s : σ) (t : τ) : Prop where
  left : ready s
  right : ready' t
  ledger : ∃ ledger, Store.loadLedger s = .ok ledger ∧ Store.loadLedger t = .ok ledger

/-- Two stores that do not fail and hold the same, but for the stamp of the record. -/
structure Similar (s : σ) (t : τ) : Prop extends SameLedger ready ready' s t where
  record : ∃ record record', Store.loadRecord s = .ok record ∧ Store.loadRecord t = .ok record' ∧
    record.map Record.unstamped = record'.map Record.unstamped

end

section
variable {ready : σ → Prop} {ready' : τ → Prop} {s : σ} {t : τ}

theorem SameLedger.loadLedger (hst : SameLedger ready ready' s t) :
    Store.loadLedger s = Store.loadLedger t := by
  obtain ⟨ledger, hledger, hledger'⟩ := hst.ledger
  rw [hledger, hledger']

theorem Similar.unstamped (hst : Similar ready ready' s t) :
    (Store.loadRecord s).map (Option.map Record.unstamped) =
      (Store.loadRecord t).map (Option.map Record.unstamped) := by
  obtain ⟨record, record', hrecord, hrecord', hsame⟩ := hst.record
  rw [hrecord, hrecord']
  exact congrArg Except.ok hsame

theorem Similar.onRecord (hst : Similar ready ready' s t) :
    Controller.onRecord s = Controller.onRecord t := by
  obtain ⟨record, record', hrecord, hrecord', hsame⟩ := hst.record
  have hversions := congrArg (Option.map Prod.fst) hsame
  rw [Option.map_map, Option.map_map] at hversions
  rw [Controller.onRecord, Controller.onRecord, hrecord, hrecord']
  exact congrArg Except.ok hversions

variable [LawfulStore σ] [LawfulStore τ] (h : Reliable ready) (h' : Reliable ready')
include h h'

theorem SameLedger.change {change change' : Change} (htwins : change.Twins change')
    (hst : SameLedger ready ready' s t) :
    Agree (SameLedger ready ready') (change.apply s) (change'.apply t) := by
  have hs := h.succeeds change s hst.left
  have ht := h'.succeeds change' t hst.right
  obtain ⟨ledger, hledger, hledger'⟩ := hst.ledger
  -- What becomes of a ledger does not depend on the record beside it.
  let m : MemoryStore := ⟨none, ledger⟩
  refine ⟨hs.trans ht.symm, h.stays change s hst.left, h'.stays change' t hst.right,
    (change.apply m).2.ledger, ?_, ?_⟩
  · exact (LawfulStore.made change s hs).ledger_memory hledger
  · rw [htwins.ledger (show m.ledger = m.ledger from rfl)]
    exact (LawfulStore.made change' t ht).ledger_memory hledger'

theorem Similar.change {change change' : Change} (htwins : change.Twins change')
    (hst : Similar ready ready' s t) :
    Agree (Similar ready ready') (change.apply s) (change'.apply t) := by
  have hs := h.succeeds change s hst.left
  have ht := h'.succeeds change' t hst.right
  obtain ⟨hresult, hledgers⟩ := hst.toSameLedger.change h h' htwins
  obtain ⟨record, record', hrecord, hrecord', hsame⟩ := hst.record
  let m : MemoryStore := ⟨record, []⟩
  let m' : MemoryStore := ⟨record', []⟩
  exact ⟨hresult, hledgers, (change.apply m).2.record, (change'.apply m').2.record,
    (LawfulStore.made change s hs).record_memory hrecord,
    (LawfulStore.made change' t ht).record_memory hrecord',
    htwins.record (show m.record.map _ = m'.record.map _ from hsame)⟩

/-- **Stores with the same ledger answer alike**, and their ledgers stay the same. -/
theorem SameLedger.mirrors (now now' : UInt64) : Mirrors now now' (SameLedger ready ready') :=
  .of_twins (fun _ _ => SameLedger.loadLedger) (fun htwins _ _ => SameLedger.change h h' htwins)
    now now'

theorem Similar.mirrors (now now' : UInt64) : Mirrors now now' (Similar ready ready') :=
  .of_twins (fun _ _ hst => hst.loadLedger) (fun htwins _ _ => Similar.change h h' htwins) now now'

end

end Pickaxe.Negotiation
