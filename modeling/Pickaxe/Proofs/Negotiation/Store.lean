import Pickaxe.Negotiation.Store

/-! Stores from outside: the changes that are made to one, a store that writes its changes down,
a store whose calls fail on a schedule, and when two stores answer alike.

A crash between two calls leaves what the changes made so far leave (`replay`). Stores answer
alike under a `Simulation`, a relation that no change leaves. A store that is in one with a
memory store is a store whose calls all succeed (`Simulation.succeeds`). -/
namespace Pickaxe.Negotiation

variable {σ τ : Type} [Store σ] [Store τ]

/-! ### Changes -/

/-- A call that changes a store. -/
inductive Change where
  | saveRecord (r : Record)
  | deleteRecord
  | append (a : Attempt)
  | clearLedger
deriving DecidableEq, Repr

/-- Makes the change. -/
def Change.apply : Change → σ → Except StoreError Unit × σ
  | .saveRecord r => Store.saveRecord r
  | .deleteRecord => Store.deleteRecord
  | .append a => Store.append a
  | .clearLedger => Store.clearLedger

/-- What the changes leave, whether they fail or not. -/
def replay : List Change → σ → σ
  | [], s => s
  | change :: rest, s => replay rest (change.apply s).2

theorem replay_append (a b : List Change) (s : σ) : replay (a ++ b) s = replay b (replay a s) := by
  induction a generalizing s with
  | nil => rfl
  | cons change rest ih => exact ih _

/-- In memory, trials are added at the end of the ledger. -/
theorem replay_appends (entries : List Attempt) (m : MemoryStore) :
    replay (entries.map .append) m = { m with ledger := m.ledger ++ entries } := by
  induction entries generalizing m with
  | nil => simp [replay]
  | cons a rest ih =>
    simp only [List.map_cons, replay, ih]
    simp [Change.apply, Store.append]

/-! ### Writing changes down -/

/-- A store with the changes that were made to it, the latest last. -/
structure Logged (σ : Type) where
  inner : σ
  changes : List Change

namespace Logged

def make (change : Change) (s : Logged σ) : Except StoreError Unit × Logged σ :=
  ((change.apply s.inner).1, ⟨(change.apply s.inner).2, s.changes ++ [change]⟩)

instance : Store (Logged σ) where
  loadRecord s := Store.loadRecord s.inner
  loadLedger s := Store.loadLedger s.inner
  saveRecord r := make (.saveRecord r)
  deleteRecord := make .deleteRecord
  append a := make (.append a)
  clearLedger := make .clearLedger

theorem apply_eq (change : Change) (s : Logged σ) : change.apply s = make change s := by
  cases change <;> rfl

theorem replay_eq (changes : List Change) (s : Logged σ) :
    replay changes s = ⟨replay changes s.inner, s.changes ++ changes⟩ := by
  induction changes generalizing s with
  | nil => simp [replay]
  | cons change rest ih => simp [replay, apply_eq, make, ih]

end Logged

/-! ### Failing calls -/

/-- A store whose calls fail on a schedule: `fault n call` is the fault of a call that comes after
`n` changes, if it has one. A failing call does nothing. -/
structure Faulty (σ : Type) where
  inner : σ
  fault : Nat → StoreCall → Option StoreError
  /-- The changes that were asked for so far. -/
  asked : Nat

namespace Faulty

def load {α : Type} (call : StoreCall) (f : σ → Except StoreError α) (s : Faulty σ) :
    Except StoreError α :=
  match s.fault s.asked call with
  | some e => .error e
  | none => f s.inner

def change (call : StoreCall) (f : σ → Except StoreError Unit × σ) (s : Faulty σ) :
    Except StoreError Unit × Faulty σ :=
  match s.fault s.asked call with
  | some e => (.error e, { s with asked := s.asked + 1 })
  | none => ((f s.inner).1, { s with inner := (f s.inner).2, asked := s.asked + 1 })

instance : Store (Faulty σ) where
  loadRecord := load .loadRecord Store.loadRecord
  loadLedger := load .loadLedger Store.loadLedger
  saveRecord r := change .saveRecord (Store.saveRecord r)
  deleteRecord := change .deleteRecord Store.deleteRecord
  append a := change .append (Store.append a)
  clearLedger := change .clearLedger Store.clearLedger

omit [Store σ] in
theorem change_inner (call : StoreCall) (f : σ → Except StoreError Unit × σ) (s : Faulty σ) :
    (change call f s).2.inner = s.inner ∨ (change call f s).2.inner = (f s.inner).2 := by
  unfold change
  cases s.fault s.asked call with
  | some e => exact .inl rfl
  | none => exact .inr rfl

/-- A change either happens or does nothing. -/
theorem apply_inner (change : Change) (s : Faulty σ) :
    (change.apply s).2.inner = s.inner ∨ (change.apply s).2.inner = (change.apply s.inner).2 := by
  cases change <;> exact change_inner _ _ s

omit [Store σ] in
/-- What is read in spite of the schedule is what there is. -/
theorem load_ok {α : Type} {call : StoreCall} {f : σ → Except StoreError α} {s : Faulty σ} {a : α}
    (h : load call f s = .ok a) : f s.inner = .ok a := by
  unfold load at h
  cases hfault : s.fault s.asked call with
  | some e =>
    rw [hfault] at h
    cases h
  | none =>
    rw [hfault] at h
    exact h

theorem loadRecord_inner {s : Faulty σ} {record : Option Record}
    (h : Store.loadRecord s = .ok record) : Store.loadRecord s.inner = .ok record := load_ok h

theorem loadLedger_inner {s : Faulty σ} {ledger : List Attempt}
    (h : Store.loadLedger s = .ok ledger) : Store.loadLedger s.inner = .ok ledger := load_ok h

end Faulty

/-! ### Stores that answer alike -/

/-- A relation under which two stores answer alike, now and after every change. -/
structure Simulation (rel : σ → τ → Prop) : Prop where
  loadRecord : ∀ s t, rel s t → Store.loadRecord s = Store.loadRecord t
  loadLedger : ∀ s t, rel s t → Store.loadLedger s = Store.loadLedger t
  change : ∀ (change : Change) s t, rel s t →
    (change.apply s).1 = (change.apply t).1 ∧ rel (change.apply s).2 (change.apply t).2

namespace Simulation

variable {rel : σ → τ → Prop}

theorem refl : Simulation (fun s t : σ => s = t) where
  loadRecord := fun _ _ h => congrArg _ h
  loadLedger := fun _ _ h => congrArg _ h
  change := fun change _ _ h => ⟨by rw [h], by rw [h]⟩

theorem replay (h : Simulation rel) (changes : List Change) {s : σ} {t : τ} (hst : rel s t) :
    rel (replay changes s) (replay changes t) := by
  induction changes generalizing s t with
  | nil => exact hst
  | cons change rest ih => exact ih (h.change change s t hst).2

/-- A store that writes its changes down answers as it did. -/
theorem logged (h : Simulation rel) : Simulation (fun (s : Logged σ) (t : τ) => rel s.inner t) where
  loadRecord := fun _ _ hst => h.loadRecord _ _ hst
  loadLedger := fun _ _ hst => h.loadLedger _ _ hst
  change := fun change s t hst => by
    rw [Logged.apply_eq]
    exact h.change change s.inner t hst

/-- What is written down leads from the first store to the present one. -/
theorem log (start : σ) :
    Simulation fun (s : σ) (t : Logged σ) =>
      t.inner = s ∧ Negotiation.replay t.changes start = s where
  loadRecord := fun _ _ h => by rw [← h.1]; rfl
  loadLedger := fun _ _ h => by rw [← h.1]; rfl
  change := fun change s t h => by
    obtain ⟨rfl, hlog⟩ := h
    rw [Logged.apply_eq]
    refine ⟨rfl, rfl, ?_⟩
    simp only [Logged.make, replay_append, hlog, Negotiation.replay]

/-- Calls that are answered as a memory store answers them succeed. -/
theorem succeeds {holds : σ → MemoryStore → Prop} (h : Simulation holds) (change : Change) {s : σ}
    {m : MemoryStore} (hs : holds s m) :
    ∃ s', change.apply s = (.ok (), s') ∧ holds s' (change.apply m).2 := by
  obtain ⟨hresult, hafter⟩ := h.change change s m hs
  refine ⟨(change.apply s).2, Prod.ext ?_ rfl, hafter⟩
  rw [hresult]
  cases change <;> rfl

end Simulation

end Pickaxe.Negotiation
