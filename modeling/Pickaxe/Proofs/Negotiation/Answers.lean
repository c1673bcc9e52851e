import Pickaxe.Proofs.Negotiation.Files

/-! What a store answers.

Stores that simulate one another give the same answers to the same requests (`Simulation.answers`).
So nobody can tell by the answers whether a store is on disk or in memory, nor whether the one on
disk has been opened anew in between: all that it knows is in its files (`answers_on_disk`). -/
namespace Pickaxe.Negotiation

variable {σ τ : Type} [Store σ] [Store τ]

/-! ### Requests -/

/-- A call of a store. -/
inductive Request where
  | loadRecord
  | loadLedger
  | change (change : Change)
deriving DecidableEq, Repr

/-- What comes back. -/
inductive Answer where
  | record (found : Except StoreError (Option Record))
  | ledger (found : Except StoreError (List Attempt))
  | done (result : Except StoreError Unit)

/-- Makes the call. -/
def Request.ask : Request → σ → Answer × σ
  | .loadRecord, s => (.record (Store.loadRecord s), s)
  | .loadLedger, s => (.ledger (Store.loadLedger s), s)
  | .change c, s => (.done (c.apply s).1, (c.apply s).2)

/-- The answers to requests, one after another. -/
def answers : List Request → σ → List Answer
  | [], _ => []
  | x :: rest, s => (x.ask s).1 :: answers rest (x.ask s).2

namespace Simulation

variable {rel : σ → τ → Prop}

theorem ask (h : Simulation rel) (x : Request) {s : σ} {t : τ} (hst : rel s t) :
    (x.ask s).1 = (x.ask t).1 ∧ rel (x.ask s).2 (x.ask t).2 := by
  cases x with
  | loadRecord => exact ⟨congrArg Answer.record (h.loadRecord s t hst), hst⟩
  | loadLedger => exact ⟨congrArg Answer.ledger (h.loadLedger s t hst), hst⟩
  | change c =>
    obtain ⟨hresult, hafter⟩ := h.change c s t hst
    exact ⟨congrArg Answer.done hresult, hafter⟩

theorem answers (h : Simulation rel) (requests : List Request) {s : σ} {t : τ} (hst : rel s t) :
    Negotiation.answers requests s = Negotiation.answers requests t := by
  induction requests generalizing s t with
  | nil => rfl
  | cons x rest ih =>
    obtain ⟨hanswer, hafter⟩ := h.ask x hst
    rw [Negotiation.answers, Negotiation.answers, hanswer, ih hafter]

end Simulation

/-! ### On disk -/

/-- The directory of a store that is opened: the one at its path, or a new one. -/
def StateDir.opened : Option StateDir → StateDir
  | none => .empty
  | some d => d

/-- What is done with a state directory. -/
inductive Access where
  /-- A store is opened in it, in place of the one that was. -/
  | reopen
  /-- The store in it is asked. -/
  | ask (x : Request)
deriving DecidableEq, Repr

def Access.request? : Access → Option Request
  | .reopen => none
  | .ask x => some x

/-- The answers of the stores that are opened in a directory. -/
def answersOnDisk : List Access → StateDir → List Answer
  | [], _ => []
  | .reopen :: rest, d => answersOnDisk rest (.opened (some d))
  | .ask x :: rest, d => (x.ask d).1 :: answersOnDisk rest (x.ask d).2

theorem answersOnDisk_eq {rel : StateDir → τ → Prop} (h : Simulation rel)
    (accesses : List Access) {d : StateDir} {t : τ} (hdt : rel d t) :
    answersOnDisk accesses d = answers (accesses.filterMap Access.request?) t := by
  induction accesses generalizing d t with
  | nil => rfl
  | cons access rest ih =>
    cases access with
    | reopen => exact ih hdt
    | ask x =>
      obtain ⟨hanswer, hafter⟩ := h.ask x hdt
      rw [answersOnDisk, hanswer, ih hafter]
      rfl

theorem holds_empty : StateDir.Writable .empty ∧ Holds StateDir.empty MemoryStore.empty :=
  ⟨⟨nofun, nofun, nofun⟩, rfl, rfl⟩

/-- **A store on disk answers as one in memory**, to any requests, from an empty directory on and
however often it is opened anew. -/
theorem answers_on_disk (accesses : List Access) :
    answersOnDisk accesses (.opened none) =
      answers (accesses.filterMap Access.request?) MemoryStore.empty :=
  answersOnDisk_eq StateDir.reliable.simulation accesses holds_empty

end Pickaxe.Negotiation
