import Pickaxe.Negotiation.Record

/-! What a negotiation keeps between runs, and a store in memory. A call that fails says so and
may leave the store changed or not. -/
namespace Pickaxe.Negotiation

inductive StoreError where
  /-- A file could not be read or written. -/
  | io (detail : String)
  /-- A file holds something else. -/
  | corrupt (detail : String)
deriving DecidableEq, Repr

def StoreError.message : StoreError → String
  | .io detail => s!"state file I/O failed: {detail}"
  | .corrupt detail => s!"state file is corrupt: {detail}"

/-- A record, if there is one, and a ledger of trials. -/
class Store (σ : Type) where
  loadRecord : σ → Except StoreError (Option Record)
  /-- The trials in the order they were made. -/
  loadLedger : σ → Except StoreError (List Attempt)
  /-- Replaces the record. -/
  saveRecord : Record → σ → Except StoreError Unit × σ
  deleteRecord : σ → Except StoreError Unit × σ
  append : Attempt → σ → Except StoreError Unit × σ
  clearLedger : σ → Except StoreError Unit × σ

structure MemoryStore where
  record : Option Record
  ledger : List Attempt
deriving DecidableEq, Repr

namespace MemoryStore

def empty : MemoryStore := ⟨none, []⟩

instance : Store MemoryStore where
  loadRecord m := .ok m.record
  loadLedger m := .ok m.ledger
  saveRecord r m := (.ok (), { m with record := some r })
  deleteRecord m := (.ok (), { m with record := none })
  append a m := (.ok (), { m with ledger := m.ledger ++ [a] })
  clearLedger m := (.ok (), { m with ledger := [] })

end MemoryStore

/-- The calls of a store. -/
inductive StoreCall where
  | loadRecord | loadLedger | saveRecord | deleteRecord | append | clearLedger
deriving DecidableEq, Repr

namespace StoreCall

def name : StoreCall → String
  | .loadRecord => "load_record"
  | .loadLedger => "load_ledger"
  | .saveRecord => "save_record"
  | .deleteRecord => "delete_record"
  | .append => "append_attempt"
  | .clearLedger => "clear_ledger"

def all : List StoreCall :=
  [.loadRecord, .loadLedger, .saveRecord, .deleteRecord, .append, .clearLedger]

end StoreCall

/-- A store some of whose calls fail with `fault` and do nothing. -/
structure FlakyStore (σ : Type) where
  inner : σ
  failing : List StoreCall
  fault : StoreError

namespace FlakyStore

variable {σ : Type} [Store σ]

/-- A call that changes the store, unless it fails. -/
def change (call : StoreCall) (f : σ → Except StoreError Unit × σ) (s : FlakyStore σ) :
    Except StoreError Unit × FlakyStore σ :=
  if call ∈ s.failing then (.error s.fault, s)
  else ((f s.inner).1, { s with inner := (f s.inner).2 })

instance : Store (FlakyStore σ) where
  loadRecord s := if .loadRecord ∈ s.failing then .error s.fault else Store.loadRecord s.inner
  loadLedger s := if .loadLedger ∈ s.failing then .error s.fault else Store.loadLedger s.inner
  saveRecord r := change .saveRecord (Store.saveRecord r)
  deleteRecord := change .deleteRecord Store.deleteRecord
  append a := change .append (Store.append a)
  clearLedger := change .clearLedger Store.clearLedger

end FlakyStore

end Pickaxe.Negotiation
