import Pickaxe.Negotiation.Store
import Pickaxe.Text.Utf8

/-! The store on disk: one file for the record, replaced whole by way of a temporary file, and
one for the ledger, a line for each trial. A ledger may end inside a line, which the next
trial leaves behind by starting a new one. -/
namespace Pickaxe.Negotiation

/-- What stands where a file belongs. -/
inductive Slot where
  | absent
  | file (bytes : List UInt8)
  | directory
deriving DecidableEq, Repr

def Slot.isDirectory : StoreError := .io "Is a directory (os error 21)"

/-- Without the file, which may be missing already. -/
def Slot.remove : Slot → Except StoreError Unit × Slot
  | .directory => (.error isDirectory, .directory)
  | _ => (.ok (), .absent)

/-- With these bytes for its content, if it can have any. -/
def Slot.overwrite (bytes : List UInt8) : Slot → Slot
  | .directory => .directory
  | _ => .file bytes

/-- Makes a directory where nothing stands: whether that is so, and what stands there then. -/
def Slot.makeDirectory : Slot → Bool × Slot
  | .absent => (true, .directory)
  | slot => (false, slot)

/-- The directory with the state of a negotiation. -/
structure StateDir where
  record : Slot
  ledger : Slot
  temp : Slot
deriving DecidableEq, Repr

namespace StateDir

def empty : StateDir := ⟨.absent, .absent, .absent⟩

def recordFile : String := "negotiation.json"

def ledgerFile : String := "attempts.jsonl"

def tempFile : String := "negotiation.json.tmp"

/-- The lines of a file, cut at each line feed. -/
def lines : List UInt8 → List (List UInt8)
  | [] => [[]]
  | b :: rest =>
    if b = 0x0A then [] :: lines rest
    else match lines rest with
      | [] => [[b]]
      | l :: ls => (b :: l) :: ls

/-- The trials of a ledger. Lines that hold none are passed over. -/
def attempts (bytes : List UInt8) : List Attempt := (lines bytes).filterMap Attempt.read?

/-- Whether a file ends inside a line. -/
def endsMidLine (bytes : List UInt8) : Bool := match bytes.getLast? with
  | some b => b != 0x0A
  | none => false

/-- What a trial adds to a ledger. -/
def addition (ledger : List UInt8) (a : Attempt) : List UInt8 :=
  (if endsMidLine ledger then [0x0A] else []) ++ a.write ++ [0x0A]

def loadRecord (d : StateDir) : Except StoreError (Option Record) :=
  match d.record with
  | .absent => .ok none
  | .directory => .error Slot.isDirectory
  | .file bytes => match Record.read? bytes with
    | some r => .ok (some r)
    | none => .error (.corrupt recordFile)

def loadLedger (d : StateDir) : Except StoreError (List Attempt) :=
  match d.ledger with
  | .absent => .ok []
  | .directory => .error Slot.isDirectory
  | .file bytes => match Text.Utf8.decode? bytes with
    | some _ => .ok (attempts bytes)
    | none => .error (.io "stream did not contain valid UTF-8")

/-- The new record, in the temporary file. -/
def writeTemp (bytes : List UInt8) (d : StateDir) : Except StoreError Unit × StateDir :=
  match d.temp with
  | .directory => (.error Slot.isDirectory, d)
  | _ => (.ok (), { d with temp := .file bytes })

/-- Puts the temporary file in the place of the record. -/
def renameTemp (d : StateDir) : Except StoreError Unit × StateDir :=
  match d.record with
  | .directory => (.error Slot.isDirectory, d)
  | _ => (.ok (), { d with record := d.temp, temp := .absent })

def saveRecord (r : Record) (d : StateDir) : Except StoreError Unit × StateDir :=
  match d.writeTemp r.write with
  | (.ok (), d) => d.renameTemp
  | failed => failed

def append (a : Attempt) (d : StateDir) : Except StoreError Unit × StateDir :=
  match d.ledger with
  | .absent => (.ok (), { d with ledger := .file (addition [] a) })
  | .file bytes => (.ok (), { d with ledger := .file (bytes ++ addition bytes a) })
  | .directory => (.error Slot.isDirectory, d)

instance : Store StateDir where
  loadRecord := loadRecord
  loadLedger := loadLedger
  saveRecord := saveRecord
  deleteRecord d := (d.record.remove.1, { d with record := d.record.remove.2 })
  append := append
  clearLedger d := (d.ledger.remove.1, { d with ledger := d.ledger.remove.2 })

end StateDir

end Pickaxe.Negotiation
