import Pickaxe.Negotiation.StateDir

/-! The state directory on disk: what stands in it, and making it what it should be. -/
namespace Pickaxe.Live.Files

open Negotiation (Slot StateDir StoreError)

def path (dir name : String) : String := s!"{dir}/{name}"

def readSlot (path : String) : IO Slot := do
  try
    return .file (← IO.FS.readBinFile path).toList
  catch
    | .noFileOrDirectory .. => return .absent
    | .inappropriateType .. => return .directory
    | e => throw e

/-- Reads the directory, which is made if there is none. -/
def load (dir : String) : IO (Except StoreError StateDir) := do
  try
    IO.FS.createDirAll dir
    return .ok ⟨← readSlot (path dir StateDir.recordFile),
      ← readSlot (path dir StateDir.ledgerFile), ← readSlot (path dir StateDir.tempFile)⟩
  catch e => return .error (.io (toString e))

def writeSlot (path : String) (old new : Slot) : IO Unit := do
  if old = new then return
  match new with
  | .absent => IO.FS.removeFile path
  | .file bytes => IO.FS.writeBinFile path ⟨bytes.toArray⟩
  | .directory => return

/-- A new record comes into its place whole, by way of the temporary file. -/
def writeRecord (dir : String) (old new : Slot) : IO Unit := do
  match new with
  | .file _ =>
    if old = new then return
    writeSlot (path dir StateDir.tempFile) .absent new
    IO.FS.rename (path dir StateDir.tempFile) (path dir StateDir.recordFile)
  | new => writeSlot (path dir StateDir.recordFile) old new

/-- Makes the directory what it should be, coming from what it was. -/
def save (dir : String) (old new : StateDir) : IO (Except StoreError Unit) := do
  try
    writeSlot (path dir StateDir.ledgerFile) old.ledger new.ledger
    writeRecord dir old.record new.record
    return .ok ()
  catch e => return .error (.io (toString e))

end Pickaxe.Live.Files
