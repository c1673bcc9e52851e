import Pickaxe.Client.Line
import Pickaxe.Packet.Status
import Pickaxe.Server.Endpoint
import Pickaxe.Server.Status

/-! Asking a server for its status, and how long an answer takes. The answer stands as soon as
the document has come; what follows decides only whether the time is known. -/
namespace Pickaxe.Client.StatusPing

open Packet (Version)
open Packet.Status (Received)
open Server (Endpoint Status)
open Wire (Frame.Arrival PacketError TransportError)

/-- Why there is no status. -/
inductive Failure where
  | transport (e : TransportError)
  | packet (e : PacketError)
  /-- The connection ended before the document came. -/
  | closed
deriving DecidableEq, Repr

def opening (endpoint : Endpoint) (version : Version) : List (List UInt8) :=
  [Packet.handshake version endpoint.host endpoint.port .status, Packet.Status.request]

/-- The status in a frame: none if the frame says nothing about it. -/
def document? (frame : List UInt8) : Except Failure (Option Status) :=
  match Packet.Status.read.run frame with
  | .error e => .error (.packet e)
  | .ok (.response text) => match Status.parse? text with
    | some status => .ok (some status)
    | none => .error (.packet (.invalidJson "not a status document"))
  | .ok _ => .ok none

/-- Whether a frame gives the payload back. -/
def echoes (payload : Int64) (frame : List UInt8) : Bool :=
  match Packet.Status.read.run frame with
  | .ok (.pong echo) => echo == payload
  | _ => false

/-- The status, and whether the ping after it was answered. -/
structure Answer where
  status : Status
  timed : Bool

/-- The status in what has come in, as far as it says anything about it. -/
def step : Frame.Arrival → Except Failure (Option Status)
  | .error e => .error (.transport e)
  | .ok frame => document? frame

/-- Waits for the document. The pair holds it and what comes in after it. -/
def await : List Frame.Arrival → Except Failure (Status × List Frame.Arrival)
  | [] => .error .closed
  | a :: rest => match step a with
    | .error e => .error e
    | .ok none => await rest
    | .ok (some status) => .ok (status, rest)

/-- Whether the next thing that comes in is the answer to the ping. -/
def answered (payload : Int64) : List Frame.Arrival → Bool
  | .ok frame :: _ => echoes payload frame
  | _ => false

/-- A whole ping on a connection that is open. -/
def run (endpoint : Endpoint) (version : Version) (payload : Int64)
    (inbound : List Frame.Arrival) : Except Failure Answer × Line :=
  match Line.fresh.sendAll (opening endpoint version) with
  | (some e, line) => (.error (.transport e), line)
  | (none, line) => match await inbound with
    | .error e => (.error e, line)
    | .ok (status, rest) => match line.send (Packet.Status.ping payload) with
      | .error e => (.error (.transport e), line)
      | .ok line => (.ok ⟨status, answered payload rest⟩, line.close)

end Pickaxe.Client.StatusPing
