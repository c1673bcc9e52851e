import Pickaxe.Client.Login
import Pickaxe.Client.StatusPing

/-! A talk with a server. This side says the first words, and then whatever comes in moves the talk on
until it is over. It is a talk over any stream, whether all of that is at hand or comes in piece by piece. -/
namespace Pickaxe.Client

open Negotiation (ConnectError)
open Packet (Version)
open Server (Endpoint Status)
open Wire (Frame.Arrival TransportError)

structure Talk (ε α : Type) where
  opening : List (List UInt8)
  /-- Takes in what has come. The talk may be over then. -/
  step : Frame.Arrival → Line → Option (Except ε α) × Line
  /-- The stream has ended before the talk was over. -/
  ended : ε
  /-- Something cannot be sent, or there is no connection. -/
  broken : TransportError → ε

namespace Talk

variable {ε α : Type}

/-- The talk over what comes in, after the opening: what has come of it, what comes in after it, and this
side's line. -/
def hear (t : Talk ε α) : List Frame.Arrival → Line → Except ε α × List Frame.Arrival × Line
  | [], line => (.error t.ended, [], line)
  | a :: rest, line => match t.step a line with
    | (none, line) => t.hear rest line
    | (some result, line) => (result, rest, line)

/-- A whole talk on a connection that is open. -/
def run (t : Talk ε α) (inbound : List Frame.Arrival) : Except ε α × List Frame.Arrival × Line :=
  match Line.fresh.sendAll t.opening with
  | (some e, line) => (.error (t.broken e), inbound, line)
  | (none, line) => t.hear inbound line

end Talk

/-- Asks for the status and waits for the document. -/
def StatusPing.talk (endpoint : Endpoint) (version : Version) : Talk StatusPing.Failure Status where
  opening := opening endpoint version
  step a line := match step a with
    | .error e => (some (.error e), line)
    | .ok none => (none, line)
    | .ok (some status) => (some (.ok status), line)
  ended := .closed
  broken := .transport

def Login.talk (endpoint : Endpoint) (version : Version) (username : String) : Talk ConnectError Unit where
  opening := opening endpoint version username
  step a line := match step a line with
    | .waiting line => (none, line)
    | .over result line => (some result, line)
  ended := endOfStream
  broken := transportFailure

end Pickaxe.Client
