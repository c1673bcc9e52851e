import Pickaxe.Wire.Frame

/-! This side of a connection: what has been sent over it, and in which layout the next frame
goes out. -/
namespace Pickaxe.Client

open Wire (TransportError)

structure Line where
  /-- The size from which the server compresses, if it does. -/
  threshold : Option Int32
  /-- Whether this side has ended its stream. -/
  closed : Bool
  /-- The bodies sent, the latest first. -/
  log : List (List UInt8)

namespace Line

def fresh : Line := ⟨none, false, []⟩

/-- A negative threshold turns compression off. -/
def setCompression (threshold : Int32) (l : Line) : Line :=
  { l with threshold := if threshold < 0 then none else some threshold }

def compressed (l : Line) : Bool := l.threshold.isSome

def sent (l : Line) : List (List UInt8) := l.log.reverse

/-- The bytes on the wire. -/
def bytes (l : Line) : List UInt8 := l.sent.flatMap Wire.Frame.written

def send (frame : List UInt8) (l : Line) : Except TransportError Line :=
  match Wire.Frame.body l.compressed frame with
  | .error e => .error e
  | .ok body =>
    if l.closed then .error (.sendFailed "Broken pipe (os error 32)")
    else .ok { l with log := body :: l.log }

/-- Sends frames until one of them cannot be sent. -/
def sendAll : List (List UInt8) → Line → Option TransportError × Line
  | [], l => (none, l)
  | frame :: rest, l => match l.send frame with
    | .error e => (some e, l)
    | .ok l => sendAll rest l

def close (l : Line) : Line := { l with closed := true }

/-- What has been sent so far is on the wire, and is not kept. -/
def flushed (l : Line) : Line := { l with log := [] }

end Line

end Pickaxe.Client
