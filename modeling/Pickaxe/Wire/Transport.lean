/-! What can happen to a connection. -/
namespace Pickaxe.Wire

inductive TransportError where
  | connectFailed (address cause : String)
  | connectTimeout (address : String)
  /-- The stream has ended where it may not. -/
  | connectionClosed (detail : String)
  | sendFailed (cause : String)
  | receiveFailed (cause : String)
  | frameTooLarge (size : Nat)
  | malformedFrame (detail : String)
deriving DecidableEq, Repr

namespace TransportError

def message : TransportError → String
  | .connectFailed address cause => s!"connect to {address} failed: {cause}"
  | .connectTimeout address => s!"connect to {address} timed out"
  | .connectionClosed detail => s!"connection closed: {detail}"
  | .sendFailed cause => s!"send failed: {cause}"
  | .receiveFailed cause => s!"receive failed: {cause}"
  | .frameTooLarge size => s!"frame of {size} bytes exceeds maximum"
  | .malformedFrame detail => s!"malformed frame: {detail}"

/-- The system's word on it, where it had one. -/
def cause : TransportError → Option String
  | .connectFailed _ cause | .sendFailed cause | .receiveFailed cause => some cause
  | _ => none

end TransportError

/-- Connections are counted from 1. -/
structure ConnectionId where
  number : Nat
deriving DecidableEq, Repr

def ConnectionId.text (id : ConnectionId) : String := s!"conn-{id.number}"

end Pickaxe.Wire
