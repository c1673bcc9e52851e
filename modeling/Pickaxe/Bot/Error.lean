import Pickaxe.Client.StatusPing
import Pickaxe.Mining.Session
import Pickaxe.Negotiation.Error
import Pickaxe.Negotiation.Trial

/-! Everything that can end what the bot was asked to do, with the causes behind it. -/
namespace Pickaxe.Bot

open Negotiation (ConnectError)
open Wire (PacketError TransportError)

inductive Error where
  | transport (e : TransportError)
  | packet (e : PacketError)
  | negotiation (e : Negotiation.Error)
  /-- The server did not let the bot in at the version agreed upon. -/
  | join (e : ConnectError)
  | mining (e : Mining.Error)
  | ping (detail : String)
  | logging (detail : String)
deriving DecidableEq, Repr

namespace Error

def ofStatusPing : Client.StatusPing.Failure → Error
  | .transport e => .transport e
  | .packet e => .packet e
  | .closed => .ping "closed before the status response"

def message : Error → String
  | .transport e => e.message
  | .packet e => e.message
  | .negotiation e => e.message
  | .join e => s!"join failed: {e.message}"
  | .mining e => e.message
  | .ping detail => s!"status ping failed: {detail}"
  | .logging detail => s!"logging setup failed: {detail}"

/-- What is behind the error, and what its message tells of already. -/
def cause : Error → Option String
  | .transport e => e.cause
  | .packet (.invalidJson detail) => some detail
  | .negotiation (.store (.io detail)) => some detail
  | .join e => some e.message
  | _ => none

/-- The message with its cause. -/
def chain (e : Error) : String := ": ".intercalate (e.message :: e.cause.toList)

/-- The next steps, where there is something to be done. -/
def remediation : Error → Option String
  | .negotiation e => some e.remediation
  | _ => none

end Error

end Pickaxe.Bot
