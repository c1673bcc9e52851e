import Pickaxe.Duration
import Pickaxe.Negotiation.Record
import Pickaxe.Server.Endpoint
import Pickaxe.Server.Status

/-! Trying one version: what a server answers, when, and how a trial counts it. A trial ends
with the answer or when its time is up; an answer at that very moment still counts. -/
namespace Pickaxe.Negotiation

open Packet (Version)
open Server (Endpoint)

/-- Why a login at some version came to nothing. -/
inductive ConnectError where
  | incompatibleVersion (reason : String)
  | connection (detail : String)
  | timeout
  | rejected (reason : String)
  | protocol (detail : String)
deriving DecidableEq, Repr

def ConnectError.message : ConnectError → String
  | .incompatibleVersion reason => s!"incompatible version: {reason}"
  | .connection detail => s!"connection error: {detail}"
  | .timeout => "connect timed out"
  | .rejected reason => s!"rejected: {reason}"
  | .protocol detail => s!"protocol error: {detail}"

/-- Why there is no status. -/
inductive PingError where
  | unreachable (detail : String)
deriving DecidableEq, Repr

def PingError.message : PingError → String
  | .unreachable detail => s!"server unreachable: {detail}"

/-- What becomes of a login. -/
inductive Reply where
  | answered (after : Duration) (result : Except ConnectError Unit)
  | silent

/-- Everything a negotiation asks of the network. -/
class Network (ν : Type) where
  ping : Endpoint → ν → Except PingError Server.Status × ν
  connect : Endpoint → Version → ν → Reply × ν

/-- The version a status reports, if it is one. -/
def reportedVersion : Except PingError Server.Status → Option Version
  | .ok status => if 0 < status.protocol then some status.protocol else none
  | .error _ => none

namespace Trial

def classify : Except ConnectError Unit → TrialOutcome
  | .ok () => .success
  | .error (.incompatibleVersion _) => .incompatibleClient
  | .error (.connection _) => .connectionError
  | .error .timeout => .connectionError
  | .error (.rejected _) => .unknown
  | .error (.protocol _) => .unknown

def outcome (limit : Duration) : Reply → TrialOutcome
  | .answered after result => if after ≤ limit then classify result else .unknown
  | .silent => .unknown

/-- How long the trial takes. -/
def elapsed (limit : Duration) : Reply → Duration
  | .answered after _ => min after limit
  | .silent => limit

end Trial

end Pickaxe.Negotiation
