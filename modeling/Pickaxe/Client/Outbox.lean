import Pickaxe.Client.Line
import Pickaxe.Packet.Play

/-! Sending actions. Each takes the next number, whether it gets through or not. -/
namespace Pickaxe.Client

open World (Action SendFailure)

structure Outbox where
  /-- The number of the action before. -/
  sequence : Int32
  line : Line

namespace Outbox

def start (line : Line) : Outbox := ⟨0, line⟩

/-- Sends an action, at a time in milliseconds since 1970 and with a salt. -/
def send (timestamp salt : Int64) (action : Action) (o : Outbox) :
    Except SendFailure Unit × Outbox :=
  let sequence := o.sequence + 1
  match Packet.Play.act ⟨sequence, timestamp, salt⟩ action with
  | .error e => (.error ⟨action.kind, e.message⟩, { o with sequence })
  | .ok frame => match o.line.send frame with
    | .error e => (.error ⟨action.kind, e.message⟩, { o with sequence })
    | .ok line => (.ok (), ⟨sequence, line⟩)

end Outbox

end Pickaxe.Client
