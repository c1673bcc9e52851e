/-! Why a session ends. The first reason that is given stays. -/
namespace Pickaxe.Play

inductive End where
  /-- By a player's command. -/
  | stopped
  /-- From outside. -/
  | interrupted
  | connectionLost
deriving DecidableEq, Repr

def End.text : End → String
  | .stopped => "stopped by command"
  | .interrupted => "interrupted"
  | .connectionLost => "connection lost"

structure Shutdown where
  reason : Option End
deriving DecidableEq, Repr

namespace Shutdown

def unset : Shutdown := ⟨none⟩

/-- Gives a reason: whether it is the first one, and what stays. -/
def trigger (e : End) (s : Shutdown) : Bool × Shutdown := match s.reason with
  | some _ => (false, s)
  | none => (true, ⟨some e⟩)

end Shutdown

end Pickaxe.Play
