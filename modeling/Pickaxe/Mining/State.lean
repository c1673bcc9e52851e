import Pickaxe.Json.Decoder

/-! How far an activation has come. It starts over from any state, takes ticks while it is
active, and ends when the tool breaks or somebody stops it. -/
namespace Pickaxe.Mining

inductive State where
  /-- Never activated. -/
  | idle
  /-- Set up; the next tick makes it run. -/
  | activating
  | running
  /-- The tool is broken. -/
  | exhausted
  | stopped
deriving DecidableEq, Repr

namespace State

def all : List State := [.idle, .activating, .running, .exhausted, .stopped]

def name : State → String
  | .idle => "Idle"
  | .activating => "Activating"
  | .running => "Running"
  | .exhausted => "Exhausted"
  | .stopped => "Stopped"

/-- Whether ticks are taken. -/
def isActive : State → Bool
  | .activating | .running => true
  | _ => false

/-- Whether an activation has ended. -/
def isTerminal : State → Bool
  | .exhausted | .stopped => true
  | _ => false

/-- The state of an ordinary tick. -/
def next : State → Option State
  | .activating | .running => some .running
  | _ => none

def canTransitionTo : State → State → Bool
  | _, .activating => true
  | .activating, .running => true
  | .activating, .exhausted | .activating, .stopped => true
  | .running, .exhausted | .running, .stopped => true
  | _, _ => false

def decoder : Json.Decoder State := .choice (all.map fun s => (s.name, s))

end State

end Pickaxe.Mining
