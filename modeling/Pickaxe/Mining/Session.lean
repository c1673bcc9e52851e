import Pickaxe.Mining.Config
import Pickaxe.Mining.State
import Pickaxe.World.Action

/-! The state of mining, and what each tick does to it. Ticks come from runners, of which the
session knows one; the others get nothing from it. A tick swings the arm, finishes the dig that
is held, wears the tool, and starts the next dig or breaks the tool, in this order. -/
namespace Pickaxe.Mining

open World (Action Block)

/-- Ids are counted up, one for an activation at the most. They are kept in 64 bits, which would do for
an activation in every nanosecond of 500 years, so no id comes back and a natural number stands for one. -/
abbrev RunnerId := Nat

inductive Error where
  /-- A field has left its range. -/
  | stateCorruption (detail : String)
  /-- An interval of the settings is zero. -/
  | zeroInterval
deriving DecidableEq, Repr

def Error.message : Error → String
  | .stateCorruption detail => s!"mining session state corrupted: {detail}"
  | .zeroInterval => "mining interval is zero"

/-- What one tick does. -/
structure Plan where
  /-- Counted from 1 in each activation. -/
  tick : UInt64
  swing : Bool
  /-- The block whose dig ends. -/
  finish : Option Block
  /-- The block whose dig starts. -/
  start : Option Block
  /-- The durability left, on ticks that wear the tool. -/
  durability : Option UInt8
  broke : Bool
deriving DecidableEq, Repr

namespace Plan

/-- Whether the runner leaves after this tick. -/
def last (p : Plan) : Bool := p.broke

/-- Whether the tick does nothing. -/
def isSilent (p : Plan) : Bool :=
  !p.swing && p.finish.isNone && p.start.isNone && p.durability.isNone && !p.broke

/-- What the server is told, in this order. Digs are done from above. -/
def actions (config : Config) (p : Plan) : List Action :=
  (if p.swing then [.swing] else []) ++
    (p.finish.map fun b => Action.dig .finished b .up).toList ++
    (p.start.map fun b => Action.dig .started b .up).toList ++
    (if p.broke then [.chat config.breakLine] else [])

end Plan

/-- A dig that has started: the tick on which it ends, and where it is. -/
structure Held where
  due : UInt64
  block : Block
deriving DecidableEq, Repr

structure Session where
  state : State
  /-- The ticks of this activation. -/
  tickCount : UInt64
  durability : UInt8
  stopRequested : Bool
  /-- What is mined. -/
  target : Option Block
  held : Option Held
  /-- The runner that gets ticks. -/
  runner : Option RunnerId
  /-- The next runner's id. -/
  nextRunner : RunnerId
  /-- Counted in 64 bits as well, which do for as long. -/
  activations : Nat
deriving DecidableEq, Repr

namespace Session

def fullDurability : UInt8 := 100

def new : Session where
  state := .idle
  tickCount := 0
  durability := fullDurability
  stopRequested := false
  target := none
  held := none
  runner := none
  nextRunner := 1
  activations := 0

/-- The slot of the tool. The inventory is not known. -/
def toolSlot (_ : Session) : Option UInt8 := none

/-- Starts over at `target`. A runner that has not been told to stop stays; otherwise the id is
that of a new one. -/
def activate (target : Block) (s : Session) : Option RunnerId × Session :=
  let fresh := { s with
    state := .activating
    tickCount := 0
    durability := fullDurability
    stopRequested := false
    target := some target
    held := none
    activations := s.activations + 1 }
  if s.runner.isNone || s.stopRequested then
    (some s.nextRunner,
      { fresh with runner := some s.nextRunner, nextRunner := s.nextRunner + 1 })
  else (none, fresh)

/-- The next tick ends the activation. -/
def requestStop (s : Session) : Session := { s with stopRequested := true }

/-- A stop that was asked for has come. -/
def stopped (s : Session) : Session :=
  { s with state := if s.state.isActive then .stopped else s.state, runner := none }

/-- The runner leaves. -/
def detach (runner : RunnerId) (s : Session) : Session :=
  if s.runner ≠ some runner then s
  else if s.stopRequested then s.stopped
  else { s with runner := none }

/-- The block whose dig ends on the current tick. -/
def finished (s : Session) : Option Block := match s.held with
  | some h => if h.due ≤ s.tickCount then some h.block else none
  | none => none

/-- The durability after one more step of wear. -/
def worn (config : Config) (s : Session) : UInt8 :=
  if s.durability ≤ config.step then 0 else s.durability - config.step

/-- The tool breaks, and the activation is over. -/
def exhaust (s : Session) : Session :=
  { s with durability := 0, held := none, state := .exhausted, runner := none }

/-- A dig starts at the target. -/
def startDig (config : Config) (s : Session) : Session := match s.target with
  | some block => { s with held := some ⟨s.tickCount + config.hold, block⟩ }
  | none => s

/-- The work of the tick that has been counted last. -/
def work (config : Config) (s : Session) : Plan × Session :=
  let swing : Bool := s.tickCount % config.animation = 0
  let released := if s.finished.isSome then { s with held := none } else s
  if s.tickCount % config.durability ≠ 0 then
    (⟨s.tickCount, swing, s.finished, none, none, false⟩, released)
  else if s.worn config = 0 then
    (⟨s.tickCount, swing, s.finished, none, some 0, true⟩, released.exhaust)
  else
    (⟨s.tickCount, swing, s.finished, s.target, some (s.worn config), false⟩,
      { released with durability := s.worn config }.startDig config)

/-- Whether the fields are in their ranges, coming from `previous` ticks. -/
def checkInvariants (previous : UInt64) (s : Session) : Except Error Unit :=
  if s.durability > fullDurability then
    .error (.stateCorruption s!"durability {s.durability.toNat} outside 0..={fullDurability.toNat}")
  else if s.tickCount < previous then
    .error (.stateCorruption
      s!"tick count went backwards: {previous.toNat} -> {s.tickCount.toNat}")
  else .ok ()

/-- What a tick of a runner comes to. -/
inductive Turn where
  /-- The runner is not wanted any more. -/
  | leave
  | tick (plan : Plan)
  /-- The tick has broken off. -/
  | fault (e : Error)
deriving DecidableEq, Repr

/-- A tick of the runner. -/
def beginTick (config : Config) (runner : RunnerId) (s : Session) : Turn × Session :=
  if s.runner ≠ some runner then (.leave, s)
  else if s.stopRequested then (.leave, s.stopped)
  else match s.state.next with
    | none => (.leave, { s with runner := none })
    | some state =>
      let counted := { s with state, tickCount := s.tickCount + 1 }
      if config.animation = 0 ∨ config.durability = 0 then (.fault .zeroInterval, counted)
      else
        let (plan, after) := counted.work config
        match after.checkInvariants s.tickCount with
        | .ok () => (.tick plan, after)
        | .error e => (.fault e, after)

/-- What came of a row of ticks. -/
structure Ticks where
  plans : List Plan
  /-- Whether the runner left. -/
  left : Bool
  session : Session

/-- Up to `n` ticks of the runner, until it leaves. -/
def ticks (config : Config) (runner : RunnerId) : (n : Nat) → Session → Except Error Ticks
  | 0, s => .ok ⟨[], false, s⟩
  | n + 1, s => match s.beginTick config runner with
    | (.leave, s) => .ok ⟨[], true, s⟩
    | (.fault e, _) => .error e
    | (.tick plan, s) => (ticks config runner n s).map fun t => { t with plans := plan :: t.plans }

end Session

end Pickaxe.Mining
