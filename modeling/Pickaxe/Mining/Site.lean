import Pickaxe.Mining.Machine

/-! A machine at work: the line to the server, which may be slow or fail, the player's pose, and
the time. Nothing moves but what is due, earliest first, and of two tasks due at once the one
that started first. -/
namespace Pickaxe

open World (Action ActionKind)

/-- The line to the server. -/
structure Sink where
  /-- How long an action is on its way. -/
  delay : Duration
  /-- The kinds that do not get through. -/
  failing : List ActionKind
  /-- The actions that did get through, the latest first. -/
  log : List (Instant × Action)

namespace Sink

def new (delay : Duration) (failing : List ActionKind) : Sink := ⟨delay, failing, []⟩

/-- An action has been on its way for long enough. -/
def finish (now : Instant) (action : Action) (s : Sink) : Sink :=
  if action.kind ∈ s.failing then s else { s with log := (now, action) :: s.log }

def sent (s : Sink) : List (Instant × Action) := s.log.reverse

theorem failing_finish (now : Instant) (action : Action) (s : Sink) :
    (s.finish now action).failing = s.failing := by
  rw [finish]
  split <;> rfl

theorem sent_finish (now : Instant) (action : Action) (s : Sink) :
    (s.finish now action).sent.map Prod.snd =
      s.sent.map Prod.snd ++ [action].filter (·.kind ∉ s.failing) := by
  rw [finish]
  split <;> simp_all [sent]

end Sink

/-- The earliest of the instants and who it belongs to, the first one if there are several. -/
def earliest {α : Type} : List (Instant × α) → Option (Instant × α)
  | [] => none
  | p :: rest => match earliest rest with
    | some q => if q.1 < p.1 then some q else some p
    | none => some p

namespace Mining

structure Site where
  now : Instant
  pose : World.Pose
  machine : Machine
  sink : Sink

namespace Site

def new (config : Config) (pose : World.Pose) (sink : Sink) : Site :=
  ⟨0, pose, .new config, sink⟩

/-- When a task can take its next step. -/
def dueAt (delay : Duration) (t : Task) : Option Instant := match t.stage with
  | .waiting => some (if t.clock.stopped then 0 else t.clock.due)
  | .woken | .leaving => some 0
  | .acting since _ _ _ => some (since + delay)
  | .gone => none

/-- The tasks that are not gone, and when each can go on. -/
def agenda (s : Site) : List (Instant × RunnerId) :=
  s.machine.tasks.filterMap fun t =>
    (dueAt s.sink.delay t).map fun due => (max s.now due, t.runner)

/-- The next step of a task, at its time. -/
def step (moment : Instant) (runner : RunnerId) (s : Site) : Site :=
  let (action, machine) := s.machine.step moment runner
  { s with
    now := moment
    machine
    sink := match action with
      | some a => s.sink.finish moment a
      | none => s.sink }

/-- Lets the tasks work until `deadline`, for at most so many steps. -/
def runFor : (steps : Nat) → (deadline : Instant) → Site → Site
  | 0, deadline, s => { s with now := max s.now deadline }
  | steps + 1, deadline, s => match earliest s.agenda with
    | some (moment, runner) =>
      if moment ≤ deadline then runFor steps deadline (s.step moment runner)
      else { s with now := max s.now deadline }
    | none => { s with now := max s.now deadline }

/-- More steps than there can be until then: a task waits at least one nanosecond between two
ticks, and takes at most six steps for each. -/
def steps (deadline : Instant) (s : Site) : Nat :=
  (deadline + 2 - s.now) * 8 * (s.machine.tasks.length + 1)

/-- Lets the tasks work until `deadline`. -/
def runTo (deadline : Instant) (s : Site) : Site := s.runFor (s.steps deadline) deadline

def sleep (d : Duration) (s : Site) : Site := s.runTo (s.now + d)

/-- Sends an action. The tasks work while it is on its way, if that takes any time. -/
def send (action : Action) (s : Site) : Site :=
  let s := if s.sink.delay = 0 then s else s.sleep s.sink.delay
  { s with sink := s.sink.finish s.now action }

/-- Activates mining where the player stands, and says so. -/
def activate (s : Site) : World.Block × Site :=
  let target := s.pose.target
  (target, { s with machine := s.machine.activate s.now target }.send
    (.chat s.machine.config.startLine))

def requestStop (s : Site) : Site := { s with machine := s.machine.requestStop }

/-- Lets the tasks work until all have left, for at most so many steps. -/
def drain : (steps : Nat) → Site → Site
  | 0, s => s
  | steps + 1, s => match earliest s.agenda with
    | some (moment, runner) => drain steps (s.step moment runner)
    | none => s

/-- Stops mining, and takes the tasks off the list to wait for them. -/
def dismiss (s : Site) : Site := { s with machine := s.machine.requestStop.release }

/-- Stops mining and waits until every task has left. A stopped task sends what is left of its
plan, of at most four actions, and waits once more. -/
def shutdown (s : Site) : Site := s.dismiss.drain (8 * (s.machine.tasks.length + 1))

end Site

end Mining

end Pickaxe
