import Pickaxe.Mining.Site
import Pickaxe.Play.Command
import Pickaxe.Play.Shutdown
import Pickaxe.World.Event

/-! A play session: the loop that handles the game's events in their order, the tasks of the
commands that it starts, and the tasks that mine. Each takes its steps when they are due. At one
moment the loop comes first, then the commands in the order they started, then the miners.

The loop ends for the first reason that is given: a command, an interrupt, or the loss of the
connection. It then drops the commands, stops mining and waits for the miners to leave. -/
namespace Pickaxe.Play

open World (Action Event)

structure Settings where
  /-- Whether mining starts by itself after the first join. -/
  autoMine : Bool
  /-- The time for the world to load before that. -/
  worldLoad : Duration
  /-- The time between the farewell and the end. -/
  grace : Duration
  mining : Mining.Config

def farewell : String := "Goodbye!"

def following : String := "Moving to you!"

/-- One thing that a command does. -/
inductive Op where
  | stopMining
  | startMining
  | say (line : String)
  /-- Says that mining has started. -/
  | announce (line : String)
  | pause (d : Duration)
  /-- Waits for the world to load. The end of the session ends the command as well. -/
  | settle (d : Duration)
  | finish (e : End)
deriving DecidableEq, Repr

/-- How long it takes, on a line with this delay. -/
def Op.duration (delay : Duration) : Op → Duration
  | .say _ | .announce _ => delay
  | .pause d | .settle d => d
  | .stopMining | .startMining | .finish _ => 0

/-- Starting to mine, and saying so. -/
def Settings.startOps (settings : Settings) : List Op :=
  [.startMining, .announce settings.mining.startLine]

def Command.ops (settings : Settings) : Command → List Op
  | .stop => [.stopMining, .say farewell, .pause settings.grace, .finish .stopped]
  | .mine => settings.startOps
  | .me => [.say following]

/-- A command on its way. -/
structure Task where
  /-- When it began with the first thing left. -/
  since : Instant
  left : List Op
deriving DecidableEq, Repr

/-- What the loop does. Commands and miners go on in any stage, and may give a reason to end between
two looks of the loop. -/
inductive Stage where
  /-- Looks for a reason to end. -/
  | listening
  /-- Has found none, and looks for an interrupt and for events. -/
  | polling
  /-- Sends the answer to an event. -/
  | answering (since : Instant) (action : Action)
  /-- Drops the commands. -/
  | dropping (e : End)
  /-- Stops mining. -/
  | stopping (e : End)
  /-- Waits for the miners to leave. -/
  | closing (e : End)
  | closed (e : End) (moment : Instant)
deriving DecidableEq, Repr

inductive Agent where
  | loop
  | command (index : Nat)
  | miner (runner : Mining.RunnerId)
deriving DecidableEq, Repr

structure Session where
  settings : Settings
  site : Mining.Site
  stage : Stage
  shutdown : Shutdown
  /-- When the interrupt comes. -/
  interrupt : Option Instant
  /-- The events to handle, the oldest first. -/
  events : List Event
  /-- Whether there are no events after these. -/
  streamEnded : Bool
  /-- The commands in the order they started. -/
  tasks : List Task
  /-- Whether mining has been started by itself. -/
  autoStarted : Bool

namespace Session

def new (settings : Settings) (sink : Sink) (interrupt : Option Instant) : Session where
  settings
  site := .new settings.mining .origin sink
  stage := .listening
  shutdown := .unset
  interrupt
  events := []
  streamEnded := false
  tasks := []
  autoStarted := false

def now (s : Session) : Instant := s.site.now

def isClosed (s : Session) : Bool := match s.stage with
  | .closed .. => true
  | _ => false

/-- Gives a reason to end. -/
def trigger (e : End) (s : Session) : Session :=
  { s with shutdown := (s.shutdown.trigger e).2 }

def spawn (ops : List Op) (s : Session) : Session :=
  { s with tasks := s.tasks ++ [⟨s.now, ops⟩] }

def answer (action : Action) (s : Session) : Session :=
  { s with stage := .answering s.now action }

/-- Handles one event. -/
def handle (e : Event) (s : Session) : Session := match e with
  | .joined _ =>
    if s.settings.autoMine && !s.autoStarted then
      { s with autoStarted := true }.spawn
        (.settle s.settings.worldLoad :: s.settings.startOps)
    else s
  | .chat line => match Command.classify line with
    | some command => s.spawn (command.ops s.settings)
    | none => s
  | .teleport pose id => { s with site := { s.site with pose } }.answer (.confirmTeleport id)
  | .health .. => s
  | .death _ => s.answer .respawn
  | .disconnected _ => s.trigger .connectionLost

/-- Whether the interrupt has come. -/
def interrupted (s : Session) : Bool := match s.interrupt with
  | some moment => moment ≤ s.now
  | none => false

/-- A reason to end comes before all else. -/
def listen (s : Session) : Session :=
  { s with stage := match s.shutdown.reason with
    | some e => .dropping e
    | none => .polling }

/-- An interrupt comes before events. It ends the loop for the reason that stands by then. -/
def poll (s : Session) : Session :=
  if s.interrupted then
    let s := s.trigger .interrupted
    { s with stage := .dropping (s.shutdown.reason.getD .interrupted) }
  else
    let s := { s with stage := .listening }
    match s.events with
    | e :: rest => { s with events := rest }.handle e
    | [] => if s.streamEnded then s.trigger .connectionLost else s

def loopStep (s : Session) : Session := match s.stage with
  | .listening => s.listen
  | .polling => s.poll
  | .answering _ action =>
    { s with site := { s.site with sink := s.site.sink.finish s.now action }, stage := .listening }
  | .dropping e => { s with tasks := [], stage := .stopping e }
  | .stopping e => { s with site := s.site.dismiss, stage := .closing e }
  | .closing e => if s.site.machine.isQuiet then { s with stage := .closed e s.now } else s
  | .closed .. => s

/-- What an op does when its time has passed. -/
def perform (op : Op) (s : Session) : Session := match op with
  | .stopMining => { s with site := s.site.requestStop }
  | .startMining =>
    { s with site := { s.site with machine := s.site.machine.activate s.now s.site.pose.target } }
  | .say line | .announce line =>
    { s with site := { s.site with sink := s.site.sink.finish s.now (.chat line) } }
  | .pause _ | .settle _ => s
  | .finish e => s.trigger e

/-- What is left of a command after its first op. -/
def Task.rest (shutdown : Shutdown) (now : Instant) (t : Task) : Task := match t.left with
  | [] => t
  | .settle _ :: left => ⟨now, if shutdown.reason.isSome then [] else left⟩
  | _ :: left => ⟨now, left⟩

def commandStep (index : Nat) (s : Session) : Session := match s.tasks[index]? with
  | none => s
  | some t => match t.left with
    | [] => s
    | op :: _ => { s with tasks := s.tasks.set index (Task.rest s.shutdown s.now t) }.perform op

/-- When the loop can go on. -/
def loopDue (s : Session) : Option Instant := match s.stage with
  | .listening =>
    if s.shutdown.reason.isSome || !s.events.isEmpty || s.streamEnded then some 0
    else s.interrupt
  | .answering since _ => some (since + s.site.sink.delay)
  | .polling | .dropping _ | .stopping _ => some 0
  | .closing _ => if s.site.machine.isQuiet then some 0 else none
  | .closed .. => none

/-- When a command can go on. -/
def commandDue (s : Session) (t : Task) : Option Instant := match t.left with
  | [] => none
  | .settle d :: _ => some (if s.shutdown.reason.isSome then 0 else t.since + d)
  | op :: _ => some (t.since + op.duration s.site.sink.delay)

/-- Who can go on, and when. -/
def agenda (s : Session) : List (Instant × Agent) :=
  (s.loopDue.map fun due => (max s.now due, .loop)).toList ++
    s.tasks.zipIdx.filterMap (fun (t, index) =>
      (commandDue s t).map fun due => (max s.now due, .command index)) ++
    s.site.agenda.map fun (moment, runner) => (moment, .miner runner)

/-- The next step of one of them, at its time. -/
def step (moment : Instant) (agent : Agent) (s : Session) : Session :=
  let s := { s with site := { s.site with now := moment } }
  match agent with
  | .loop => s.loopStep
  | .command index => s.commandStep index
  | .miner runner => { s with site := s.site.step moment runner }

/-- Lets them work until `deadline`, for at most so many steps. -/
def runFor : (steps : Nat) → (deadline : Instant) → Session → Session
  | 0, deadline, s => { s with site := { s.site with now := max s.now deadline } }
  | steps + 1, deadline, s => match earliest s.agenda with
    | some (moment, agent) =>
      if moment ≤ deadline then runFor steps deadline (s.step moment agent)
      else { s with site := { s.site with now := max s.now deadline } }
    | none => { s with site := { s.site with now := max s.now deadline } }

/-- The ops that are left, counting four for each event to handle. -/
def pending (s : Session) : Nat :=
  (s.tasks.flatMap (·.left)).length + 4 * s.events.length

/-- More steps than there can be until then, as each op starts one miner at the most. -/
def steps (deadline : Instant) (s : Session) : Nat :=
  (deadline + 2 - s.now) * 8 * (s.site.machine.tasks.length + s.pending + 2)

/-- Lets the session go on until `deadline`. -/
def runTo (deadline : Instant) (s : Session) : Session := s.runFor (s.steps deadline) deadline

def sleep (d : Duration) (s : Session) : Session := s.runTo (s.now + d)

/-- Lets the session go on until it is closed, for at most so many steps. -/
def runOut : (steps : Nat) → Session → Session
  | 0, s => s
  | steps + 1, s =>
    if s.isClosed then s
    else match earliest s.agenda with
      | some (moment, agent) => runOut steps (s.step moment agent)
      | none => s

/-- A time by which a session that ends by itself has ended: all that is left has been done one
after another. -/
def horizon (s : Session) : Instant :=
  let perOp := s.site.sink.delay + s.settings.worldLoad + s.settings.grace
  max s.now (s.interrupt.getD 0) + perOp * (s.pending + 1) +
    4 * s.site.sink.delay * (s.site.machine.tasks.length + s.pending + 1)

/-- Lets the session go on until it is closed. -/
def finish (s : Session) : Session := s.runOut (s.steps s.horizon)

/-- Hands an event over: whether somebody will still look at it, and the session with it. -/
def deliver (e : Event) (s : Session) : Bool × Session :=
  if s.isClosed then (false, s) else (true, { s with events := s.events ++ [e] })

/-- No more events come. -/
def endStream (s : Session) : Session := { s with streamEnded := true }

/-- The actions sent so far, and the session without the memory of them. -/
def harvest (s : Session) : List Action × Session :=
  (s.site.sink.sent.map (·.2),
    { s with site := { s.site with sink := { s.site.sink with log := [] } } })

end Session

end Pickaxe.Play
