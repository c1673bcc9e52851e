import Pickaxe.Clock
import Pickaxe.Mining.Session
import Pickaxe.World.Pose

/-! The mining session with the tasks that run it. Each runner has a task of its own: it waits
for its clock, takes a plan from the session, sends the plan's actions one by one and waits
again, until the session lets it go. Callers activate and stop the session in between, at any
step of any task. -/
namespace Pickaxe.Mining

open World (Action Block)

/-- What a task does next. -/
inductive Stage where
  /-- Waits for its clock. -/
  | waiting
  /-- Has a tick, and asks the session what to do. -/
  | woken
  /-- Sends what is left of its plan: an action that is on its way since `since`, then the others. -/
  | acting (since : Instant) (action : Action) (left : List Action) (last : Bool)
  /-- Tells the session that it leaves. -/
  | leaving
  | gone
deriving DecidableEq, Repr

/-- With so much of its plan left, at `now`. -/
def Stage.after (now : Instant) (last : Bool) : List Action → Stage
  | [] => if last then .leaving else .waiting
  | action :: left => .acting now action left last

structure Task where
  runner : RunnerId
  clock : Clock
  stage : Stage
  /-- Whether a stop reaches its clock. -/
  listed : Bool

def Task.isGone (t : Task) : Bool := match t.stage with
  | .gone => true
  | _ => false

structure Machine where
  config : Config
  session : Session
  /-- In the order they started. -/
  tasks : List Task

namespace Machine

def new (config : Config) : Machine := ⟨config.validated, .new, []⟩

/-- Activates mining at `target`, with a new task if the session asks for one. -/
def activate (now : Instant) (target : Block) (m : Machine) : Machine :=
  match m.session.activate target with
  | (some runner, session) =>
    let clock := Clock.new (.withPeriod m.config.period) now
    { m with session, tasks := m.tasks.filter (!·.isGone) ++ [⟨runner, clock, .waiting, true⟩] }
  | (none, session) => { m with session }

/-- Asks the session to stop, and stops the clock of every task on the list. -/
def requestStop (m : Machine) : Machine :=
  { m with
    session := m.session.requestStop
    tasks := m.tasks.map fun t => if t.listed then { t with clock := t.clock.stop } else t }

/-- Takes every task off the list, as somebody does who waits for them to leave. -/
def release (m : Machine) : Machine :=
  { m with tasks := m.tasks.map fun t => { t with listed := false } }

/-- The next step of a task at `now`: the action that is sent by it, the task and the session
after it. -/
def advance (config : Config) (now : Instant) (t : Task) (s : Session) :
    Option Action × Task × Session :=
  match t.stage with
  | .waiting =>
    if t.clock.stopped then (none, { t with stage := .leaving }, s)
    else if t.clock.due ≤ now then
      (none, { t with clock := (t.clock.deliver now).2, stage := .woken }, s)
    else (none, t, s)
  | .woken => match s.beginTick config t.runner with
    | (.leave, s) => (none, { t with stage := .leaving }, s)
    | (.tick plan, s) =>
      (none, { t with stage := .after now plan.last (plan.actions config) }, s)
    | (.fault _, s) => (none, { t with stage := .gone }, s)
  | .acting _ action left last => (some action, { t with stage := .after now last left }, s)
  | .leaving => (none, { t with stage := .gone }, s.detach t.runner)
  | .gone => (none, t, s)

/-- Lets the task of `runner` take its next step. -/
def step (now : Instant) (runner : RunnerId) (m : Machine) : Option Action × Machine :=
  match m.tasks.find? (·.runner = runner) with
  | none => (none, m)
  | some t =>
    let (action, t, session) := advance m.config now t m.session
    (action, { m with
      session
      tasks := m.tasks.map fun u => if u.runner = runner then t else u })

/-- Whether every task has left. -/
def isQuiet (m : Machine) : Bool := m.tasks.all (·.isGone)

end Machine

end Pickaxe.Mining
