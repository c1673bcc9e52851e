import Pickaxe.Duration

/-! A clock that gives out numbered ticks, one a period, to whoever waits for them. A tick that
is waited for too late comes at once, and the policy says when the next one is due.

What is counted here is counted in 64 bits, and instants are nanoseconds. A period is a nanosecond at least,
so there are no more ticks, and no more periods gone by without one, than nanoseconds since the start. It
takes 500 years until these do not fit 64 bits, and natural numbers stand for them. -/
namespace Pickaxe

/-- A point of time, in nanoseconds from the start. -/
abbrev Instant := Nat

namespace Clock

/-- What becomes of the schedule after a late tick. -/
inductive Policy where
  /-- The next tick is due one period after the late one. -/
  | skip
  /-- The next tick stays due when it was. -/
  | drop
deriving DecidableEq, Repr

structure Settings where
  period : Duration
  policy : Policy
  /-- The part of a period after which work is reported as long. -/
  warn : Float
  /-- The part of a period after which work is reported as too long. -/
  critical : Float
  metrics : Bool

namespace Settings

def standardPeriod : Duration := Duration.milliseconds 50

def withPeriod (period : Duration) : Settings := ⟨period, .skip, 0.8, 1, true⟩

def standard : Settings := withPeriod standardPeriod

/-- Held between 0 and 1. What is no number stays so. -/
def portion (x : Float) : Float := if x < 0 then 0 else if x > 1 then 1 else x

/-- The period is not zero, and a warning comes no later than the critical point. -/
def validated (s : Settings) : Settings :=
  let warn := portion s.warn
  let critical := portion s.critical
  { s with
    period := if s.period = 0 then standardPeriod else s.period
    warn := if warn > critical then critical else warn
    critical }

end Settings

structure Tick where
  /-- Counted from 1. -/
  number : Nat
  period : Duration
  /-- Whether it came more than a tenth of a period late. -/
  overrun : Bool
  /-- The whole periods that went by without a tick. -/
  skipped : Nat
deriving DecidableEq, Repr

structure Metrics where
  ticks : Nat
  overruns : Nat
  skipped : Nat
deriving DecidableEq, Repr

end Clock

structure Clock where
  settings : Clock.Settings
  /-- The ticks given out so far. -/
  count : Nat
  /-- When the next tick is due. -/
  due : Instant
  stopped : Bool
  metrics : Clock.Metrics

namespace Clock

/-- A clock whose first tick is due one period from now. -/
def new (settings : Settings) (now : Instant) : Clock where
  settings := settings.validated
  count := 0
  due := now + settings.validated.period
  stopped := false
  metrics := ⟨0, 0, 0⟩

def period (c : Clock) : Duration := c.settings.period

/-- No tick comes after this. -/
def stop (c : Clock) : Clock := { c with stopped := true }

/-- The next tick, as it comes at `now`. -/
def tick (now : Instant) (c : Clock) : Tick :=
  let late := now - c.due
  let overrun := late > c.period / 10
  ⟨c.count + 1, c.period, overrun,
    if overrun ∧ c.settings.policy = .skip then late / c.period else 0⟩

/-- Gives the next tick out at `now`. -/
def deliver (now : Instant) (c : Clock) : Tick × Clock :=
  let t := c.tick now
  (t, { c with
    count := c.count + 1
    due := match c.settings.policy with
      | .skip => now + c.period
      | .drop => c.due + c.period
    metrics := ⟨c.metrics.ticks + 1, c.metrics.overruns + t.overrun.toNat,
      c.metrics.skipped + t.skipped⟩ })

/-- Waits for the next tick from `now` on, with somebody who stops the clock at `stopping`:
what comes of it, when, and the clock after that. A stop at the very moment wins. -/
def wait (now : Instant) (stopping : Option Instant) (c : Clock) :
    Option Tick × Instant × Clock :=
  if c.stopped then (none, now, c)
  else
    let moment := max now c.due
    let inTime : Bool := match stopping with
      | some s => moment < s
      | none => true
    if inTime then
      let (t, c) := c.deliver moment
      (some t, moment, c)
    else (none, max now (stopping.getD now), c.stop)

end Clock

end Pickaxe
