import Pickaxe.Duration

/-! Cadence and wear of an activation. Intervals count ticks. -/
namespace Pickaxe.Mining

structure Config where
  period : Duration
  /-- The arm swings every so many ticks. -/
  animation : UInt64
  /-- The tool wears, and a dig starts, every so many ticks. -/
  durability : UInt64
  /-- The wear at each such tick, in points of a hundred. -/
  step : UInt8
  /-- The ticks from the start of a dig to its end. -/
  hold : UInt64
  /-- Said when an activation starts. -/
  startLine : String
  /-- Said when the tool breaks. -/
  breakLine : String
deriving DecidableEq, Repr

namespace Config

def standard : Config where
  period := Duration.milliseconds 50
  animation := 10
  durability := 40
  step := 5
  hold := 10
  startLine := "Starting mining simulation!"
  breakLine := "IT BROKEEEEE"

/-- The next multiple of `unit`, modulo the range of 64 bits. -/
def roundedUp (n unit : UInt64) : UInt64 :=
  if n % unit = 0 then n else n + (unit - n % unit)

/-- No zero is left, and wear comes on a tick that swings. -/
def validated (c : Config) : Config :=
  let animation := if c.animation = 0 then standard.animation else c.animation
  let durability := if c.durability = 0 then standard.durability else c.durability
  { c with
    period := if c.period = 0 then standard.period else c.period
    animation
    durability := roundedUp durability animation
    step := if c.step = 0 then 1 else c.step }

def fieldNames : List String :=
  ["tick_period", "animation_interval", "durability_interval", "durability_step",
    "dig_hold_ticks", "start_message", "break_message"]

def decoder : Json.Decoder Config :=
  .record fieldNames fun f => do
    return ⟨← f.required "tick_period" Duration.decoder,
      ← f.required "animation_interval" .u64, ← f.required "durability_interval" .u64,
      ← f.required "durability_step" .u8, ← f.required "dig_hold_ticks" .u64,
      ← f.required "start_message" .text, ← f.required "break_message" .text⟩

def json (c : Config) : Json :=
  .object [("tick_period", Duration.json c.period),
    ("animation_interval", .int c.animation.toNat),
    ("durability_interval", .int c.durability.toNat), ("durability_step", .int c.step.toNat),
    ("dig_hold_ticks", .int c.hold.toNat), ("start_message", .text c.startLine),
    ("break_message", .text c.breakLine)]

end Config

end Pickaxe.Mining
