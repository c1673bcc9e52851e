import Std.Time
import Pickaxe.Bot.Error
import Pickaxe.Bot.Playing
import Pickaxe.Live.Connection
import Pickaxe.Live.Files
import Pickaxe.Negotiation.Inquiry
import Pickaxe.Negotiation.Script

/-! The bot over the network: each of its tasks, as connections, files and the time go. What to say and
what to make of an answer is decided elsewhere: a talk goes on by `Client.Talk.step`, a negotiation is a
`Negotiation.Inquiry`, and a game goes on by what `Bot.Playing` takes in and says. -/
namespace Pickaxe.Live

open Pickaxe.Bot (Config Error)
open Client (Line)
open Negotiation (Controller Outcome Reply Script StateDir)
open Packet (Version)

def orFail {ε ε' α : Type} (f : ε → ε') (x : IO (Except ε α)) : ExceptT ε' IO α :=
  ExceptT.mk (do return (← x).mapError f)

/-- Milliseconds since 1970. -/
def unixTime : IO Nat := do
  return (← Std.Time.Timestamp.now).toMillisecondsSinceUnixEpoch.toInt.toNat

/-- Has a talk that nothing puts an end to but itself. -/
def meet {ε α : Type} (config : Config) (t : Client.Talk ε α) : ExceptT ε IO (Connection × α × Line) :=
  ExceptT.mk do
    let met ← Connection.meet config.endpoint config.negotiation.connectTimeout t none
    return met.getD (.error t.ended)

/-- Asks for the status, and measures how long the answer to a ping takes. -/
def status (config : Config) (version : Version) :
    ExceptT Error IO (Server.Status × Option Duration) := do
  let (c, status, line) ← orFail .ofStatusPing (meet config (Client.StatusPing.talk config.endpoint version))
  let payload := Int64.ofNat (← unixTime)
  let start ← IO.monoNanosNow
  let _ ← orFail .transport (c.say [Packet.Status.ping payload] line)
  let answer ← c.next none
  let latency := (← IO.monoNanosNow) - start
  c.close
  return (status,
    if Client.StatusPing.answered payload answer.join.toList then some latency else none)

/-- Tries one version: logs in and hangs up. -/
def trial (config : Config) (version : Version) : IO Reply := do
  let start ← IO.monoNanosNow
  let talk := Client.Login.talk config.endpoint version config.username
  let met ← Connection.meet config.endpoint config.negotiation.connectTimeout talk
    (some (start + config.negotiation.trialTimeout))
  if let some (.ok (c, _)) := met then c.close
  let after := (← IO.monoNanosNow) - start
  return match met with
    | none => .silent
    | some result => .answered after (result.map fun _ => ())

/-- The state directory as it is, and a negotiation that starts from it. -/
def controller (config : Config) : ExceptT Error IO (Controller StateDir Script) := do
  let state ← orFail (.negotiation ∘ .store) (Files.load config.negotiation.stateDir)
  return .new state .silent config.endpoint Packet.nativeVersion config.negotiation

/-- Writes down what has become of the state directory. -/
def keep (config : Config) (before after : Controller StateDir Script) :
    ExceptT Error IO Unit :=
  orFail (.negotiation ∘ .store)
    (Files.save config.negotiation.stateDir before.store after.store)

/-- Agrees upon a version. -/
def negotiate (config : Config) (force : Bool) : ExceptT Error IO Outcome := do
  let fresh ← controller config
  let now := UInt64.ofNat ((← unixTime) / 1000)
  let ping (c : Controller StateDir Script) := do
    let answer ← ExceptT.lift (status config Packet.nativeVersion).run
    return (answer.map (·.1) |>.mapError (.unreachable ·.message), c.network)
  let connect (v : Version) (c : Controller StateDir Script) := do
    return (← trial config v, c.network)
  let (result, _) ← (fresh.inquire force now).answer (keep config) ping connect fresh
  orFail .negotiation (pure result)

def clean (config : Config) : ExceptT Error IO Unit := do
  let fresh ← controller config
  let (result, c) := fresh.clean
  keep config fresh c
  orFail .negotiation (pure result)

/-- Joins and plays until the session ends. -/
def play (config : Config) (version : Version) (interrupted : IO Bool) :
    ExceptT Error IO Play.End := do
  let (c, _, line) ← orFail .join
    (meet config (Client.Login.talk config.endpoint version config.username))
  let start ← IO.monoNanosNow
  let mut p := Bot.Playing.start config line
  repeat
    match ← if p.session.streamEnded then pure none else c.next (some 0) with
    | none => IO.sleep pause
    | some arrival => p := p.hear arrival
    let now := (← IO.monoNanosNow) - start
    if ← interrupted then p := p.interrupt now
    let (actions, next) := p.goOn now
    p := next
    for action in actions do
      let salt ← IO.rand 0 (UInt64.size - 1)
      p := p.say (Int64.ofNat (← unixTime)) (Int64.ofNat salt) action
    p := p.transmitted (← c.transmit p.outbox.line)
    if let some e := p.ended? then
      c.close
      return e
  throw (.join .timeout)

end Pickaxe.Live
