import Std.Async.Signal
import Pickaxe.CommandLine.Report
import Pickaxe.Live.Bot

/-! The program: reads the arguments and the environment, does what they say, and prints what
has come of it. -/

open Pickaxe

/-- A look at whether somebody wants the program to end. -/
def watchSignals : IO (IO Bool) := do
  let interrupt ← Std.Async.Signal.Waiter.mk .sigint false
  let terminate ← Std.Async.Signal.Waiter.mk .sigterm false
  let waits := [← interrupt.wait, ← terminate.wait]
  return waits.anyM fun wait => IO.hasFinished wait

def perform (config : Bot.Config) :
    CommandLine.Request → IO CommandLine.Report
  | .ping => do
    match ← (Live.status config Packet.nativeVersion).run with
    | .ok (status, latency) => return .ofStatus status latency
    | .error e => return .ofError ["status ping failed"] e
  | .negotiate r => do
    if r.clean then
      match ← (Live.clean config).run with
      | .ok () => return .cleaned
      | .error e => return .ofError [] e
    else
      match ← (Live.negotiate config r.force).run with
      | .ok outcome => return .ofOutcome outcome
      | .error e => return .ofError [] e
  | .run _ => do
    let session : ExceptT Bot.Error IO Play.End := do
      let outcome ← Live.negotiate config false
      Live.play config outcome.version (← watchSignals)
    match ← session.run with
    | .ok e => return .ofEnd e
    | .error e => return .ofError [] e

def main (arguments : List String) : IO UInt32 := do
  let environment : CommandLine.Environment :=
    ⟨← IO.getEnv "QUARRY_SERVER", ← IO.getEnv "QUARRY_USERNAME", ← IO.getEnv "QUARRY_STATE_DIR"⟩
  let report ← match CommandLine.parse environment arguments with
    | .error stop => pure (.ofStop stop)
    | .ok invocation => perform invocation.config.validated invocation.request
  report.out.forM IO.println
  report.err.forM IO.eprintln
  return report.exit
