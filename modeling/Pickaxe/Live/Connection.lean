import Std.Async.DNS
import Std.Async.TCP
import Pickaxe.Client.Talk
import Pickaxe.Duration

/-! Connections over the network. Whoever waits looks again every few milliseconds, so that a
wait can have an end and a signal is seen. -/
namespace Pickaxe.Live

open Std.Async (Async AsyncTask)
open Std.Net (IPAddr SocketAddress)
open Client (Line Talk)
open Server (Endpoint)
open Wire (Frame.Arrival TransportError)

/-- The time between two looks, in milliseconds. -/
def pause : UInt32 := 5

/-- Waits for a task until `deadline`, in nanoseconds of the machine's clock. -/
def await {α : Type} (deadline : Option Nat) (task : AsyncTask α) : IO (Option α) := do
  repeat
    if ← IO.hasFinished task then return some (← task.block)
    if let some moment := deadline then
      if moment ≤ (← IO.monoNanosNow) then return none
    IO.sleep pause
  return none

structure Connection where
  socket : Std.Async.TCP.Socket.Client
  /-- What has come in and is no whole frame yet. -/
  buffer : IO.Ref (List UInt8)
  /-- The receive under way. -/
  receiving : IO.Ref (AsyncTask (Option ByteArray))

namespace Connection

/-- The most bytes that are taken in at once. -/
def chunk : UInt64 := 65536

def ofSocket (socket : Std.Async.TCP.Socket.Client) : IO Connection := do
  socket.noDelay
  return ⟨socket, ← IO.mkRef [], ← IO.mkRef (← (socket.recv? chunk).toIO)⟩

def address (endpoint : Endpoint) : IPAddr → SocketAddress
  | .v4 addr => .v4 ⟨addr, endpoint.port⟩
  | .v6 addr => .v6 ⟨addr, endpoint.port⟩

/-- Opens a connection, giving up after `limit`. -/
def dial (endpoint : Endpoint) (limit : Duration) :
    IO (Except TransportError Connection) := do
  let deadline := (← IO.monoNanosNow) + limit
  let connecting : Async Connection := do
    let found ← Std.Async.DNS.getAddrInfo endpoint.host (toString endpoint.port.toNat)
    match found[0]? with
    | none => throw (IO.userError "no address for the host")
    | some addr =>
      let socket ← Std.Async.TCP.Socket.Client.mk
      socket.connect (address endpoint addr)
      ofSocket socket
  try
    match ← await (some deadline) (← connecting.toIO) with
    | some connection => return .ok connection
    | none => return .error (.connectTimeout endpoint.text)
  catch e => return .error (.connectFailed endpoint.text (toString e))

/-- What comes in next: nothing until `deadline`, or the end of the stream, or a frame. -/
def next (deadline : Option Nat) (c : Connection) : IO (Option (Option Frame.Arrival)) := do
  repeat
    let buffer ← c.buffer.get
    if Wire.Frame.isReady buffer then
      match Wire.Frame.first? buffer with
      | some (a, rest) =>
        c.buffer.set rest
        return some (some a)
      | none => return some none
    try
      match ← await deadline (← c.receiving.get) with
      | none => return none
      | some none =>
        c.buffer.set []
        return some ((Wire.Frame.first? buffer).map (·.1))
      | some (some bytes) =>
        c.buffer.set (buffer ++ bytes.toList)
        c.receiving.set (← (c.socket.recv? chunk).toIO)
    catch e => return some (some (.error (.receiveFailed (toString e))))
  return none

/-- Puts what this side has to say on the wire. -/
def transmit (line : Line) (c : Connection) : IO (Except TransportError Line) := do
  try
    for body in line.sent do
      (c.socket.send ⟨(Wire.Frame.written body).toArray⟩).block
    return .ok line.flushed
  catch e => return .error (.sendFailed (toString e))

/-- Says these frames. -/
def say (frames : List (List UInt8)) (line : Line) (c : Connection) :
    IO (Except TransportError Line) := do
  match line.sendAll frames with
  | (some e, _) => return .error e
  | (none, line) => c.transmit line

/-- Goes on with a talk, as far as it comes until `deadline`. -/
def converse {ε α : Type} (t : Talk ε α) (deadline : Option Nat) (line : Line) (c : Connection) :
    IO (Option (Except ε (α × Line))) := do
  let mut line := line
  repeat
    match ← c.next deadline with
    | none => break
    | some none => return some (.error t.ended)
    | some (some a) =>
      let (result, after) := t.step a line
      match ← c.transmit after, result with
      | .error e, _ => return some (.error (t.broken e))
      | .ok sent, none => line := sent
      | .ok sent, some result => return some (result.map (·, sent))
  return none

/-- Opens a connection and has a talk on it. There is no result if the time is up first. -/
def meet {ε α : Type} (endpoint : Endpoint) (limit : Duration) (t : Talk ε α) (deadline : Option Nat) :
    IO (Option (Except ε (Connection × α × Line))) := do
  match ← dial endpoint limit with
  | .error e => return some (.error (t.broken e))
  | .ok c => match ← c.say t.opening .fresh with
    | .error e => return some (.error (t.broken e))
    | .ok line => return (← c.converse t deadline line).map (·.map (c, ·))

/-- Ends this side's stream. An error is of no interest any more. -/
def close (c : Connection) : IO Unit := do
  try c.socket.shutdown.block catch _ => return

end Connection

end Pickaxe.Live
