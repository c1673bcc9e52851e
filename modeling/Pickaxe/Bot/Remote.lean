import Pickaxe.Bot.Error
import Pickaxe.Client.Inbox
import Pickaxe.Client.Login
import Pickaxe.Client.StatusPing

/-! The server's side as the bot meets it: one connection after another, what comes in over each,
and what has been sent over them. -/
namespace Pickaxe.Bot

open Client (Line)
open Negotiation (ConnectError PingError Reply)
open Packet (Version)
open Server (Endpoint)
open Wire (Frame.Arrival TransportError)

/-- What becomes of opening a connection. -/
inductive Dial where
  | refused (cause : String)
  | timedOut
  /-- What comes in, and whether the stream stays open after that. -/
  | accepted (inbound : List Frame.Arrival) (open_ : Bool)

structure Remote where
  username : String
  /-- The next connections, in order. -/
  dials : List Dial
  /-- All connections after those. -/
  others : Dial
  /-- What a ping carries, and the time and the salt of a chat line. -/
  stamp : Int64
  /-- What has been sent over each connection, the latest first. -/
  lines : List Line

namespace Remote

/-- The next connection. -/
def dial (r : Remote) : Dial × Remote := match r.dials with
  | d :: dials => (d, { r with dials })
  | [] => (r.others, r)

/-- A connection has served its purpose. -/
def done (line : Line) (r : Remote) : Remote := { r with lines := line :: r.lines }

/-- A connection to the server, or what stands in the way. -/
def connect (endpoint : Endpoint) (r : Remote) :
    Except TransportError (List Frame.Arrival × Bool) × Remote :=
  let (d, r) := r.dial
  match d with
  | .refused cause => (.error (.connectFailed endpoint.text cause), r)
  | .timedOut => (.error (.connectTimeout endpoint.text), r)
  | .accepted inbound more => (.ok (inbound, more), r)

/-- Asks for the status over a connection of its own. A stream that stays open counts as ended here. -/
def status (endpoint : Endpoint) (version : Version) (r : Remote) :
    Except Error Client.StatusPing.Answer × Remote :=
  match r.connect endpoint with
  | (.error e, r) => (.error (.transport e), r)
  | (.ok (inbound, _), r) =>
    let (result, line) := Client.StatusPing.run endpoint version r.stamp inbound
    (result.mapError Error.ofStatusPing, r.done line)

/-- Whether a login over the next connection has no end: the server leaves it undecided and open. -/
def isSilent (endpoint : Endpoint) (version : Version) (r : Remote) : Bool := match r.dial.1 with
  | .accepted inbound true => Client.Login.waits endpoint version r.username inbound
  | .accepted _ false | .refused _ | .timedOut => false

/-- Logs in over a connection of its own. One that has no end is broken off. -/
def login (endpoint : Endpoint) (version : Version) (r : Remote) :
    Except ConnectError (List Frame.Arrival × Bool × Line) × Remote :=
  match r.connect endpoint with
  | (.error e, r) => (.error (Client.Login.transportFailure e), r)
  | (.ok (inbound, more), r) =>
    let outcome := Client.Login.run endpoint version r.username inbound
    match outcome.result with
    | .ok () => (.ok (outcome.inbound, more, outcome.line), r)
    | .error e => (.error e, r.done outcome.line)

/-- Logs in and hangs up. -/
def tryVersion (endpoint : Endpoint) (version : Version) (r : Remote) :
    Except ConnectError Unit × Remote :=
  match r.login endpoint version with
  | (.ok (_, _, line), r) => (.ok (), r.done line.close)
  | (.error e, r) => (.error e, r)

/-- The status answers whatever version it is asked at; a negotiation asks at the native one. -/
instance : Negotiation.Network Remote where
  ping endpoint r :=
    let (result, r) := r.status endpoint Packet.nativeVersion
    (match result with
      | .ok answer => .ok answer.status
      | .error e => .error (.unreachable e.message), r)
  connect endpoint version r :=
    let (result, after) := r.tryVersion endpoint version
    (if r.isSilent endpoint version then .silent else .answered 0 result, after)

end Remote

end Pickaxe.Bot
