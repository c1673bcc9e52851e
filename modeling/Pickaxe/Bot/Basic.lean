import Pickaxe.Bot.Config
import Pickaxe.Bot.Remote
import Pickaxe.Client.Outbox
import Pickaxe.Negotiation.Controller
import Pickaxe.Negotiation.StateDir

/-! The bot: it asks for the status, agrees with the server upon a version, and plays at that
version. What it has agreed upon is kept in its state directory. -/
namespace Pickaxe

open Pickaxe.Bot (Config Error Remote)
open Client (Inbox Outbox)
open Negotiation (Controller Outcome StateDir StoreError)
open Packet (Version)

structure Bot where
  config : Config
  /-- The version that the next connection speaks. -/
  active : Version
  state : StateDir
  remote : Remote
  /-- Why there is no state directory and none can be made. -/
  barred : Option StoreError

namespace Bot

def new (config : Config) (state : StateDir) (remote : Remote)
    (barred : Option StoreError := none) : Bot :=
  let config := config.validated
  ⟨config, Packet.nativeVersion, state, { remote with username := config.username }, barred⟩

def controller (b : Bot) : Except Error (Controller StateDir Remote) := match b.barred with
  | some e => .error (.negotiation (.store e))
  | none => .ok (.new b.state b.remote b.config.endpoint b.active b.config.negotiation)

/-- The bot after what a controller did for it. -/
def after (c : Controller StateDir Remote) (b : Bot) : Bot :=
  { b with active := c.active, state := c.store, remote := c.network }

def ping (b : Bot) : Except Error Client.StatusPing.Answer × Bot :=
  let (result, remote) := b.remote.status b.config.endpoint b.active
  (result, { b with remote })

/-- Agrees upon a version, at a time in seconds since 1970. -/
def negotiate (force : Bool) (now : UInt64) (b : Bot) : Except Error Outcome × Bot :=
  match b.controller with
  | .error e => (.error e, b)
  | .ok c =>
    let (result, c) := c.run force now
    (result.mapError .negotiation, b.after c)

def clean (b : Bot) : Except Error Unit × Bot := match b.controller with
  | .error e => (.error e, b)
  | .ok c =>
    let (result, c) := c.clean
    (result.mapError .negotiation, b.after c)

/-- Sends actions in their order. One that cannot be sent is passed over. -/
def sendAll (stamp : Int64) (actions : List World.Action) (o : Outbox) : Outbox :=
  actions.foldl (fun o action => (o.send stamp stamp action).2) o

/-- Joins at the active version and plays until the session ends. Neither the login nor the session
has an end if the server neither speaks nor goes. -/
def play (interrupt : Option Instant) (b : Bot) : Except Error (Option Play.End) × Bot :=
  match b.remote.login b.config.endpoint b.active with
  | (.error e, remote) =>
    (if b.remote.isSilent b.config.endpoint b.active then .ok none else .error (.join e),
      { b with remote })
  | (.ok (inbound, more, line), remote) =>
    let reading := Inbox.read inbound .start line
    let session := Play.Session.new b.config.session (.new 0 []) interrupt
    let session :=
      if more then { session with events := reading.soFar }
      else { session with events := reading.all, streamEnded := true }
    let session := session.finish
    let outbox := sendAll remote.stamp (session.site.sink.sent.map (·.2)) (.start reading.line)
    (.ok (match session.stage with
      | .closed e _ => some e
      | _ => none), { b with remote := remote.done outbox.line.close })

/-- Agrees upon a version and plays at it. -/
def run (now : UInt64) (interrupt : Option Instant) (b : Bot) :
    Except Error (Option Play.End) × Bot :=
  match b.negotiate false now with
  | (.error e, b) => (.error e, b)
  | (.ok _, b) => b.play interrupt

end Bot

end Pickaxe
