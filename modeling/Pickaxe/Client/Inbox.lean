import Pickaxe.Client.Line
import Pickaxe.Packet.Configuration
import Pickaxe.Packet.Play
import Pickaxe.World.Event

/-! What comes in after a login. The server first configures this side and then plays. Questions
are answered in the phase they come in, and the rest becomes events. A frame that cannot be read
changes nothing. The last event, and only that one, says that the connection is gone. -/
namespace Pickaxe.Client

open Wire (Frame.Arrival)
open World (Event Pose)

inductive Phase where
  | configuration | play
deriving DecidableEq, Repr

/-- How far the reading has come. -/
structure Inbox where
  phase : Phase
  /-- The pose after the last teleport. -/
  pose : Pose

/-- What a frame leads to. -/
structure Effect where
  inbox : Inbox
  reply : Option (List UInt8)
  event : Option Event

namespace Inbox

def start : Inbox := ⟨.configuration, .origin⟩

def ignore (inbox : Inbox) : Effect := ⟨inbox, none, none⟩

def answer (inbox : Inbox) (frame : List UInt8) : Effect := ⟨inbox, some frame, none⟩

def tell (inbox : Inbox) (e : Event) : Effect := ⟨inbox, none, some e⟩

def configure (inbox : Inbox) : Packet.Configuration.Received → Effect
  | .keepAlive id => inbox.answer (Packet.Configuration.keepAlive id)
  | .ping id => inbox.answer (Packet.Configuration.pong id)
  | .knownPacks => inbox.answer Packet.Configuration.knownPacksNone
  | .cookieRequest key => inbox.answer (Packet.Configuration.cookieResponse key)
  | .finish => { inbox with phase := .play }.answer Packet.Configuration.acknowledgeFinish
  | .disconnect reason => inbox.tell (.disconnected reason)
  | .other _ => inbox.ignore

def play (inbox : Inbox) : Packet.Play.Received → Effect
  | .keepAlive id => inbox.answer (Packet.Play.keepAlive id)
  | .ping id => inbox.answer (Packet.Play.pong id)
  | .login entity => inbox.tell (.joined entity)
  | .syncPosition teleport relative id =>
    let pose := relative.apply inbox.pose teleport
    { inbox with pose }.tell (.teleport pose id)
  | .setHealth health food saturation => inbox.tell (.health health food saturation)
  | .combatDeath message => inbox.tell (.death message)
  | .disconnect reason => inbox.tell (.disconnected reason)
  | .chat line => inbox.tell (.chat line)
  | .other _ => inbox.ignore

def receive (frame : List UInt8) (inbox : Inbox) : Effect := match inbox.phase with
  | .configuration => match Packet.Configuration.read.run frame with
    | .ok packet => inbox.configure packet
    | .error _ => inbox.ignore
  | .play => match Packet.Play.read.run frame with
    | .ok packet => inbox.play packet
    | .error _ => inbox.ignore

/-- How the reading stands after something has come in. -/
inductive Progress where
  | waiting (inbox : Inbox) (line : Line)
  | heard (e : Event) (inbox : Inbox) (line : Line)
  /-- Nothing more is read. -/
  | over (reason : String) (line : Line)

/-- Takes in what has come. -/
def step (a : Frame.Arrival) (inbox : Inbox) (line : Line) : Progress := match a with
  | .error e => .over e.message line
  | .ok body => match Wire.Frame.open? line.compressed body with
    | none => .waiting inbox line
    | some (.error e) => .over e.message line
    | some (.ok frame) =>
      let effect := inbox.receive frame
      match line.sendAll effect.reply.toList with
      | (some e, line) => .over e.message line
      | (none, line) => match effect.event with
        | none => .waiting effect.inbox line
        | some (.disconnected reason) => .over reason line
        | some e => .heard e effect.inbox line

/-- Said when the stream just ends. -/
def endOfStream : String := "connection closed by server"

/-- What has been read: the events, why there are no more if that is so, and this side's line
after the answers. -/
structure Reading where
  events : List Event
  reason : Option String
  line : Line

namespace Reading

/-- The events of a stream that has ended. -/
def all (r : Reading) : List Event := r.events ++ [.disconnected (r.reason.getD endOfStream)]

/-- The events of a stream that may go on. -/
def soFar (r : Reading) : List Event := r.events ++ (r.reason.map Event.disconnected).toList

end Reading

/-- Reads all that comes in. -/
def read : List Frame.Arrival → Inbox → Line → Reading
  | [], _, line => ⟨[], none, line⟩
  | a :: rest, inbox, line => match step a inbox line with
    | .waiting inbox line => read rest inbox line
    | .heard e inbox line =>
      let r := read rest inbox line
      { r with events := e :: r.events }
    | .over reason line => ⟨[], some reason, line⟩

end Inbox

end Pickaxe.Client
