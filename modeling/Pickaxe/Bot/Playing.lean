import Pickaxe.Bot.Config
import Pickaxe.Client.Inbox
import Pickaxe.Client.Outbox

/-! The bot at play, one thing at a time: what comes in is read, the session goes on for a while, and what
it sends goes out. -/
namespace Pickaxe.Bot

open Client (Inbox Line Outbox)
open Wire (Frame.Arrival TransportError)
open World (Action)

structure Playing where
  inbox : Inbox
  outbox : Outbox
  session : Play.Session

namespace Playing

/-- Behind a login. -/
def start (config : Config) (line : Line) : Playing where
  inbox := .start
  outbox := .start line
  session := .new config.session (.new 0 []) none

def setLine (line : Line) (p : Playing) : Playing := { p with outbox := { p.outbox with line } }

/-- Takes in what has come, `none` being the end of the stream. -/
def hear (arrival : Option Frame.Arrival) (p : Playing) : Playing :=
  let progress : Inbox.Progress := match arrival with
    | none => .over Inbox.endOfStream p.outbox.line
    | some a => p.inbox.step a p.outbox.line
  match progress with
  | .waiting inbox line => { p with inbox }.setLine line
  | .heard e inbox line => { p with inbox, session := (p.session.deliver e).2 }.setLine line
  | .over reason line =>
    { p with session := (p.session.deliver (.disconnected reason)).2.endStream }.setLine line

/-- Takes in what comes, as long as there is anything to be read. -/
def hearAll : List Frame.Arrival → Playing → Playing
  | [], p => p
  | a :: rest, p => if p.session.streamEnded then p else hearAll rest (p.hear (some a))

/-- An interrupt comes now. Only the first one counts. -/
def interrupt (now : Instant) (p : Playing) : Playing :=
  { p with session := { p.session with interrupt := p.session.interrupt.or (some now) } }

/-- Lets the session go on until then. The actions that it sends are left to be said. -/
def goOn (now : Instant) (p : Playing) : List Action × Playing :=
  let (actions, session) := (p.session.runTo now).harvest
  (actions, { p with session })

/-- Says one of the actions, at a time in milliseconds since 1970 and with a salt. -/
def say (timestamp salt : Int64) (action : Action) (p : Playing) : Playing :=
  { p with outbox := (p.outbox.send timestamp salt action).2 }

/-- What was said is on the wire, or lost if that has failed. -/
def transmitted (sent : Except TransportError Line) (p : Playing) : Playing :=
  p.setLine (sent.toOption.getD p.outbox.line.flushed)

/-- Why it is over. -/
def ended? (p : Playing) : Option Play.End := match p.session.stage with
  | .closed e _ => some e
  | _ => none

end Playing

end Pickaxe.Bot
