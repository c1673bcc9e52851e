import Pickaxe.Client.Line
import Pickaxe.Negotiation.Trial
import Pickaxe.Packet.Login

/-! The login exchange. This side opens with a handshake and a name and then answers the
server's questions, until one packet decides: the server lets it in, or not. -/
namespace Pickaxe.Client.Login

open Negotiation (ConnectError)
open Packet (Version)
open Packet.Login (Received)
open Server (Endpoint)
open Wire (Frame.Arrival TransportError)

/-- A server without accounts makes the id from the name and ignores this one. -/
def offlineId : BitVec 128 := 0

def opening (endpoint : Endpoint) (version : Version) (username : String) : List (List UInt8) :=
  [Packet.handshake version endpoint.host endpoint.port .login,
    Packet.Login.start username offlineId]

def transportFailure : TransportError → ConnectError
  | .connectTimeout _ => .timeout
  | e => .connection e.message

/-- Tells a wrong version from another refusal, by the server's words. -/
def refusal (reason : String) : ConnectError :=
  let lowered := Text.lower reason
  if Text.mentions lowered "outdated" || Text.mentions lowered "incompatible" then
    .incompatibleVersion reason
  else .rejected reason

/-- What a packet of the server calls for. -/
inductive Reaction where
  /-- Go on, with this answer. -/
  | reply (frame : List UInt8)
  | setCompression (threshold : Int32)
  | ignore
  /-- The server lets this side in, which has to say that it has seen it. -/
  | accept (frame : List UInt8)
  | refuse (e : ConnectError)

def react : Received → Reaction
  | .setCompression threshold => .setCompression threshold
  | .success _ _ => .accept Packet.Login.acknowledged
  | .disconnect reason => .refuse (refusal reason)
  | .encryptionRequest => .refuse (.rejected "server requires online-mode authentication")
  | .pluginRequest id _ => .reply (Packet.Login.pluginResponse id)
  | .cookieRequest key => .reply (Packet.Login.cookieResponse key)
  | .other _ => .ignore

/-- What a frame calls for. -/
def reactTo (frame : List UInt8) : Reaction := match Packet.Login.read.run frame with
  | .ok packet => react packet
  | .error e => .refuse (.protocol e.message)

/-- How a login stands after something has come in. -/
inductive Progress where
  | waiting (line : Line)
  | over (result : Except ConnectError Unit) (line : Line)

/-- Sends an answer and goes on from there. -/
def afterSending (answer : List UInt8) (next : Line → Progress) (line : Line) : Progress :=
  match line.send answer with
  | .ok line => next line
  | .error e => .over (.error (transportFailure e)) line

/-- Takes in what has come. -/
def step (a : Frame.Arrival) (line : Line) : Progress := match a with
  | .error e => .over (.error (transportFailure e)) line
  | .ok body => match Wire.Frame.open? line.compressed body with
    | none => .waiting line
    | some (.error e) => .over (.error (transportFailure e)) line
    | some (.ok frame) => match reactTo frame with
      | .ignore => .waiting line
      | .setCompression threshold => .waiting (line.setCompression threshold)
      | .reply answer => afterSending answer .waiting line
      | .accept answer => afterSending answer (.over (.ok ())) line
      | .refuse e => .over (.error e) line

/-- The stream has ended before the login was over. -/
def endOfStream : ConnectError := .connection "server closed the connection during login"

/-- The result of a login, what still comes in after it, and this side's line. -/
structure Outcome where
  result : Except ConnectError Unit
  inbound : List Frame.Arrival
  line : Line

/-- The exchange over what comes in, after the opening. -/
def exchange : List Frame.Arrival → Line → Outcome
  | [], line => ⟨.error endOfStream, [], line⟩
  | a :: rest, line => match step a line with
    | .waiting line => exchange rest line
    | .over result line => ⟨result, rest, line⟩

/-- A whole login on a connection that is open. -/
def run (endpoint : Endpoint) (version : Version) (username : String)
    (inbound : List Frame.Arrival) : Outcome :=
  match Line.fresh.sendAll (opening endpoint version username) with
  | (some e, line) => ⟨.error (transportFailure e), inbound, line⟩
  | (none, line) => exchange inbound line

/-- Whether an exchange is still undecided when all of this has come in. -/
def undecided : List Frame.Arrival → Line → Bool
  | [], _ => true
  | a :: rest, line => match step a line with
    | .waiting line => undecided rest line
    | .over _ _ => false

/-- Whether a login waits for more than this. -/
def waits (endpoint : Endpoint) (version : Version) (username : String)
    (inbound : List Frame.Arrival) : Bool :=
  match Line.fresh.sendAll (opening endpoint version username) with
  | (some _, _) => false
  | (none, line) => undecided inbound line

end Pickaxe.Client.Login
