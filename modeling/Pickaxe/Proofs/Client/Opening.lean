import Pickaxe.Client.Inbox
import Pickaxe.Client.Login
import Pickaxe.Client.Outbox
import Pickaxe.Client.StatusPing
import Pickaxe.Proofs.Client.Line
import Pickaxe.Proofs.Wire.Reader

/-! What a connection opens with.

A line takes nothing back: whatever is sent, and however the layout changes, it goes on behind what has been
sent before (`Line.Grows`). The first thing that a status ping and a login send is a handshake, so this is
what the server reads first (`StatusPing.run_opens`, `Login.run_opens`), and it finds the version in it
(`Packet.announced?_handshake`). -/
namespace Pickaxe

open Packet (Version)
open Server (Endpoint)

/-! ### The version in a handshake -/

namespace Packet

/-- How a server reads the first frame of a connection: the number of the packet, and the version. -/
def announcement : Wire.Reader (Int32 × Version) := do
  return (← Wire.Reader.varint, ← Wire.Reader.varint)

/-- The version that a server reads in the first frame of a connection. -/
def announced? (frame : List UInt8) : Option Version := match announcement.run frame with
  | .ok (0x00, version) => some version
  | _ => none

theorem announced?_handshake (version : Version) (host : String) (port : UInt16) (intent : Intent) :
    announced? (handshake version host port intent) = some version := by
  have hvarint (v : Int32) : Wire.Reader.varint.Reads (Wire.Varint.encode v) v :=
    Wire.Reader.takes_varint.reads (Wire.Reader.decode_encode_self v)
  have hread : announcement.run (handshake version host port intent) = .ok (0x00, version) := by
    rw [handshake, Wire.packet, List.flatMap_cons, Wire.Field.encode, announcement,
      (hvarint 0x00).run_bind, (hvarint version).run_bind]
    rfl
  rw [announced?, hread]
  rfl

end Packet

namespace Client

/-! ### Lines only grow -/

namespace Line

/-- What has been sent over the one line has been sent over the other, and first. -/
def Grows (l after : Line) : Prop := l.sent <+: after.sent

variable {l after last : Line}

theorem Grows.refl (l : Line) : l.Grows l := List.prefix_rfl

theorem Grows.trans (h : l.Grows after) (hrest : after.Grows last) : l.Grows last :=
  List.IsPrefix.trans h hrest

theorem grows_setCompression (l : Line) (threshold : Int32) : l.Grows (l.setCompression threshold) := .refl l

theorem grows_close (l : Line) : l.Grows l.close := .refl l

theorem grows_of_send {frame : List UInt8} (h : l.send frame = .ok after) : l.Grows after := by
  unfold send at h
  split at h
  · cases h
  · split at h
    · cases h
    · cases h
      exact ⟨[_], List.reverse_cons.symm⟩

theorem grows_sendAll (frames : List (List UInt8)) (l : Line) : l.Grows (l.sendAll frames).2 := by
  induction frames generalizing l with
  | nil => exact .refl l
  | cons frame frames ih =>
    rw [sendAll]
    cases hsend : l.send frame with
    | error => exact .refl l
    | ok after => exact (grows_of_send hsend).trans (ih after)

/-- The first thing that is sent over the line is this frame, in the plain layout, or nothing is sent since
it is too large. -/
def OpensWith (frame : List UInt8) (l : Line) : Prop :=
  [frame] <+: l.sent ∨ (Wire.Frame.maxSize < frame.length ∧ l.sent = [])

theorem sendAll_of_large {frame : List UInt8} (frames : List (List UInt8))
    (h : Wire.Frame.maxSize < frame.length) :
    fresh.sendAll (frame :: frames) = (some (.frameTooLarge frame.length), fresh) := by
  rw [sendAll, send_of_lt (l := fresh) h]
  rfl

theorem sendAll_of_fit {frame : List UInt8} (frames : List (List UInt8))
    (h : frame.length ≤ Wire.Frame.maxSize) :
    [frame] <+: (fresh.sendAll (frame :: frames)).2.sent := by
  have hsend := send_of_le (l := fresh) rfl h
  rw [sendAll, hsend]
  exact grows_sendAll frames { fresh with log := [frame] }

/-- A line opens with the first of some frames if nothing else is sent unless they can all be sent. -/
theorem opensWith_of_sendAll {frame : List UInt8} (frames : List (List UInt8))
    (hfailed : ∀ e line, fresh.sendAll (frame :: frames) = (some e, line) → after = line)
    (hgrows : (fresh.sendAll (frame :: frames)).2.Grows after) : after.OpensWith frame := by
  rcases Nat.lt_or_ge Wire.Frame.maxSize frame.length with hlarge | hfit
  · rw [hfailed _ _ (sendAll_of_large frames hlarge)]
    exact .inr ⟨hlarge, rfl⟩
  · exact .inl ((sendAll_of_fit frames hfit).trans hgrows)

end Line

/-! ### Status pings -/

namespace StatusPing

variable {endpoint : Endpoint} {version : Version} {payload : Int64}

theorem run_grows (endpoint : Endpoint) (version : Version) (payload : Int64)
    (inbound : List Wire.Frame.Arrival) :
    (Line.fresh.sendAll (opening endpoint version)).2.Grows (run endpoint version payload inbound).2 := by
  unfold run
  rcases Line.fresh.sendAll (opening endpoint version) with ⟨_ | e, line⟩
  · cases await inbound with
    | error e => exact .refl line
    | ok document =>
      cases hsend : line.send (Packet.Status.ping payload) with
      | error e =>
        simp only [hsend]
        exact .refl line
      | ok after =>
        simp only [hsend]
        exact (Line.grows_of_send hsend).trans after.grows_close
  · exact .refl line

/-- **A ping opens with a handshake** of its version. -/
theorem run_opens (endpoint : Endpoint) (version : Version) (payload : Int64)
    (inbound : List Wire.Frame.Arrival) :
    (run endpoint version payload inbound).2.OpensWith
      (Packet.handshake version endpoint.host endpoint.port .status) := by
  refine Line.opensWith_of_sendAll [Packet.Status.request] (fun e line h => ?_) (run_grows ..)
  rw [run, opening, h]

end StatusPing

/-! ### Logins -/

namespace Login

/-- The line of an exchange that goes on or has come to its end. -/
def Progress.line : Progress → Line
  | .waiting line | .over _ line => line

theorem step_grows (a : Wire.Frame.Arrival) (line : Line) : line.Grows (step a line).line := by
  have hanswer (answer : List UInt8) (next : Line → Progress) (hnext : ∀ line, (next line).line = line) :
      line.Grows (afterSending answer next line).line := by
    unfold afterSending
    cases hsend : line.send answer with
    | error e => exact .refl line
    | ok after =>
      rw [hnext]
      exact Line.grows_of_send hsend
  unfold step
  cases a with
  | error e => exact .refl line
  | ok body =>
    simp only
    split
    · exact .refl line
    · exact .refl line
    · split
      · exact .refl line
      · exact line.grows_setCompression _
      · exact hanswer _ _ fun _ => rfl
      · exact hanswer _ _ fun _ => rfl
      · exact .refl line

theorem exchange_grows (inbound : List Wire.Frame.Arrival) (line : Line) :
    line.Grows (exchange inbound line).line := by
  induction inbound generalizing line with
  | nil => exact .refl line
  | cons a rest ih =>
    have hstep := step_grows a line
    rw [exchange]
    rcases hcase : step a line with after | ⟨result, after⟩
    · rw [hcase] at hstep
      exact Line.Grows.trans hstep (ih after)
    · rw [hcase] at hstep
      exact hstep

theorem run_grows (endpoint : Endpoint) (version : Version) (username : String)
    (inbound : List Wire.Frame.Arrival) :
    (Line.fresh.sendAll (opening endpoint version username)).2.Grows
      (run endpoint version username inbound).line := by
  unfold run
  rcases Line.fresh.sendAll (opening endpoint version username) with ⟨_ | e, line⟩
  · exact exchange_grows inbound line
  · exact .refl line

/-- **A login opens with a handshake** of its version. -/
theorem run_opens (endpoint : Endpoint) (version : Version) (username : String)
    (inbound : List Wire.Frame.Arrival) :
    (run endpoint version username inbound).line.OpensWith
      (Packet.handshake version endpoint.host endpoint.port .login) := by
  refine Line.opensWith_of_sendAll [Packet.Login.start username offlineId] (fun e line h => ?_)
    (run_grows ..)
  rw [run, opening, h]

/-- Nothing can take the place of the handshake if the login is a success. -/
theorem run_opens_of_ok (endpoint : Endpoint) (version : Version) (username : String)
    (inbound : List Wire.Frame.Arrival) (hok : (run endpoint version username inbound).result = .ok ()) :
    [Packet.handshake version endpoint.host endpoint.port .login] <+:
      (run endpoint version username inbound).line.sent := by
  rcases Nat.lt_or_ge Wire.Frame.maxSize
    (Packet.handshake version endpoint.host endpoint.port .login).length with hlarge | hfit
  · rw [run, opening, Line.sendAll_of_large _ hlarge] at hok
    cases hok
  · exact (Line.sendAll_of_fit _ hfit).trans (run_grows ..)

end Login

/-! ### After the login -/

theorem Outbox.send_grows (timestamp salt : Int64) (action : World.Action) (o : Outbox) :
    o.line.Grows (o.send timestamp salt action).2.line := by
  unfold send
  simp only
  split
  · exact .refl o.line
  · cases hsend : o.line.send _ with
    | error e => exact .refl o.line
    | ok after => exact Line.grows_of_send hsend

namespace Inbox

/-- The line of a reading that goes on or has come to its end. -/
def Progress.line : Progress → Line
  | .waiting _ line | .heard _ _ line | .over _ line => line

theorem step_grows (a : Wire.Frame.Arrival) (inbox : Inbox) (line : Line) :
    line.Grows (step a inbox line).line := by
  unfold step
  cases a with
  | error e => exact .refl line
  | ok body =>
    simp only
    split
    · exact .refl line
    · exact .refl line
    · rename_i frame _
      have hsent := line.grows_sendAll (inbox.receive frame).reply.toList
      generalize line.sendAll (inbox.receive frame).reply.toList = sent at hsent ⊢
      obtain ⟨_ | e, after⟩ := sent
      · cases (inbox.receive frame).event with
        | none => exact hsent
        | some e => cases e <;> exact hsent
      · exact hsent

theorem read_grows (inbound : List Wire.Frame.Arrival) (inbox : Inbox) (line : Line) :
    line.Grows (read inbound inbox line).line := by
  induction inbound generalizing inbox line with
  | nil => exact .refl line
  | cons a rest ih =>
    have hstep := step_grows a inbox line
    rw [read]
    rcases hcase : step a inbox line with ⟨inbox, after⟩ | ⟨e, inbox, after⟩ | ⟨reason, after⟩
    · rw [hcase] at hstep
      exact Line.Grows.trans hstep (ih inbox after)
    · rw [hcase] at hstep
      exact Line.Grows.trans hstep (ih inbox after)
    · rw [hcase] at hstep
      exact hstep

end Inbox

end Client

end Pickaxe
