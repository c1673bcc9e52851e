import Pickaxe.Packet.Configuration
import Pickaxe.Packet.Login
import Pickaxe.Packet.Play
import Pickaxe.Proofs.Wire.Field
import Pickaxe.Proofs.Wire.Frame

/-! What a server finds in all that it is sent apart from actions.

Each of these packets has a number in its state of the protocol (`Spoken.number`), and a layout
(`Spoken.layout`) in which the server reads it. A body conveys such a packet if the server that opens it
finds the number and the fields in it and nothing behind them (`Conveys`), and the body that is written
for a packet conveys it, as long as it can be sent at all (`conveys_body`). -/
namespace Pickaxe.Packet

open Wire

/-- What is said to a server apart from the actions, state by state. -/
inductive Spoken where
  /-- Opens a connection that is there for a login. -/
  | handshake (version : Version) (host : String) (port : UInt16)
  | loginStart (username : String)
  /-- The plugin with the question of this number is not here. -/
  | loginPlugin (id : Int32)
  /-- There is no cookie of this name. -/
  | loginCookie (key : String)
  | loginAcknowledged
  /-- There is no cookie of this name. -/
  | configurationCookie (key : String)
  | configurationFinished
  | configurationAlive (id : Int64)
  | configurationPong (id : Int32)
  /-- None of the server's packs is here. -/
  | configurationPacks
  | playAlive (id : Int64)
  | playPong (id : Int32)
deriving DecidableEq

namespace Spoken

/-- The number of the packet in its state. -/
def number : Spoken → Int32
  | handshake .. => 0x00
  | loginStart _ => 0x00
  | loginPlugin _ => 0x02
  | loginCookie _ => 0x04
  | loginAcknowledged => 0x03
  | configurationCookie _ => 0x01
  | configurationFinished => 0x03
  | configurationAlive _ => 0x04
  | configurationPong _ => 0x05
  | configurationPacks => 0x07
  | playAlive _ => 0x18
  | playPong _ => 0x27

/-- What is in this packet, in its order. No text is longer than a frame. -/
def layout : Spoken → List Want
  | handshake .. => [.varint, .text Frame.maxSize, .u16, .varint]
  | loginStart _ => [.text Frame.maxSize, .uuid]
  | loginPlugin _ => [.varint, .bool]
  | loginCookie _ | configurationCookie _ => [.text Frame.maxSize, .bool]
  | loginAcknowledged | configurationFinished => []
  | configurationAlive _ | playAlive _ => [.i64]
  | configurationPong _ | playPong _ => [.i32]
  | configurationPacks => [.varint]

/-- What is said, in this order. A login is what 2 stands for, a player without an account has no id, and
where there is nothing to give the answer says so. -/
def fields : Spoken → List Field
  | handshake version host port => [.varint version, .text host, .u16 port, .varint 2]
  | loginStart username => [.text username, .uuid 0]
  | loginPlugin id => [.varint id, .bool false]
  | loginCookie key | configurationCookie key => [.text key, .bool false]
  | loginAcknowledged | configurationFinished => []
  | configurationAlive id | playAlive id => [.i64 id]
  | configurationPong id | playPong id => [.i32 id]
  | configurationPacks => [.varint 0]

/-- The frame that is written for it. -/
def frame (p : Spoken) : List UInt8 := packet p.number p.fields

end Spoken

/-- A packet in the layout of the connection that it is sent in. -/
structure Sending where
  compressed : Bool
  packet : Spoken

def Sending.body (s : Sending) : List UInt8 := Frame.layOut s.compressed s.packet.frame

/-- A body conveys a packet: it is what is written for it, and whoever opens the body in the layout of the
connection reads the packet's number and what is said with it, to the last byte. -/
structure Conveys (body : List UInt8) (s : Sending) : Prop where
  written : body = s.body
  read : ∃ frame, Frame.open? s.compressed body = some (.ok frame) ∧
    readPacket s.packet.layout frame = (.ok (s.packet.number, s.packet.fields), [])

variable {p : Spoken} {s : Sending} {sendings : List Sending}

/-- A text takes no more room than the packet that it is in. -/
theorem utf8ByteSize_le_packet (id : Int32) {s : String} {fields : List Field} (h : .text s ∈ fields) :
    s.utf8ByteSize ≤ (packet id fields).length := by
  obtain ⟨before, after, rfl⟩ := List.append_of_mem h
  have hbytes : (Text.Utf8.encode s).length = s.utf8ByteSize := rfl
  simp only [packet, List.flatMap_append, List.flatMap_cons, Field.encode, List.length_append, hbytes]
  omega

namespace Spoken

/-- What is said in a packet that can be sent is what the server asks for. -/
theorem fits_fields (h : p.frame.length ≤ Frame.maxSize) : List.Forall₂ Field.Fits p.fields p.layout := by
  have htext {s : String} (hs : .text s ∈ p.fields) : Field.Fits (.text s) (.text Frame.maxSize) := by
    have hsize : s.utf8ByteSize ≤ Frame.maxSize := Nat.le_trans (utf8ByteSize_le_packet p.number hs) h
    exact .text (Nat.le_trans (Reader.utf8ByteSize_bounds s).1 hsize) (Nat.lt_of_le_of_lt hsize (by decide))
  cases p with
  | handshake version host port =>
    have hhost := htext (s := host) (by simp [fields])
    exact .cons (.varint _) (.cons hhost (.cons (.u16 _) (.cons (.varint _) .nil)))
  | loginStart username => exact .cons (htext List.mem_cons_self) (.cons (.uuid _) .nil)
  | loginPlugin id => exact .cons (.varint _) (.cons (.bool _) .nil)
  | loginCookie key | configurationCookie key =>
    exact .cons (htext List.mem_cons_self) (.cons (.bool _) .nil)
  | loginAcknowledged | configurationFinished => exact .nil
  | configurationAlive id | playAlive id => exact .cons (.i64 _) .nil
  | configurationPong id | playPong id => exact .cons (.i32 _) .nil
  | configurationPacks => exact .cons (.varint _) .nil

/-- Nothing of it is lost on the way, for there are no positions in it. -/
theorem map_held_fields (p : Spoken) : p.fields.map Field.held = p.fields := by cases p <;> rfl

theorem readPacket_frame (h : p.frame.length ≤ Frame.maxSize) :
    readPacket p.layout p.frame = (.ok (p.number, p.fields), []) := by
  have hread := readPacket_packet p.number (fits_fields h) []
  rwa [map_held_fields, List.append_nil] at hread

end Spoken

/-- **What is said arrives**: a server reads it in the body that is written for it. -/
theorem conveys_body (h : s.packet.frame.length ≤ Frame.maxSize) : Conveys s.body s where
  written := rfl
  read := ⟨s.packet.frame, Frame.open?_layOut s.compressed s.packet.frame, Spoken.readPacket_frame h⟩

/-- One packet after another. -/
theorem conveys_map (h : ∀ s ∈ sendings, s.packet.frame.length ≤ Frame.maxSize) :
    List.Forall₂ Conveys (sendings.map Sending.body) sendings := by
  rw [List.forall₂_map_left_iff, List.forall₂_same]
  exact fun s hs => conveys_body (h s hs)

/-- What conveys them is what is written for them. -/
theorem eq_map_body {sent : List (List UInt8)} (h : List.Forall₂ Conveys sent sendings) :
    sent = sendings.map Sending.body := by
  induction h with
  | nil => rfl
  | cons hbody _ ih => rw [hbody.written, ih, List.map_cons]

end Pickaxe.Packet
