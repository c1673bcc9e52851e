import Mathlib.Data.List.Basic
import Mathlib.Data.List.Induction
import Pickaxe.Client.Line
import Pickaxe.Packet.Configuration
import Pickaxe.Packet.Login
import Pickaxe.Proofs.Client.Line
import Pickaxe.Proofs.Packet.Reading

/-! What a client hears, and what it says to that.

Frames come out of the bodies that come in, and the frames that have come out so far can change how the
next body is laid out (`Heard`). Something ends this at last (`exists_end`). What is said to a frame depends
on the frames before it as well (`inTurn`). All answers are short: most of them carry a number or none
(`length_numbers_lt`), and the longest gives a key back (`length_cookieResponse_lt`). -/
namespace Pickaxe

namespace Client

open Wire (Frame.Arrival Frame.layOut Frame.open?)

/-! ### Frames that come out -/

/-- The frames that come out of what has come in. The frames so far say whether the next body is in the
compressed layout, and a body that is compressed is passed over. -/
inductive Heard (compressed : List (List UInt8) → Bool) :
    List Frame.Arrival → List (List UInt8) → Prop where
  | nil : Heard compressed [] []
  | passed {inbound : List Frame.Arrival} {frames : List (List UInt8)} {body : List UInt8}
      (h : Heard compressed inbound frames) (hbody : Frame.open? (compressed frames) body = none) :
      Heard compressed (inbound ++ [.ok body]) frames
  | frame {inbound : List Frame.Arrival} {frames : List (List UInt8)} {body frame : List UInt8}
      (h : Heard compressed inbound frames)
      (hbody : Frame.open? (compressed frames) body = some (.ok frame)) :
      Heard compressed (inbound ++ [.ok body]) (frames ++ [frame])

/-- If each thing that comes in either ends the hearing or lets it go on, something ends it, if only the end
of the stream. -/
theorem exists_end {GoesOn : List Frame.Arrival → List (List UInt8) → Prop}
    {Ends : List (List UInt8) → List Frame.Arrival → Prop} (hnil : ∀ frames, Ends frames [])
    (hnext : ∀ {before frames} a rest, GoesOn before frames →
      Ends frames (a :: rest) ∨ ∃ frames, GoesOn (before ++ [a]) frames)
    {before : List Frame.Arrival} {frames : List (List UInt8)} (h : GoesOn before frames)
    (rest : List Frame.Arrival) :
    ∃ heard left frames, before ++ rest = heard ++ left ∧ GoesOn heard frames ∧ Ends frames left := by
  induction rest generalizing before frames with
  | nil => exact ⟨before, [], frames, rfl, h, hnil frames⟩
  | cons a rest ih =>
    rcases hnext a rest h with hend | ⟨frames, hmore⟩
    · exact ⟨before, a :: rest, frames, rfl, h, hend⟩
    · obtain ⟨heard, left, frames, hsplit, hleft⟩ := ih hmore
      exact ⟨heard, left, frames, by rw [← hsplit, List.append_assoc]; rfl, hleft⟩

/-! ### What each calls for -/

section InTurn

variable {α β : Type}

/-- What each item calls for, given the items before it. -/
def inTurn (f : List α → α → Option β) (items : List α) : List β :=
  items.zipIdx.filterMap fun (a, i) => f (items.take i) a

theorem inTurn_concat (f : List α → α → Option β) (items : List α) (a : α) :
    inTurn f (items ++ [a]) = inTurn f items ++ (f items a).toList := by
  have hbefore : items.zipIdx.filterMap (fun (b, i) => f ((items ++ [a]).take i) b) =
      inTurn f items := by
    refine List.filterMap_congr fun (b, i) hmem => ?_
    have hi : i ≤ items.length := Nat.le_of_lt (List.snd_lt_of_mem_zipIdx hmem)
    exact congrArg (f · b) (List.take_append_of_le_length hi)
  rw [inTurn, List.zipIdx_append, List.filterMap_append, hbefore, Nat.zero_add]
  cases hlast : f items a <;> simp [hlast]

/-- Whatever is called for, one of the items calls for it. -/
theorem exists_of_mem_inTurn {f : List α → α → Option β} {items : List α} {b : β} (h : b ∈ inTurn f items) :
    ∃ before a, f before a = some b := by
  obtain ⟨⟨a, i⟩, -, hb⟩ := List.mem_filterMap.mp h
  exact ⟨items.take i, a, hb⟩

end InTurn

end Client

/-! ### The length of an answer -/

namespace Client.Line

open Wire

variable {l : Line} {frame : List UInt8}

/-- A frame that leaves room for one more byte can be sent in either layout. -/
theorem sizeOf_le (l : Line) (h : frame.length < Frame.maxSize) : l.sizeOf frame ≤ Frame.maxSize := by
  rw [sizeOf]
  split <;> omega

theorem send_of_short (hopen : l.closed = false) (h : frame.length < Frame.maxSize) :
    l.send frame = .ok { l with log := Frame.layOut l.compressed frame :: l.log } :=
  send_of_le hopen (l.sizeOf_le h)

theorem sent_cons (l : Line) (body : List UInt8) :
    ({ l with log := body :: l.log } : Line).sent = l.sent ++ [body] := List.reverse_cons

end Client.Line

namespace Wire

/-- Any field but texts and bytes. -/
def Field.IsNumber : Field → Prop
  | .text _ | .bytes _ => False
  | _ => True

theorem Field.IsNumber.length_le {field : Field} (h : field.IsNumber) : field.encode.length ≤ 16 := by
  cases field with
  | u8 | bool => exact Nat.succ_le_succ (Nat.zero_le 15)
  | u16 | i32 | i64 | uuid | position =>
    exact Nat.le_trans (Nat.le_of_eq (length_bigEndianBytes ..)) (by decide)
  | varint v => exact Nat.le_trans (Varint.length_encode_le v) (by decide)
  | text | bytes => exact h.elim

theorem length_numbers_le {fields : List Field} (h : ∀ field ∈ fields, field.IsNumber) :
    (fields.flatMap Field.encode).length ≤ fields.length * 16 := by
  induction fields with
  | nil => exact Nat.le_refl _
  | cons field fields ih =>
    obtain ⟨hfield, hfields⟩ := List.forall_mem_cons.mp h
    rw [List.flatMap_cons, List.length_append, List.length_cons, Nat.succ_mul, Nat.add_comm]
    exact Nat.add_le_add (ih hfields) hfield.length_le

theorem length_packet_lt {id : Int32} {fields : List Field} {n : Nat}
    (h : (fields.flatMap Field.encode).length ≤ n) (hn : 5 + n < Frame.maxSize) :
    (packet id fields).length < Frame.maxSize := by
  have hid : (Varint.encode id).length ≤ 5 := Varint.length_encode_le id
  rw [packet, List.length_append]
  omega

end Wire

namespace Packet

open Wire

/-- A packet of a few numbers can be sent. -/
theorem length_numbers_lt (id : Int32) {fields : List Field} (h : ∀ field ∈ fields, field.IsNumber)
    (hfew : fields.length ≤ 2) : (packet id fields).length < Frame.maxSize := by
  refine length_packet_lt (length_numbers_le h) ?_
  rw [Frame.maxSize]
  omega

/-- A key that was read can be given back. -/
theorem length_cookieResponse_lt (id : Int32) {key : String}
    (h : (Text.Utf8.encode key).length ≤ maxText * 4) :
    (packet id [.text key, .bool false]).length < Frame.maxSize := by
  refine length_packet_lt (n := 5 + maxText * 4 + 1) ?_ (by decide)
  have hlength : (Varint.encode (Int32.ofNat key.utf8ByteSize)).length ≤ 5 := Varint.length_encode_le _
  simp only [List.flatMap_cons, List.flatMap_nil, Field.encode, List.length_append, List.length_cons,
    List.length_nil]
  omega

end Packet

end Pickaxe
