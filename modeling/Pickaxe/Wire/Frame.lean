import Pickaxe.Wire.Transport
import Pickaxe.Wire.Varint

/-! Frames: a stream of bytes is cut into bodies, each behind its length. Once compression is
on, a body starts with the size of its data before compression, or with zero where it is not
compressed. Compressed bodies are not read here, and none is written. -/
namespace Pickaxe.Wire.Frame

/-- The largest body. Its length takes three bytes. -/
def maxSize : Nat := 2097151

/-- A frame's body in the layout of the connection. -/
def layOut (compressed : Bool) (frame : List UInt8) : List UInt8 :=
  if compressed then Varint.encode 0 ++ frame else frame

/-- A body behind its length. -/
def written (body : List UInt8) : List UInt8 := Varint.encode (Int32.ofNat body.length) ++ body

/-- The body to send for a frame, unless it is too large. -/
def body (compressed : Bool) (frame : List UInt8) : Except TransportError (List UInt8) :=
  let body := layOut compressed frame
  if body.length ≤ maxSize then .ok body else .error (.frameTooLarge body.length)

/-- A body that has come in, or what went wrong in its place. -/
abbrev Arrival := Except TransportError (List UInt8)

/-- The first body of a stream, and the stream after it. A stream that has ended has none. After
an error the stream goes on behind the bytes that were looked at. -/
def first? (stream : List UInt8) : Option (Arrival × List UInt8) :=
  if stream = [] then none
  else match Varint.decode stream with
    | .incomplete => some (.error (.connectionClosed "eof inside frame header"), [])
    | .tooLong =>
      some (.error (.malformedFrame "frame length prefix too long"),
        stream.drop Varint.maxSize)
    | .complete length used =>
      let rest := stream.drop used
      if length < 0 then some (.error (.malformedFrame "negative frame length"), rest)
      else if length.toInt.toNat > maxSize then
        some (.error (.frameTooLarge length.toInt.toNat), rest)
      else if rest.length < length.toInt.toNat then
        some (.error (.connectionClosed "eof inside frame"), [])
      else some (.ok (rest.take length.toInt.toNat), rest.drop length.toInt.toNat)

theorem length_lt_of_first? {stream rest : List UInt8} {a : Arrival}
    (h : first? stream = some (a, rest)) : rest.length < stream.length := by
  unfold first? at h
  split at h
  · cases h
  · rename_i hne
    have hpos : 0 < stream.length := List.length_pos_iff.2 hne
    split at h
    · cases h; exact hpos
    · cases h
      simp only [List.length_drop, Varint.maxSize]
      omega
    · rename_i length used hd
      have hused : 0 < used := by
        simp only [Varint.decode] at hd
        split at hd
        · cases hd
        · split at hd
          · cases hd
          · cases hd; omega
      simp only at h
      repeat' split at h
      all_goals
        cases h
        simp only [List.length_drop, List.length_nil]
        omega

/-- All that comes in over a stream. -/
def arrivals (stream : List UInt8) : List Arrival := match _h : first? stream with
  | none => []
  | some (a, rest) => a :: arrivals rest
termination_by stream.length
decreasing_by exact length_lt_of_first? ‹_›

/-- Whether the first body of a stream, or what is wrong with it, can be told from its bytes so
far. -/
def isReady (stream : List UInt8) : Bool := match first? stream with
  | none | some (.error (.connectionClosed _), _) => false
  | some _ => true

/-- The frame in a body: none if it is compressed. -/
def open? (compressed : Bool) (body : List UInt8) : Option Arrival :=
  if !compressed then some (.ok body)
  else match Varint.decode body with
    | .complete size used => if size = 0 then some (.ok (body.drop used)) else none
    | _ => some (.error (.malformedFrame "bad data length in compressed frame"))

/-- The next frame, and what comes in after it. -/
def next (compressed : Bool) : List Arrival → Option Arrival × List Arrival
  | [] => (none, [])
  | .error e :: rest => (some (.error e), rest)
  | .ok body :: rest => match open? compressed body with
    | some a => (some a, rest)
    | none => next compressed rest

end Pickaxe.Wire.Frame
