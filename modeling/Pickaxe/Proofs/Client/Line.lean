import Pickaxe.Client.Line
import Pickaxe.Proofs.Wire.Frame

/-! What is sent over a line, and what comes out at its other end.

A line refuses a frame by its size alone (`send_of_lt`, `send_of_le`), and what it has accepted goes out
frame by frame in the layout of the connection (`sent_of_sendAll`). `frames_travel` says what the other
end receives of it, also when the line breaks in the middle. -/
namespace Pickaxe.Client.Line

open Wire (Frame.written Frame.layOut Frame.onWire Frame.arrivals Frame.received)

variable {l after : Line} {frame : List UInt8} {frames : List (List UInt8)}

/-- The size of a frame in the layout of the connection. -/
def sizeOf (l : Line) (frame : List UInt8) : Nat := frame.length + if l.compressed then 1 else 0

theorem length_layOut (l : Line) (frame : List UInt8) :
    (Frame.layOut l.compressed frame).length = l.sizeOf frame := by
  rw [sizeOf, Frame.layOut]
  cases l.compressed with
  | false => rfl
  | true =>
    have hzero : (Wire.Varint.encode 0).length = 1 :=
      congrArg List.length (Wire.Varint.groups_of_lt (n := 0) (by decide))
    rw [if_pos rfl, if_pos rfl, List.length_append, hzero, Nat.add_comm]

theorem send_of_lt (h : Wire.Frame.maxSize < l.sizeOf frame) :
    l.send frame = .error (.frameTooLarge (l.sizeOf frame)) := by
  rw [send, Wire.Frame.body, length_layOut, if_neg (Nat.not_le.mpr h)]

theorem send_of_le (hopen : l.closed = false) (h : l.sizeOf frame ≤ Wire.Frame.maxSize) :
    l.send frame = .ok { l with log := Frame.layOut l.compressed frame :: l.log } := by
  simp only [send, Wire.Frame.body, length_layOut, if_pos h, hopen]
  rfl

theorem send_of_closed (hclosed : l.closed = true) (h : l.sizeOf frame ≤ Wire.Frame.maxSize) :
    l.send frame = .error (.sendFailed "Broken pipe (os error 32)") := by
  simp only [send, Wire.Frame.body, length_layOut, if_pos h, hclosed]
  rfl

/-- A frame can be sent or not, whatever has been sent before. -/
theorem send_cases (frame : List UInt8) (l : Line) :
    (∃ e, ∀ log, send frame { l with log } = .error e) ∨
      ∃ body, ∀ log, send frame { l with log } = .ok { l with log := body :: log } := by
  rcases Nat.lt_or_ge Wire.Frame.maxSize (l.sizeOf frame) with hlarge | hsmall
  · exact .inl ⟨.frameTooLarge (l.sizeOf frame), fun log => send_of_lt (l := { l with log }) hlarge⟩
  rcases Bool.eq_false_or_eq_true l.closed with hclosed | hopen
  · exact .inl ⟨_, fun log => send_of_closed (l := { l with log }) hclosed hsmall⟩
  · exact .inr ⟨Frame.layOut l.compressed frame, fun log => send_of_le (l := { l with log }) hopen hsmall⟩

/-- Frames that are all small enough go out together. -/
theorem sendAll_of_le (hopen : l.closed = false) (h : ∀ frame ∈ frames, l.sizeOf frame ≤ Wire.Frame.maxSize) :
    sendAll frames l =
      (none, { l with log := (frames.map (Frame.layOut l.compressed)).reverse ++ l.log }) := by
  induction frames generalizing l with
  | nil => rfl
  | cons frame frames ih =>
    obtain ⟨hframe, hframes⟩ := List.forall_mem_cons.mp h
    rw [sendAll, send_of_le hopen hframe]
    have hrest := ih (l := { l with log := Frame.layOut l.compressed frame :: l.log }) hopen hframes
    simpa [compressed] using hrest

/-- **What was accepted goes out**, frame by frame. -/
theorem sent_of_sendAll (hopen : l.closed = false) (h : sendAll frames l = (none, after)) :
    (∀ frame ∈ frames, l.sizeOf frame ≤ Wire.Frame.maxSize) ∧
      after.sent = l.sent ++ frames.map (Frame.layOut l.compressed) := by
  induction frames generalizing l with
  | nil =>
    cases h
    exact ⟨List.forall_mem_nil _, (List.append_nil _).symm⟩
  | cons frame frames ih =>
    rcases Nat.lt_or_ge Wire.Frame.maxSize (l.sizeOf frame) with hlarge | hsmall
    · rw [sendAll, send_of_lt hlarge] at h
      cases h
    · rw [sendAll, send_of_le hopen hsmall] at h
      obtain ⟨hsizes, hsent⟩ := ih (l := { l with log := _ :: l.log }) hopen h
      refine ⟨List.forall_mem_cons.mpr ⟨hsmall, hsizes⟩, ?_⟩
      rw [hsent, sent, List.reverse_cons, List.append_assoc]
      rfl

/-- **Frames travel.** In either layout of the connection:

* A frame of more than 2097151 bytes, with the one that the compressed layout puts in front, is refused
  and nothing of it is written. Every other frame is accepted.
* Every frame that is accepted is written behind at most three bytes of length.
* The other end receives the frames that were accepted, in their order, and then the end of the stream.
* If the stream is cut anywhere, it receives the frames that lie before the cut, and then the end of the
  stream if the cut is between two frames, and an error if it is inside one. -/
theorem frames_travel (threshold : Int32) :
    let fresh := Line.fresh.setCompression threshold
    let onWire := Frame.onWire fresh.compressed
    let receive := Frame.received fresh.compressed
    (∀ l : Line, l.closed = false → ∀ frame,
      let size := frame.length + if l.compressed then 1 else 0
      (2097151 < size → sendAll [frame] l = (some (.frameTooLarge size), l)) ∧
      (size ≤ 2097151 → ∃ after, sendAll [frame] l = (none, after))) ∧
    ∀ frames line, sendAll frames fresh = (none, line) →
      (∀ body ∈ line.sent, ∃ header, Frame.written body = header ++ body ∧ header.length ≤ 3) ∧
      (∀ more, receive (frames.length + more) (Frame.arrivals line.bytes) =
        frames.map (some <| .ok ·) ++ List.replicate more none) ∧
      ∀ cut < line.bytes.length, ∃ whole broken rest, frames = whole ++ broken :: rest ∧
        let start := (whole.flatMap onWire).length
        let come := Frame.arrivals (line.bytes.take cut)
        start ≤ cut ∧ cut < start + (onWire broken).length ∧
          (start = cut → ∀ more, receive (whole.length + more) come =
            whole.map (some <| .ok ·) ++ List.replicate more none) ∧
          (start < cut → ∃ detail, ∀ more, receive (whole.length + (more + 1)) come =
            whole.map (some <| .ok ·) ++
              some (.error (.connectionClosed detail)) :: List.replicate more none) := by
  intro fresh onWire receive
  refine ⟨fun l hopen frame => ⟨fun hlarge => ?_, fun hsmall => ?_⟩, fun frames line h => ?_⟩
  · rw [sendAll, send_of_lt (l := l) hlarge]
    rfl
  · exact ⟨_, by rw [sendAll, send_of_le hopen (l := l) hsmall]; rfl⟩
  obtain ⟨hsizes, hsent⟩ := sent_of_sendAll (l := fresh) rfl h
  have hlaid : ∀ frame ∈ frames, (Frame.layOut fresh.compressed frame).length ≤ Wire.Frame.maxSize :=
    fun frame hframe => Nat.le_trans (Nat.le_of_eq (fresh.length_layOut frame)) (hsizes frame hframe)
  have hbytes : line.bytes = frames.flatMap onWire := by
    rw [bytes, hsent]
    exact List.flatMap_map ..
  refine ⟨fun body hbody => ?_, fun more => ?_, fun cut hcut => ?_⟩
  · rw [hsent] at hbody
    exact ⟨_, rfl, Wire.Frame.length_header_le (Wire.Frame.forall_mem_layOut hlaid body hbody)⟩
  · rw [hbytes]
    exact Wire.Frame.received_onWire hlaid more
  · rw [hbytes] at hcut ⊢
    obtain ⟨whole, broken, rest, rfl, hstart, hend⟩ := Wire.Frame.exists_piece onWire hcut
    exact ⟨whole, broken, rest, rfl, hstart, hend, Wire.Frame.received_cut hlaid hstart hend⟩

/-- Two frames in the compressed layout, and a stream that breaks behind the length of the second. -/
theorem frames_travel_broken :
    let frames := [[1, 2, 3], [7]]
    let sent := sendAll frames (Line.fresh.setCompression 256)
    sent.1 = none ∧ sent.2.bytes = [4, 0, 1, 2, 3, 2, 0, 7] ∧
      Frame.received true 3 (Frame.arrivals sent.2.bytes) =
        [some (.ok [1, 2, 3]), some (.ok [7]), none] ∧
      ∃ detail, Frame.received true 3 (Frame.arrivals (sent.2.bytes.take 6)) =
        [some (.ok [1, 2, 3]), some (.error (.connectionClosed detail)), none] := by
  intro frames sent
  have hzero : Wire.Varint.encode 0 = [0] := Wire.Varint.groups_of_lt (n := 0) (by decide)
  have htwo : Wire.Varint.encode 2 = [2] := Wire.Varint.groups_of_lt (n := 2) (by decide)
  have hfour : Wire.Varint.encode 4 = [4] := Wire.Varint.groups_of_lt (n := 4) (by decide)
  have hsent : sent.1 = none := by
    simp [sent, frames, sendAll, send, setCompression, compressed, Wire.Frame.body, Frame.layOut,
      hzero, Wire.Frame.maxSize, Line.fresh]
  have hbytes : sent.2.bytes = [4, 0, 1, 2, 3, 2, 0, 7] := by
    simp [sent, frames, sendAll, send, setCompression, compressed, Wire.Frame.body, Frame.layOut,
      hzero, htwo, hfour, Wire.Frame.maxSize, Line.fresh, bytes, Line.sent, Frame.written]
  obtain ⟨-, hall, hcut⟩ := (frames_travel 256).2 frames sent.2 (Prod.ext hsent rfl)
  refine ⟨hsent, hbytes, hall 1, ?_⟩
  obtain ⟨whole, broken, rest, hframes, hstart, hend, -, hinside⟩ := hcut 6 (by rw [hbytes]; decide)
  have hfirst : (Frame.onWire true [1, 2, 3]).length = 5 := by
    simp [Frame.onWire, Frame.written, Frame.layOut, hzero, hfour]
  have hsecond : (Frame.onWire true [7]).length = 3 := by
    simp [Frame.onWire, Frame.written, Frame.layOut, hzero, htwo]
  obtain _ | ⟨first, _ | ⟨second, whole⟩⟩ := whole
  · injection hframes with hbroken
    rw [← hbroken] at hend
    exact absurd (Nat.lt_of_lt_of_eq hend (congrArg (0 + ·) hfirst)) (by decide)
  · injection hframes with hwhole
    rw [← hwhole, List.flatMap_singleton] at hinside
    obtain ⟨detail, hbroken⟩ := hinside (Nat.lt_of_le_of_lt (Nat.le_of_eq hfirst) (by decide))
    exact ⟨detail, hbroken 1⟩
  · injection hframes with _ hrest
    injection hrest with _ hnone
    cases whole <;> cases hnone

end Pickaxe.Client.Line
