import Pickaxe.Client.Line
import Pickaxe.Proofs.Wire.Forms
import Pickaxe.Proofs.Wire.Frame

/-! What is received of a peer that compresses.

A peer may put any form of a length in front of a body, and any form of the size of its data in front of
the data (`Framed`, `Marked`). The bodies come in all the same (`arrivals_framed`), and of the bodies those
are passed over whose size is not zero (`received_marked`), so that compressed frames are lost and nothing
else (`plain_received`). -/
namespace Pickaxe.Wire.Frame

/-! ### What a peer may send -/

/-- A body behind its length, which may be in any form. -/
structure Framed where
  header : List UInt8
  body : List UInt8
  small : body.length ≤ maxSize
  header_spells : Varint.Spells header (Int32.ofNat body.length)

def Framed.bytes (f : Framed) : List UInt8 := f.header ++ f.body

/-- A frame with the size that its data has when it is not compressed, or zero for data that never was.
The size may be in any form. -/
structure Marked extends Framed where
  size : Int32
  mark : List UInt8
  data : List UInt8
  body_eq : body = mark ++ data
  mark_spells : Varint.Spells mark size

/-- A frame that begins with no number at all. -/
def Framed.IsUnmarked (f : Framed) : Prop := ∀ size used, Varint.decode f.body ≠ .complete size used

/-- There are no other frames. -/
theorem Framed.marked_or_unmarked (f : Framed) : (∃ m : Marked, m.toFramed = f) ∨ f.IsUnmarked := by
  by_cases h : f.IsUnmarked
  · exact .inr h
  · simp only [IsUnmarked, not_forall, not_not] at h
    obtain ⟨size, used, hdecode⟩ := h
    exact .inl ⟨⟨f, size, f.body.take used, f.body.drop used, (List.take_append_drop used f.body).symm,
      (Varint.spells_take hdecode).1⟩, rfl⟩

/-! ### The bodies -/

theorem first?_framed (f : Framed) (rest : List UInt8) :
    first? (f.bytes ++ rest) = some (.ok f.body, rest) := by
  have hdecode := f.header_spells.decode_append (f.body ++ rest)
  rw [Framed.bytes, List.append_assoc, first?_of_complete f.small hdecode, List.drop_left, if_neg]
  · rw [List.take_left, List.drop_left]
  · rw [List.length_append]
    exact Nat.not_lt.mpr (Nat.le_add_right _ _)

/-- **What a peer sends comes in**, whatever the form of the lengths. -/
theorem arrivals_framed (frames : List Framed) (rest : List UInt8) :
    arrivals (frames.flatMap Framed.bytes ++ rest) = frames.map (.ok ·.body) ++ arrivals rest := by
  induction frames with
  | nil => rfl
  | cons f frames ih =>
    rw [List.flatMap_cons, List.append_assoc, arrivals_of_first? (first?_framed f _), ih]
    rfl

/-! ### The frames in the bodies -/

theorem open?_marked (m : Marked) :
    open? true m.body = if m.size = 0 then some (.ok m.data) else none := by
  have hdecode := m.mark_spells.decode_append m.data
  simp only [open?, m.body_eq, hdecode, List.drop_left]
  rfl

theorem open?_unmarked {f : Framed} (h : f.IsUnmarked) :
    open? true f.body = some (.error (.malformedFrame "bad data length in compressed frame")) := by
  cases hdecode : Varint.decode f.body with
  | complete size used => exact absurd hdecode (h size used)
  | incomplete | tooLong => simp only [open?, hdecode]; rfl

section Received

variable {compressed : Bool} {body : List UInt8} {a : Arrival}

/-- A body without a frame is passed over, by whatever call comes next. -/
theorem received_of_none (h : open? compressed body = none) (calls : Nat) (rest : List Arrival) :
    received compressed calls (.ok body :: rest) = received compressed calls rest := by
  cases calls with
  | zero => rfl
  | succ calls => simp only [received, next, h]

theorem received_of_some (h : open? compressed body = some a) (calls : Nat) (rest : List Arrival) :
    received compressed (calls + 1) (.ok body :: rest) = some a :: received compressed calls rest := by
  simp only [received, next, h]

end Received

/-- The data of the frames that are not compressed. -/
def plain (frames : List Marked) : List (List UInt8) := (frames.filter (·.size = 0)).map (·.data)

/-- **Of marked frames those are received that are not compressed**, however many others are between them. -/
theorem received_marked (frames : List Marked) (calls : Nat) (rest : List Arrival) :
    received true ((plain frames).length + calls) (frames.map (.ok ·.body) ++ rest) =
      (plain frames).map (some <| .ok ·) ++ received true calls rest := by
  induction frames with
  | nil =>
    rw [plain, List.filter_nil, List.map_nil, List.length_nil, Nat.zero_add]
    rfl
  | cons m frames ih =>
    rw [List.map_cons, List.cons_append]
    by_cases hsize : m.size = 0
    · have hplain : plain (m :: frames) = m.data :: plain frames := by simp [plain, hsize]
      have hopen := (open?_marked m).trans (if_pos hsize)
      rw [hplain, List.length_cons, Nat.add_right_comm, received_of_some hopen, ih]
      rfl
    · -- No call is spent on it.
      have hplain : plain (m :: frames) = plain frames := by simp [plain, hsize]
      have hopen := (open?_marked m).trans (if_neg hsize)
      rw [hplain, received_of_none hopen, ih]

end Pickaxe.Wire.Frame

namespace Pickaxe.Client.Line

open Wire.Frame

theorem arrivals_marked (frames : List Marked) (rest : List UInt8) :
    arrivals (frames.flatMap (·.bytes) ++ rest) = frames.map (.ok ·.body) ++ arrivals rest := by
  have harrivals := arrivals_framed (frames.map Marked.toFramed) rest
  rwa [List.flatMap_map, List.map_map] at harrivals

/-- **Nothing is lost but compressed frames.** Let compression be on, whatever its threshold, and the peer
send any frames, each in front of any form of its length that is read as such.

* A frame begins with the size of its data, in one of its forms, or with no number at all.
* Of frames that begin with a size, the data of those with the size zero are received, in their order and
  however many others lie between them, and then the end of the stream.
* If a frame with no number follows them, the same data are received and then an error. The stream goes on
  behind that frame. -/
theorem plain_received (threshold : Int32) (hthreshold : 0 ≤ threshold) :
    let receive := received (fresh.setCompression threshold).compressed
    (∀ f : Framed, (∃ m : Marked, m.toFramed = f) ∨ ∀ size used, Wire.Varint.decode f.body ≠ .complete size used) ∧
    ∀ frames : List Marked,
      let stream := frames.flatMap (·.bytes)
      let kept := (frames.filter (·.size = 0)).map (·.data)
      (∀ more, receive (kept.length + more) (arrivals stream) =
        kept.map (some <| .ok ·) ++ List.replicate more none) ∧
      ∀ broken : Framed, (∀ size used, Wire.Varint.decode broken.body ≠ .complete size used) →
        ∀ behind more, receive (kept.length + (more + 1)) (arrivals (stream ++ (broken.bytes ++ behind))) =
          kept.map (some <| .ok ·) ++
            some (.error (.malformedFrame "bad data length in compressed frame")) ::
              receive more (arrivals behind) := by
  intro receive
  have hon : (fresh.setCompression threshold).compressed = true := by
    rw [setCompression, compressed, if_neg (Int32.not_lt.mpr hthreshold)]
    rfl
  refine ⟨Framed.marked_or_unmarked, fun frames => ⟨fun more => ?_, fun broken hbroken behind more => ?_⟩⟩
  · have harrivals := arrivals_marked frames []
    rw [arrivals_nil, List.append_nil] at harrivals
    simp only [receive, hon]
    rw [← received_nil true, harrivals]
    exact received_marked frames more []
  · simp only [receive, hon]
    rw [arrivals_marked, arrivals_of_first? (first?_framed broken behind),
      ← received_of_some (open?_unmarked hbroken)]
    exact received_marked frames (more + 1) _

/-- Two compressed frames in a row between two others, of which the first has longer forms of its length and
its zero than it needs, and then an empty frame. -/
theorem plain_received_between :
    let first : Marked := ⟨⟨[0x83, 0x00], [0x80, 0x00, 7], by decide, rfl⟩, 0, [0x80, 0x00], [7], rfl, rfl⟩
    let packed : Marked := ⟨⟨[2], [5, 9], by decide, rfl⟩, 5, [5], [9], rfl, rfl⟩
    let hollow : Marked := ⟨⟨[1], [1], by decide, rfl⟩, 1, [1], [], rfl, rfl⟩
    let last : Marked := ⟨⟨[2], [0, 8], by decide, rfl⟩, 0, [0], [8], rfl, rfl⟩
    let broken : Framed := ⟨[0], [], by decide, rfl⟩
    let stream := [first, packed, hollow, last].flatMap (·.bytes)
    (0 ≤ (256 : Int32) ∧ ∀ size used, Wire.Varint.decode broken.body ≠ .complete size used) ∧
      stream = [0x83, 0x00, 0x80, 0x00, 7, 2, 5, 9, 1, 1, 2, 0, 8] ∧
      received (fresh.setCompression 256).compressed 3 (arrivals stream) =
        [some (.ok [7]), some (.ok [8]), none] ∧
      received (fresh.setCompression 256).compressed 3 (arrivals (stream ++ (broken.bytes ++ [2, 0, 6]))) =
        [some (.ok [7]), some (.ok [8]),
          some (.error (.malformedFrame "bad data length in compressed frame"))] := by
  intro first packed hollow last broken stream
  have hthreshold : 0 ≤ (256 : Int32) := by decide
  have hbroken : ∀ size used, Wire.Varint.decode broken.body ≠ .complete size used := nofun
  obtain ⟨-, hall⟩ := plain_received 256 hthreshold
  obtain ⟨hplain, hends⟩ := hall [first, packed, hollow, last]
  exact ⟨⟨hthreshold, hbroken⟩, rfl, hplain 1, hends broken hbroken [2, 0, 6] 0⟩

end Pickaxe.Client.Line
