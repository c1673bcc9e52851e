import Pickaxe.Proofs.Wire.Varint
import Pickaxe.Wire.Frame

/-! Frames on a stream.

A frame that was written is the next one to come in, whatever comes after it (`first?_written`), and one
that is cut off is told from the end of the stream (`first?_cut`). From this the arrivals of a whole
stream are the bodies that were written to it (`arrivals_written`), and those of a stream that was cut
anywhere are the bodies before the cut, with an error for the one that was cut (`arrivals_cut`). Out of
the bodies come the frames that were laid out in them (`received_layOut`). -/
namespace Pickaxe.Wire.Frame

/-! ### One frame -/

theorem written_ne_nil (body : List UInt8) : written body ≠ [] := by
  obtain ⟨head, last, hencode, -⟩ := Varint.exists_encode (Int32.ofNat body.length)
  simp [written, hencode]

/-- The length of a body takes three bytes at the most. -/
theorem length_header_le {body : List UInt8} (h : body.length ≤ maxSize) :
    (Varint.encode (Int32.ofNat body.length)).length ≤ 3 := by
  refine Varint.length_groups_le 2 ?_
  have hbound : body.length < 128 ^ 3 := Nat.lt_succ_of_le h
  simpa using Nat.lt_of_le_of_lt (Nat.mod_le _ _) hbound

/-- What comes first in a stream that is not empty, once its length is known. -/
theorem first?_of_complete {stream : List UInt8} {length : Nat} {used : Nat} (hlength : length ≤ maxSize)
    (hdecode : Varint.decode stream = .complete (Int32.ofNat length) used) :
    first? stream = if (stream.drop used).length < length then
        some (.error (.connectionClosed "eof inside frame"), [])
      else some (.ok ((stream.drop used).take length), (stream.drop used).drop length) := by
  have hne : stream ≠ [] := by
    rintro rfl
    cases hdecode
  have hint : (Int32.ofNat length).toInt = length :=
    Int32.toInt_ofNat_of_lt (Nat.lt_of_le_of_lt hlength (by decide))
  have hpos : ¬ Int32.ofNat length < 0 := by
    rw [Int32.lt_iff_toInt_lt, hint]
    exact Int.not_lt.mpr (Int.natCast_nonneg _)
  simp only [first?, if_neg hne, hdecode, if_neg hpos, hint, Int.toNat_natCast,
    if_neg (Nat.not_lt.mpr hlength)]

/-- **A frame that was written comes in**, whatever comes after it. -/
theorem first?_written {body : List UInt8} (h : body.length ≤ maxSize) (rest : List UInt8) :
    first? (written body ++ rest) = some (.ok body, rest) := by
  have hdecode := Varint.decode_encode (Int32.ofNat body.length) (body ++ rest)
  rw [written, List.append_assoc, first?_of_complete h hdecode, List.drop_left, if_neg]
  · rw [List.take_left, List.drop_left]
  · rw [List.length_append]
    exact Nat.not_lt.mpr (Nat.le_add_right _ _)

/-- **A frame that was cut off is an error**, and nothing comes after it. -/
theorem first?_cut {body : List UInt8} (h : body.length ≤ maxSize) {n : Nat} (hpos : 0 < n)
    (hn : n < (written body).length) :
    ∃ detail, first? ((written body).take n) = some (.error (.connectionClosed detail), []) := by
  have hne : (written body).take n ≠ [] := by
    simpa [Nat.pos_iff_ne_zero.mp hpos] using written_ne_nil body
  rcases Nat.lt_or_ge n (Varint.encode (Int32.ofNat body.length)).length with hheader | hbody
  · have hdecode := Varint.decode_take_encode _ hheader
    refine ⟨"eof inside frame header", ?_⟩
    have htake : (written body).take n = (Varint.encode (Int32.ofNat body.length)).take n :=
      List.take_append_of_le_length (Nat.le_of_lt hheader)
    rw [first?, if_neg hne, htake, hdecode]
  · refine ⟨"eof inside frame", ?_⟩
    obtain ⟨kept, rfl⟩ := Nat.exists_eq_add_of_le hbody
    have htake : (written body).take ((Varint.encode (Int32.ofNat body.length)).length + kept) =
        Varint.encode (Int32.ofNat body.length) ++ body.take kept := List.take_length_add_append _
    rw [written, List.length_append] at hn
    rw [htake, first?_of_complete h (Varint.decode_encode _ _), List.drop_left, if_pos]
    exact Nat.lt_of_le_of_lt (List.length_take_le _ _) (Nat.lt_of_add_lt_add_left hn)

/-! ### All that comes in -/

theorem arrivals_nil : arrivals [] = [] := by
  rw [arrivals]
  split
  · rfl
  · rename_i hfirst
    cases hfirst

theorem arrivals_of_first? {stream rest : List UInt8} {a : Arrival}
    (h : first? stream = some (a, rest)) : arrivals stream = a :: arrivals rest := by
  rw [arrivals]
  split
  · rename_i hfirst
    rw [h] at hfirst
    cases hfirst
  · rename_i hfirst
    rw [h] at hfirst
    cases hfirst
    rfl

/-- **What was written comes in**, body by body. -/
theorem arrivals_written {bodies : List (List UInt8)} (h : ∀ body ∈ bodies, body.length ≤ maxSize)
    (rest : List UInt8) :
    arrivals (bodies.flatMap written ++ rest) = bodies.map .ok ++ arrivals rest := by
  induction bodies with
  | nil => rfl
  | cons body bodies ih =>
    obtain ⟨hbody, hbodies⟩ := List.forall_mem_cons.mp h
    rw [List.flatMap_cons, List.append_assoc, arrivals_of_first? (first?_written hbody _), ih hbodies]
    rfl

/-- A place inside the pieces of a list lies in one of them. -/
theorem exists_piece {α β : Type} (piece : α → List β) {items : List α} {n : Nat}
    (h : n < (items.flatMap piece).length) :
    ∃ before item after, items = before ++ item :: after ∧ (before.flatMap piece).length ≤ n ∧
      n < (before.flatMap piece).length + (piece item).length := by
  induction items generalizing n with
  | nil => cases h
  | cons item items ih =>
    rcases Nat.lt_or_ge n (piece item).length with hin | hbehind
    · exact ⟨[], item, items, rfl, Nat.zero_le _, by simpa using hin⟩
    · rw [List.flatMap_cons, List.length_append] at h
      obtain ⟨before, next, after, rfl, hle, hlt⟩ := ih (n := n - (piece item).length) (by omega)
      refine ⟨item :: before, next, after, rfl, ?_, ?_⟩ <;>
        rw [List.flatMap_cons, List.length_append] <;> omega

/-- **A stream that was cut**: the bodies before the cut come in, and if the cut is inside a frame, an
error. -/
theorem arrivals_cut {before : List (List UInt8)} {body : List UInt8} {after : List (List UInt8)}
    (h : ∀ b ∈ before ++ body :: after, b.length ≤ maxSize) {cut : Nat}
    (hcut : (before.flatMap written).length ≤ cut)
    (hend : cut < (before.flatMap written).length + (written body).length) :
    let stream := ((before ++ body :: after).flatMap written).take cut
    ((before.flatMap written).length = cut → arrivals stream = before.map .ok) ∧
      ((before.flatMap written).length < cut → ∃ detail,
        arrivals stream = before.map .ok ++ [.error (.connectionClosed detail)]) := by
  obtain ⟨n, rfl⟩ := Nat.exists_eq_add_of_le hcut
  have hn : n < (written body).length := Nat.lt_of_add_lt_add_left hend
  have hbefore : ∀ b ∈ before, b.length ≤ maxSize := fun b hb => h b (List.mem_append_left _ hb)
  have hbody : body.length ≤ maxSize := h body (by simp)
  have hstream : ((before ++ body :: after).flatMap written).take ((before.flatMap written).length + n) =
      before.flatMap written ++ (written body).take n := by
    rw [List.flatMap_append, List.take_length_add_append, List.flatMap_cons,
      List.take_append_of_le_length (Nat.le_of_lt hn)]
  simp only [hstream, arrivals_written hbefore]
  refine ⟨fun hnone => ?_, fun hsome => ?_⟩
  · rw [Nat.left_eq_add.mp hnone, List.take_zero, arrivals_nil, List.append_nil]
  · obtain ⟨detail, hfirst⟩ := first?_cut hbody (Nat.pos_of_lt_add_right hsome) hn
    exact ⟨detail, by rw [arrivals_of_first? hfirst, arrivals_nil]⟩

/-! ### The frames in the bodies -/

/-- The bytes of a frame in the layout of the connection. -/
def onWire (compressed : Bool) (frame : List UInt8) : List UInt8 := written (layOut compressed frame)

/-- What calls for the next frame give, one after another. -/
def received (compressed : Bool) : (calls : Nat) → List Arrival → List (Option Arrival)
  | 0, _ => []
  | calls + 1, arrivals =>
    (next compressed arrivals).1 :: received compressed calls (next compressed arrivals).2

section Received

variable {compressed : Bool} {frames : List (List UInt8)}

theorem open?_layOut (compressed : Bool) (frame : List UInt8) :
    open? compressed (layOut compressed frame) = some (.ok frame) := by
  cases compressed with
  | false => rfl
  | true =>
    have hdecode := Varint.decode_encode 0 frame
    simp [open?, layOut, hdecode]

/-- The only thing that can be wrong with a body. -/
theorem eq_malformedFrame_of_open? {body : List UInt8} {e : TransportError}
    (h : open? compressed body = some (.error e)) :
    e = .malformedFrame "bad data length in compressed frame" := by
  rw [open?] at h
  split at h
  · cases h
  · split at h
    · split at h <;> cases h
    · cases h
      rfl

theorem received_nil (compressed : Bool) (calls : Nat) :
    received compressed calls [] = List.replicate calls none := by
  induction calls with
  | zero => rfl
  | succ calls ih =>
    rw [received, List.replicate_succ]
    exact congrArg _ ih

/-- The frames come out of the bodies that they were laid out in. -/
theorem received_layOut (compressed : Bool) (frames : List (List UInt8)) (more : Nat)
    (rest : List Arrival) :
    received compressed (frames.length + more) (frames.map (.ok <| layOut compressed ·) ++ rest) =
      frames.map (some <| .ok ·) ++ received compressed more rest := by
  induction frames with
  | nil => rw [List.length_nil, Nat.zero_add]; rfl
  | cons frame frames ih =>
    have hnext (rest : List Arrival) :
        next compressed (.ok (layOut compressed frame) :: rest) = (some (.ok frame), rest) := by
      rw [next, open?_layOut]
    rw [List.length_cons, Nat.add_right_comm, received, List.map_cons, List.cons_append, hnext, ih]
    rfl

theorem forall_mem_layOut (h : ∀ frame ∈ frames, (layOut compressed frame).length ≤ maxSize) :
    ∀ body ∈ frames.map (layOut compressed), body.length ≤ maxSize := List.forall_mem_map.mpr h

/-- **The frames that were written are received**, and then the end of the stream. -/
theorem received_onWire (h : ∀ frame ∈ frames, (layOut compressed frame).length ≤ maxSize)
    (more : Nat) :
    received compressed (frames.length + more) (arrivals (frames.flatMap (onWire compressed))) =
      frames.map (some <| .ok ·) ++ List.replicate more none := by
  have harrivals := arrivals_written (forall_mem_layOut h) []
  rw [List.flatMap_map, List.map_map, arrivals_nil, List.append_nil] at harrivals
  rw [← received_nil, ← received_layOut]
  exact congrArg _ harrivals

/-- **Of a stream that was cut the frames before the cut are received**, and then the end of the stream, or
an error if the cut is inside a frame. -/
theorem received_cut {whole rest : List (List UInt8)} {broken : List UInt8}
    (h : ∀ frame ∈ whole ++ broken :: rest, (layOut compressed frame).length ≤ maxSize) {cut : Nat}
    (hcut : (whole.flatMap (onWire compressed)).length ≤ cut)
    (hend : cut < (whole.flatMap (onWire compressed)).length + (onWire compressed broken).length) :
    let come := arrivals (((whole ++ broken :: rest).flatMap (onWire compressed)).take cut)
    ((whole.flatMap (onWire compressed)).length = cut → ∀ more,
      received compressed (whole.length + more) come =
        whole.map (some <| .ok ·) ++ List.replicate more none) ∧
    ((whole.flatMap (onWire compressed)).length < cut → ∃ detail, ∀ more,
      received compressed (whole.length + (more + 1)) come =
        whole.map (some <| .ok ·) ++
          some (.error (.connectionClosed detail)) :: List.replicate more none) := by
  intro come
  have hbodies := forall_mem_layOut h
  rw [List.map_append, List.map_cons] at hbodies
  have hwhole : (whole.map (layOut compressed)).flatMap written = whole.flatMap (onWire compressed) :=
    List.flatMap_map ..
  have hcome : arrivals ((((whole.map (layOut compressed)) ++
      layOut compressed broken :: rest.map (layOut compressed)).flatMap written).take cut) = come := by
    rw [← List.map_cons, ← List.map_append, List.flatMap_map]
    rfl
  obtain ⟨hbetween, hinside⟩ := arrivals_cut hbodies (hwhole ▸ hcut) (hwhole ▸ hend)
  rw [hcome, hwhole, List.map_map] at hbetween hinside
  refine ⟨fun hat more => ?_, fun hbehind => ?_⟩
  · rw [← received_nil, ← received_layOut, List.append_nil, hbetween hat]
    rfl
  · obtain ⟨detail, herror⟩ := hinside hbehind
    refine ⟨detail, fun more => ?_⟩
    have hlast : received compressed (more + 1) [.error (.connectionClosed detail)] =
        some (.error (.connectionClosed detail)) :: List.replicate more none := by
      rw [received, next, received_nil]
    rw [← hlast, ← received_layOut, herror]
    rfl

end Received

end Pickaxe.Wire.Frame
