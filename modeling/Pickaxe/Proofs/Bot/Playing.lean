import Pickaxe.Bot.Basic
import Pickaxe.Bot.Playing

/-! The bot at play, one thing at a time.

Whoever hears one thing after another has read them all (`hearAll_eq`): the session has the events that the
reading tells of, and the line has the answers. The end of the stream is the last word then (`hear_end`).
What is said one action at a time is what is sent in one go (`foldl_say`). -/
namespace Pickaxe.Bot.Playing

open Client (Inbox Line)
open Wire (Frame.Arrival)
open World (Action Event)

/-- The session can take in events, and the stream may go on. -/
structure Attentive (p : Playing) : Prop where
  isOpen : p.session.isClosed = false
  streams : p.session.streamEnded = false

theorem attentive_start (config : Config) (line : Line) : (start config line).Attentive := ⟨rfl, rfl⟩

/-- The session with these events in the end. -/
def told (events : List Event) (ended : Bool) (s : Play.Session) : Play.Session :=
  { s with events := s.events ++ events, streamEnded := ended }

variable {p : Playing} {a : Frame.Arrival} {inbox : Inbox} {line : Line}

theorem hear_waiting (h : p.inbox.step a p.outbox.line = .waiting inbox line) :
    p.hear (some a) = { p with inbox }.setLine line := by
  rw [hear, h]

theorem deliver_eq {s : Play.Session} (h : s.isClosed = false) (e : Event) :
    (s.deliver e).2 = told [e] s.streamEnded s := by
  rw [Play.Session.deliver, h]
  rfl

theorem endStream_told (events : List Event) (ended : Bool) (s : Play.Session) :
    (told events ended s).endStream = told events true s := rfl

theorem hear_heard {e : Event} (h : p.Attentive) (hstep : p.inbox.step a p.outbox.line = .heard e inbox line) :
    p.hear (some a) = { p with inbox, session := told [e] false p.session }.setLine line := by
  simp only [hear, hstep, deliver_eq h.isOpen, h.streams]

theorem hear_over {reason : String} (h : p.Attentive) (hstep : p.inbox.step a p.outbox.line = .over reason line) :
    p.hear (some a) = { p with session := told [.disconnected reason] true p.session }.setLine line := by
  simp only [hear, hstep, deliver_eq h.isOpen, endStream_told]

theorem hearAll_of_ended (h : p.session.streamEnded = true) (inbound : List Frame.Arrival) :
    hearAll inbound p = p := by
  cases inbound with
  | nil => rfl
  | cons => rw [hearAll, if_pos h]

/-- **One thing after another** is all that is read. -/
theorem hearAll_eq (h : p.Attentive) (inbound : List Frame.Arrival) :
    let r := Inbox.read inbound p.inbox p.outbox.line
    (hearAll inbound p).session = told r.soFar r.reason.isSome p.session ∧
      (hearAll inbound p).outbox = { p.outbox with line := r.line } := by
  induction inbound generalizing p with
  | nil =>
    refine ⟨?_, rfl⟩
    simp only [hearAll, told, Inbox.read, Inbox.Reading.soFar, Option.map_none, Option.toList_none, List.append_nil,
      Option.isSome_none, ← h.streams]
  | cons a rest ih =>
    rw [hearAll, h.streams, if_neg Bool.false_ne_true, Inbox.read]
    rcases hstep : p.inbox.step a p.outbox.line with ⟨inbox, line⟩ | ⟨e, inbox, line⟩ | ⟨reason, line⟩
    · rw [hear_waiting hstep]
      exact ih ⟨h.isOpen, h.streams⟩
    · rw [hear_heard h hstep]
      obtain ⟨hsession, houtbox⟩ := ih (p := { p with inbox, session := told [e] false p.session }.setLine line)
        ⟨h.isOpen, rfl⟩
      refine ⟨hsession.trans ?_, houtbox⟩
      simp only [setLine, told, Inbox.Reading.soFar, List.append_assoc, List.cons_append, List.nil_append]
    · rw [hear_over h hstep, hearAll_of_ended rfl]
      exact ⟨rfl, rfl⟩

/-- **The end of the stream** is the last word, if nothing else has ended it before. -/
theorem hear_end (h : p.Attentive) (inbound : List Frame.Arrival)
    (hreason : (Inbox.read inbound p.inbox p.outbox.line).reason = none) :
    ((hearAll inbound p).hear none).session =
      told (Inbox.read inbound p.inbox p.outbox.line).all true p.session := by
  obtain ⟨hsession, -⟩ := hearAll_eq h inbound
  have hopen : ((hearAll inbound p).session).isClosed = false := by
    rw [hsession]
    exact h.isOpen
  simp only [hear, setLine, deliver_eq hopen, endStream_told]
  simp only [hsession, told, Inbox.Reading.soFar, Inbox.Reading.all, hreason, Option.map_none, Option.toList_none,
    List.append_nil, Option.getD_none, List.append_assoc]

/-- What is said one at a time is what is sent in one go. -/
theorem foldl_say (stamp : Int64) (actions : List Action) (p : Playing) :
    (actions.foldl (fun p action => p.say stamp stamp action) p).outbox = sendAll stamp actions p.outbox := by
  induction actions generalizing p with
  | nil => rfl
  | cons action actions ih => exact ih (p.say stamp stamp action)

end Pickaxe.Bot.Playing
