import Pickaxe.Proofs.Play.Coherence

/-! The events of a session, in their order.

A run is told here with the kinds of actions that fail while each of its moves is made, so that a send may
fail at any time. All that the next step of the loop can do with an event is in `Heard`: it handles the
first of those that wait, or it leaves them alone. From this the loop handles the events in the order they
were handed over and leaves none out (`handled_eq`), and after a disconnection it handles nothing
(`handled_disconnected`). -/
namespace Pickaxe.Play

open World (Action ActionKind Event)

/-! ### Moves while sends fail -/

/-- The event that a move hands over. -/
def Move.delivered? : Move → Option Event
  | .deliver e => some e
  | .endStream | .trigger _ | .pass _ | .turn .. | .loaded .. => none

namespace Session

/-- From now on these kinds of actions do not get through. -/
def under (failing : List ActionKind) (s : Session) : Session :=
  { s with site := { s.site with sink := { s.site.sink with failing } } }

/-- The session after moves, each of them made while some kinds of actions fail. -/
def runUnder : List (List ActionKind × Move) → Session → Session
  | [], s => s
  | (failing, x) :: rest, s => runUnder rest (x.perform (s.under failing))

/-- The moves with the sessions that they are made in. -/
def history : List (List ActionKind × Move) → Session → List (Move × Session)
  | [], _ => []
  | (failing, x) :: rest, s => (x, s.under failing) :: history rest (x.perform (s.under failing))

/-- The events that are handled. -/
def handledIn (history : List (Move × Session)) : List Event :=
  history.flatMap fun p => (p.1.handled? p.2).toList

theorem handledIn_cons (x : Move) (s : Session) (rest : List (Move × Session)) :
    handledIn ((x, s) :: rest) = (x.handled? s).toList ++ handledIn rest := rfl

variable {s : Session}

/-- Where the same kinds fail all the time, this is a run of the moves. -/
theorem runUnder_eq_run (moves : List Move) (s : Session) :
    runUnder (moves.map (s.site.sink.failing, ·)) s = run moves s := by
  induction moves generalizing s with
  | nil => rfl
  | cons x rest ih =>
    have hrest := ih (x.perform s)
    rw [x.perform_failing] at hrest
    exact hrest

/-! ### What the loop does with events -/

theorem handle_events (e : Event) (s : Session) : (s.handle e).events = s.events := by
  cases e with
  | joined =>
    rw [handle]
    split <;> rfl
  | chat line =>
    rw [handle]
    split <;> rfl
  | teleport | health | death | disconnected => rfl

/-- What the next step of the loop can do with the events that wait. -/
inductive Heard (s : Session) : Session → Prop where
  | handled {e : Event} {rest : List Event} (hhandled : s.handled? = some e) (hevents : s.events = e :: rest) :
      Heard s ({ s with stage := .listening, events := rest }.handle e)
  /-- It leaves them alone, and has no answer to send then. It may drop the commands. -/
  | unheard {after : Session} (hnone : s.handled? = none) (hevents : after.events = s.events)
      (hanswer : after.answer? = none) (hstarted : after.autoStarted = s.autoStarted)
      (htasks : after.tasks = s.tasks ∨ after.tasks = [] ∧ ∃ e, after.stage = .stopping e) : Heard s after

theorem heard_of_loopStep {after : Session} (h : s.loopStep = after) : Heard s after := by
  cases looped_of_loopStep h with
  | handled hstage hinterrupted hevents =>
    exact .handled (by rw [handled?, hstage, hinterrupted, hevents]; rfl) hevents
  | interrupted hstage hinterrupted =>
    exact .unheard (by rw [handled?, hstage, hinterrupted]; rfl) rfl rfl rfl (.inl rfl)
  | ended hstage hinterrupted hevents | idle hstage hinterrupted hevents =>
    exact .unheard (by rw [handled?, hstage, hinterrupted, hevents]; rfl) rfl rfl rfl (.inl rfl)
  | told hstage | untold hstage | answered hstage | stopped hstage | closed hstage =>
    exact .unheard (by rw [handled?, hstage]) rfl rfl rfl (.inl rfl)
  | waiting hstage | past hstage =>
    exact .unheard (by rw [handled?, hstage]) rfl (by rw [answer?, hstage]) rfl (.inl rfl)
  | dropped hstage => exact .unheard (by rw [handled?, hstage]) rfl rfl rfl (.inr ⟨rfl, _, rfl⟩)

end Session

namespace Move

/-- What is not a turn of the loop leaves most of the session alone. -/
theorem perform_frame {x : Move} (hx : ∀ moment, x ≠ .turn moment .loop) (s : Session) :
    ∃ site shutdown tasks streamEnded, x.perform s = { s with
      site, shutdown, tasks, streamEnded
      events := s.events ++ if s.isClosed then [] else x.delivered?.toList } := by
  have hnone : s.events = s.events ++ if s.isClosed then [] else (none : Option Event).toList := by
    rw [Option.toList_none, ite_self, List.append_nil]
  cases x with
  | deliver e =>
    rw [perform, Session.deliver, delivered?]
    cases s.isClosed with
    | true =>
      exact ⟨s.site, s.shutdown, s.tasks, s.streamEnded, by rw [if_pos rfl, if_pos rfl, List.append_nil]⟩
    | false => exact ⟨s.site, s.shutdown, s.tasks, s.streamEnded, rfl⟩
  | endStream | trigger | pass => rw [delivered?, ← hnone]; exact ⟨_, _, _, _, rfl⟩
  | loaded moment index =>
    obtain ⟨tasks, hframe⟩ := (s.since moment).loaded_frame index
    rw [perform, hframe, delivered?, ← hnone]
    exact ⟨_, _, tasks, _, rfl⟩
  | turn moment agent =>
    rw [delivered?, ← hnone]
    cases agent with
    | loop => exact absurd rfl (hx moment)
    | miner runner => exact ⟨_, _, _, _, rfl⟩
    | command index =>
      change ∃ site shutdown tasks streamEnded, (s.since moment).commandStep index = _
      generalize hafter : (s.since moment).commandStep index = after
      cases Session.commanded_of_commandStep hafter with
      | absent => exact ⟨_, _, _, _, rfl⟩
      | @performed t op => cases op <;> exact ⟨_, _, _, _, rfl⟩

/-- Only the loop handles events. -/
theorem handled?_of_ne {x : Move} (hx : ∀ moment, x ≠ .turn moment .loop) (s : Session) :
    x.handled? s = none := by
  cases x with
  | turn moment agent =>
    cases agent with
    | loop => exact absurd rfl (hx moment)
    | command | miner => rfl
  | deliver | endStream | trigger | pass | loaded => rfl

/-- Events come in at the end of those that wait and are taken from their front. -/
theorem handled?_events (x : Move) (s : Session) :
    (x.handled? s).toList ++ (x.perform s).events =
      s.events ++ if s.isClosed then [] else x.delivered?.toList := by
  rcases x.loop_or with ⟨moment, rfl⟩ | hother
  · change (s.since moment).handled?.toList ++ (s.since moment).loopStep.events = _
    rw [delivered?, Option.toList_none, ite_self, List.append_nil]
    generalize hafter : (s.since moment).loopStep = after
    cases Session.heard_of_loopStep hafter with
    | handled hhandled hevents =>
      rw [Session.handle_events, hhandled]
      exact hevents.symm
    | unheard hnone hevents => rw [hnone]; exact hevents
  · obtain ⟨site, shutdown, tasks, streamEnded, hframe⟩ := perform_frame hother s
    rw [handled?_of_ne hother, hframe]
    rfl

/-- Only a loop that polls handles events. -/
theorem handled?_eq_none {s : Session} (h : s.stage ≠ .polling) (x : Move) : x.handled? s = none := by
  rcases x.loop_or with ⟨moment, rfl⟩ | hother
  · change (s.since moment).handled? = none
    rw [Session.handled?]
    split
    · exact absurd ‹_› h
    · rfl
  · exact handled?_of_ne hother s

/-- A move that handles an event. -/
theorem exists_of_handled? {x : Move} {s : Session} {e : Event} (h : x.handled? s = some e) :
    ∃ moment rest,
      x.perform s = ({ s.since moment with stage := .listening, events := rest } : Session).handle e := by
  rcases x.loop_or with ⟨moment, rfl⟩ | hother
  · change (s.since moment).handled? = some e at h
    change ∃ now rest, (s.since moment).loopStep = _
    generalize hafter : (s.since moment).loopStep = after
    cases Session.heard_of_loopStep hafter with
    | @handled first rest hhandled =>
      obtain rfl : first = e := Option.some.inj (hhandled.symm.trans h)
      exact ⟨moment, rest, rfl⟩
    | unheard hnone => cases hnone.symm.trans h
  · rw [handled?_of_ne hother] at h
    cases h

end Move

namespace Session

variable {s : Session}

/-! ### Events in their order -/

/-- The loop handles no event any more. -/
inductive Deaf (s : Session) : Prop where
  /-- It has not found the reason to end yet. -/
  | told {e : End} (hstage : s.stage = .listening) (hreason : s.shutdown.reason = some e)
  | ending {e : End} (hstage : s.stage.ending? = some e)

namespace Deaf

theorem stage_ne (h : s.Deaf) : s.stage ≠ .polling := by
  intro hpolling
  cases h with
  | told hstage => cases hstage.symm.trans hpolling
  | ending hstage =>
    rw [hpolling] at hstage
    cases hstage

theorem of_eq {after : Session} (h : s.Deaf) (hstage : after.stage = s.stage)
    (hshutdown : after.shutdown = s.shutdown) : after.Deaf := by
  cases h with
  | told hlistening hreason => exact .told (hstage.trans hlistening) (hshutdown ▸ hreason)
  | ending hending => exact .ending (hstage ▸ hending)

theorem loopStep (h : s.Deaf) : s.loopStep.Deaf := by
  have hnot : s.stage ≠ .polling := h.stage_ne
  generalize hafter : s.loopStep = after
  cases looped_of_loopStep hafter with
  | told | dropped | stopped | closed => exact .ending rfl
  | waiting | past => exact h
  | interrupted hstage | handled hstage | ended hstage | idle hstage => exact absurd hstage hnot
  | untold hstage hreason =>
    cases h with
    | told _ hsome => cases hsome.symm.trans hreason
    | ending hending =>
      rw [hstage] at hending
      cases hending
  | answered hstage =>
    cases h with
    | told hlistening => cases hlistening.symm.trans hstage
    | ending hending =>
      rw [hstage] at hending
      cases hending

theorem perform (h : s.Deaf) (x : Move) : (x.perform s).Deaf := by
  rcases x.loop_or with ⟨moment, rfl⟩ | hother
  · have hsince : (s.since moment).Deaf := h.of_eq rfl rfl
    exact hsince.loopStep
  · have hstage := Move.perform_stage hother s
    cases h with
    | told hlistening hreason =>
      exact .told (hstage.trans hlistening) (run_of_reason [x] hreason).1
    | ending hending => exact .ending (hstage ▸ hending)

theorem under (h : s.Deaf) (failing : List ActionKind) : (s.under failing).Deaf := h.of_eq rfl rfl

theorem handledIn_eq (h : s.Deaf) (moves : List (List ActionKind × Move)) :
    handledIn (history moves s) = [] := by
  induction moves generalizing s with
  | nil => rfl
  | cons step rest ih =>
    obtain ⟨failing, x⟩ := step
    have hunder := h.under failing
    rw [history, handledIn, List.flatMap_cons, x.handled?_eq_none hunder.stage_ne]
    exact ih (hunder.perform x)

end Deaf

theorem isClosed_perform (h : s.isClosed = true) (x : Move) : (x.perform s).isClosed = true := by
  rcases x.loop_or with ⟨moment, rfl⟩ | hother
  · change (s.since moment).loopStep.isClosed = true
    have hclosed : (s.since moment).isClosed = true := h
    generalize hafter : (s.since moment).loopStep = after
    rw [isClosed] at hclosed
    cases looped_of_loopStep hafter with
    | past hstage => rw [isClosed, hstage]
    | told hstage | untold hstage | interrupted hstage | handled hstage | ended hstage | idle hstage
    | answered hstage | dropped hstage | stopped hstage | closed hstage | waiting hstage =>
      rw [hstage] at hclosed
      cases hclosed
  · rw [isClosed, Move.perform_stage hother s]
    exact h

theorem deaf_of_isClosed (h : s.isClosed = true) : s.Deaf := by
  cases hstage : s.stage with
  | closed e => exact .ending (e := e) (by rw [hstage]; rfl)
  | listening | polling | answering | dropping | stopping | closing =>
    rw [isClosed, hstage] at h
    cases h

/-- After the end nothing is handled and nothing waits that did not before. -/
theorem runUnder_of_isClosed (h : s.isClosed = true) (moves : List (List ActionKind × Move)) :
    (runUnder moves s).isClosed = true ∧ (runUnder moves s).events = s.events := by
  induction moves generalizing s with
  | nil => exact ⟨h, rfl⟩
  | cons step rest ih =>
    obtain ⟨failing, x⟩ := step
    have hunder : (s.under failing).isClosed = true := h
    have hevents := x.handled?_events (s.under failing)
    rw [x.handled?_eq_none (deaf_of_isClosed hunder).stage_ne, hunder, if_pos rfl, List.append_nil]
      at hevents
    obtain ⟨hclosed, hafter⟩ := ih (isClosed_perform hunder x)
    exact ⟨hclosed, hafter.trans hevents⟩

/-- **The events are handled in their order and none is left out**: those that were handled, those that
wait and, after the end, those that came too late are the ones that were handed over. -/
theorem handled_eq (moves : List (List ActionKind × Move)) (s : Session) : ∃ late,
    handledIn (history moves s) ++ (runUnder moves s).events ++ late =
      s.events ++ moves.flatMap (·.2.delivered?.toList) ∧
    ((runUnder moves s).isClosed = false → late = []) := by
  induction moves generalizing s with
  | nil => exact ⟨[], rfl, fun _ => rfl⟩
  | cons step rest ih =>
    obtain ⟨failing, x⟩ := step
    -- A closed session takes no event in, so all that come then are late.
    cases hclosed : s.isClosed with
    | true =>
      have hdeaf := (deaf_of_isClosed hclosed).handledIn_eq ((failing, x) :: rest)
      obtain ⟨hafter, hevents⟩ := runUnder_of_isClosed hclosed ((failing, x) :: rest)
      refine ⟨_, by rw [hdeaf, hevents]; rfl, fun hopen => ?_⟩
      cases hafter.symm.trans hopen
    | false =>
      have hstep := x.handled?_events (s.under failing)
      rw [show (s.under failing).isClosed = false from hclosed] at hstep
      obtain ⟨late, hrest, hlate⟩ := ih (x.perform (s.under failing))
      refine ⟨late, ?_, hlate⟩
      rw [history, handledIn_cons, runUnder, List.flatMap_cons]
      rw [List.append_assoc, List.append_assoc, ← List.append_assoc (handledIn _), hrest,
        ← List.append_assoc, hstep]
      exact List.append_assoc ..

theorem deaf_of_disconnected {x : Move} {reason : String}
    (h : x.handled? s = some (.disconnected reason)) : (x.perform s).Deaf := by
  obtain ⟨moment, rest, hperform⟩ := Move.exists_of_handled? h
  rw [hperform]
  change Deaf (trigger .connectionLost _)
  cases hreason : s.shutdown.reason with
  | none =>
    refine .told rfl (e := .connectionLost) ?_
    exact congrArg (fun p => p.2.reason) (Shutdown.trigger_of_none hreason _)
  | some first =>
    refine .told rfl (e := first) ?_
    exact (congrArg (fun p => p.2.reason) (Shutdown.trigger_of_some hreason _)).trans hreason

/-- **After a disconnection nothing is handled.** -/
theorem handled_disconnected {moves : List (List ActionKind × Move)} {before later : List Event}
    {reason : String} (h : handledIn (history moves s) = before ++ .disconnected reason :: later) :
    later = [] := by
  induction moves generalizing s before with
  | nil => exact absurd h.symm (List.append_ne_nil_of_right_ne_nil _ (List.cons_ne_nil _ _))
  | cons step rest ih =>
    obtain ⟨failing, x⟩ := step
    rw [history, handledIn_cons] at h
    cases hhandled : x.handled? (s.under failing) with
    | none =>
      rw [hhandled] at h
      exact ih h
    | some e =>
      rw [hhandled] at h
      cases before with
      | cons first before => exact ih (List.cons.inj h).2
      | nil =>
        obtain ⟨rfl, hlater⟩ := List.cons.inj h
        exact hlater.symm.trans ((deaf_of_disconnected hhandled).handledIn_eq rest)

end Session

end Pickaxe.Play
