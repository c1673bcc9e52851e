import Pickaxe.Play.Session
import Pickaxe.Proofs.Mining.Moves

/-! A play session over any moves.

The game hands over events, time passes, somebody outside gives a reason to end, and the loop, the
commands and the miners take their steps, in any order. What a move does is told by what it sends
(`Move.sent?`), what it has the mining machine do (`Move.machineMoves`), the reason it gives
(`Move.given?`) and the event it handles (`Move.handled?`): the line to the server, the machine and
the reason that stands change by these alone (`run_sink`, `run_machine`). The first reason that is given
stands, whoever gives it (`run_of_no_reason`). The schedule that a session runs by is made of such moves,
each of them when it is due (`runFor_eq_run`, `runOut_eq_run`). -/
namespace Pickaxe.Play

open World (Action Event)

/-- What moves a session. -/
inductive Move where
  | deliver (e : Event)
  | endStream
  /-- Somebody outside gives a reason to end. -/
  | trigger (e : End)
  | pass (moment : Instant)
  /-- The loop, a command or a miner takes its next step. -/
  | turn (moment : Instant) (agent : Agent)
  /-- A command that waits for the world to load goes on, also if the session ends just then. -/
  | loaded (moment : Instant) (index : Nat)

/-- What an op sends when its time has passed. -/
def Op.sent? : Op → Option Action
  | .say line | .announce line => some (.chat line)
  | .stopMining | .startMining | .pause _ | .settle _ | .finish _ => none

def Op.given? : Op → Option End
  | .finish e => some e
  | .stopMining | .startMining | .say _ | .announce _ | .pause _ | .settle _ => none

namespace Session

/-- The session at this moment. -/
def since (moment : Instant) (s : Session) : Session := { s with site := { s.site with now := moment } }

/-- The world has loaded for a command that waits for it. -/
def loaded (index : Nat) (s : Session) : Session := match s.tasks[index]? with
  | some ⟨_, .settle _ :: left⟩ => { s with tasks := s.tasks.set index ⟨s.now, left⟩ }
  | _ => s

/-- When the world has loaded for a command that waits for it. -/
def loadedAt? (index : Nat) (s : Session) : Option Instant := match s.tasks[index]? with
  | some ⟨since, .settle d :: _⟩ => some (since + d)
  | _ => none

/-- The op that a command does next. -/
def op? (index : Nat) (s : Session) : Option Op := s.tasks[index]?.bind (·.left.head?)

/-- The answer that the loop sends next. -/
def answer? (s : Session) : Option Action := match s.stage with
  | .answering _ action => some action
  | _ => none

/-- The event that the loop handles next. -/
def handled? (s : Session) : Option Event := match s.stage with
  | .polling => if s.interrupted then none else s.events.head?
  | _ => none

/-- The reason that the loop gives next. -/
def given? (s : Session) : Option End := match s.stage with
  | .polling =>
    if s.interrupted then some .interrupted
    else match s.events with
      | .disconnected _ :: _ => some .connectionLost
      | _ :: _ => none
      | [] => if s.streamEnded then some .connectionLost else none
  | _ => none

/-- What the loop has the mining machine do next. -/
def dismissal (s : Session) : List Mining.Move := match s.stage with
  | .stopping _ => [.requestStop, .release]
  | _ => []

/-- What an op has the mining machine do. -/
def opMoves (s : Session) : Op → List Mining.Move
  | .stopMining => [.requestStop]
  | .startMining => [.activate s.now s.site.pose.target]
  | .say _ | .announce _ | .pause _ | .settle _ | .finish _ => []

/-- What an event has the session do, as a command. -/
def ordered? (e : Event) (s : Session) : Option (List Op) := match e with
  | .joined _ =>
    if s.settings.autoMine && !s.autoStarted then
      some (.settle s.settings.worldLoad :: s.settings.startOps)
    else none
  | .chat line => (Command.classify line).map (·.ops s.settings)
  | .teleport .. | .health .. | .death _ | .disconnected _ => none

/-! ### A step -/

/-- What the next step of the loop can do. -/
inductive Looped (s : Session) : Session → Prop where
  /-- There is a reason to end. -/
  | told {e : End} (hstage : s.stage = .listening) (hreason : s.shutdown.reason = some e) :
      Looped s { s with stage := .dropping e }
  | untold (hstage : s.stage = .listening) (hreason : s.shutdown.reason = none) :
      Looped s { s with stage := .polling }
  | interrupted (hstage : s.stage = .polling) (hinterrupted : s.interrupted = true) :
      Looped s { s.trigger .interrupted with
        stage := .dropping ((s.trigger .interrupted).shutdown.reason.getD .interrupted) }
  | handled {e : Event} {rest : List Event} (hstage : s.stage = .polling)
      (hinterrupted : s.interrupted = false) (hevents : s.events = e :: rest) :
      Looped s ({ s with stage := .listening, events := rest }.handle e)
  /-- There are no events any more. -/
  | ended (hstage : s.stage = .polling) (hinterrupted : s.interrupted = false)
      (hevents : s.events = []) (hended : s.streamEnded = true) :
      Looped s ({ s with stage := .listening }.trigger .connectionLost)
  | idle (hstage : s.stage = .polling) (hinterrupted : s.interrupted = false)
      (hevents : s.events = []) (hended : s.streamEnded = false) :
      Looped s { s with stage := .listening }
  | answered {since : Instant} {action : Action} (hstage : s.stage = .answering since action) :
      Looped s { s with
        site := { s.site with sink := s.site.sink.finish s.now action }, stage := .listening }
  | dropped {e : End} (hstage : s.stage = .dropping e) :
      Looped s { s with tasks := [], stage := .stopping e }
  | stopped {e : End} (hstage : s.stage = .stopping e) :
      Looped s { s with site := s.site.dismiss, stage := .closing e }
  | closed {e : End} (hstage : s.stage = .closing e) (hquiet : s.site.machine.isQuiet = true) :
      Looped s { s with stage := .closed e s.now }
  /-- A miner has not left yet. -/
  | waiting {e : End} (hstage : s.stage = .closing e) (hquiet : s.site.machine.isQuiet = false) :
      Looped s s
  | past {e : End} {moment : Instant} (hstage : s.stage = .closed e moment) : Looped s s

theorem looped_of_loopStep {s after : Session} (h : s.loopStep = after) : Looped s after := by
  subst h
  unfold loopStep
  cases hstage : s.stage with
  | listening =>
    unfold listen
    cases hreason : s.shutdown.reason with
    | some e => exact .told hstage hreason
    | none => exact .untold hstage hreason
  | polling =>
    unfold poll
    cases hinterrupted : s.interrupted with
    | true => exact .interrupted hstage hinterrupted
    | false =>
      cases hevents : s.events with
      | cons e rest =>
        have hhandled := Looped.handled hstage hinterrupted hevents
        simpa [hevents] using hhandled
      | nil =>
        cases hended : s.streamEnded with
        | true => simpa [hevents, hended] using Looped.ended hstage hinterrupted hevents hended
        | false => simpa [hevents, hended] using Looped.idle hstage hinterrupted hevents hended
  | answering => exact .answered hstage
  | dropping => exact .dropped hstage
  | stopping => exact .stopped hstage
  | closing =>
    cases hquiet : s.site.machine.isQuiet with
    | true => simpa [hquiet] using Looped.closed hstage hquiet
    | false => simpa [hquiet] using Looped.waiting hstage hquiet
  | closed => exact .past hstage

/-- What the next step of a command can do. -/
inductive Commanded (s : Session) (index : Nat) : Session → Prop where
  | absent (hop : s.op? index = none) : Commanded s index s
  | performed {t : Task} {op : Op} (htask : s.tasks[index]? = some t)
      (hhead : t.left.head? = some op) (hop : s.op? index = some op) :
      Commanded s index
        ({ s with tasks := s.tasks.set index (Task.rest s.shutdown s.now t) }.perform op)

theorem commanded_of_commandStep {s after : Session} {index : Nat}
    (h : s.commandStep index = after) : Commanded s index after := by
  subst h
  unfold commandStep
  cases htask : s.tasks[index]? with
  | none => exact .absent (by rw [op?, htask]; rfl)
  | some t =>
    cases hleft : t.left with
    | nil =>
      have hop : s.op? index = none := by simp [op?, htask, hleft]
      simpa [hleft] using Commanded.absent hop
    | cons op left =>
      have hop : s.op? index = some op := by simp [op?, htask, hleft]
      simpa [hleft] using Commanded.performed htask (by rw [hleft]; rfl) hop

theorem handle_site (e : Event) (s : Session) : ∃ pose, (s.handle e).site = { s.site with pose } := by
  cases e with
  | joined =>
    rw [handle]
    split <;> exact ⟨s.site.pose, rfl⟩
  | chat line =>
    rw [handle]
    split <;> exact ⟨s.site.pose, rfl⟩
  | teleport pose => exact ⟨pose, rfl⟩
  | health | death | disconnected => exact ⟨s.site.pose, rfl⟩

theorem handle_tasks (e : Event) (s : Session) :
    (s.handle e).tasks = s.tasks ++ ((s.ordered? e).map (Task.mk s.now ·)).toList := by
  cases e with
  | joined =>
    rw [handle, ordered?]
    split <;> simp [spawn, now]
  | chat line =>
    rw [handle, ordered?]
    cases Command.classify line <;> simp [spawn]
  | teleport | health | death | disconnected => simp [handle, ordered?, answer, trigger]

theorem handle_settings (e : Event) (s : Session) : (s.handle e).settings = s.settings := by
  cases e with
  | joined =>
    rw [handle]
    split <;> rfl
  | chat line =>
    rw [handle]
    split <;> rfl
  | teleport | health | death | disconnected => rfl

theorem handle_shutdown (e : Event) (s : Session) :
    (s.handle e).shutdown = match e with
      | .disconnected _ => (s.shutdown.trigger .connectionLost).2
      | _ => s.shutdown := by
  cases e with
  | joined =>
    rw [handle]
    split <;> rfl
  | chat line =>
    rw [handle]
    split <;> rfl
  | teleport | health | death | disconnected => rfl

theorem loopStep_machine (s : Session) :
    s.loopStep.site.machine = Mining.Machine.run s.dismissal s.site.machine := by
  generalize hafter : s.loopStep = after
  cases looped_of_loopStep hafter with
  | @handled e rest hstage =>
    obtain ⟨pose, hsite⟩ := handle_site e { s with stage := .listening, events := rest }
    rw [hsite, dismissal, hstage]
    rfl
  | told hstage | untold hstage | interrupted hstage | ended hstage | idle hstage | answered hstage
  | dropped hstage | stopped hstage | closed hstage | waiting hstage | past hstage =>
    rw [dismissal, hstage]
    rfl

theorem loopStep_sink (s : Session) :
    s.loopStep.site.sink = s.answer?.elim s.site.sink (s.site.sink.finish s.now) := by
  generalize hafter : s.loopStep = after
  cases looped_of_loopStep hafter with
  | @handled e rest hstage =>
    obtain ⟨pose, hsite⟩ := handle_site e { s with stage := .listening, events := rest }
    rw [hsite, answer?, hstage]
    rfl
  | told hstage | untold hstage | interrupted hstage | ended hstage | idle hstage | answered hstage
  | dropped hstage | stopped hstage | closed hstage | waiting hstage | past hstage =>
    rw [answer?, hstage]
    rfl

theorem loopStep_now (s : Session) : s.loopStep.now = s.now := by
  generalize hafter : s.loopStep = after
  cases looped_of_loopStep hafter with
  | @handled e rest =>
    obtain ⟨pose, hsite⟩ := handle_site e { s with stage := .listening, events := rest }
    rw [now, hsite]
    rfl
  | told | untold | interrupted | ended | idle | answered | dropped | stopped | closed | waiting
  | past => rfl

theorem loopStep_settings (s : Session) : s.loopStep.settings = s.settings := by
  generalize hafter : s.loopStep = after
  cases looped_of_loopStep hafter with
  | handled => exact handle_settings _ _
  | told | untold | interrupted | ended | idle | answered | dropped | stopped | closed | waiting
  | past => rfl

theorem loopStep_shutdown (s : Session) :
    s.loopStep.shutdown = s.given?.elim s.shutdown fun e => (s.shutdown.trigger e).2 := by
  generalize hafter : s.loopStep = after
  cases looped_of_loopStep hafter with
  | @handled e rest hstage hinterrupted hevents =>
    rw [handle_shutdown, given?, hstage, hinterrupted, hevents]
    cases e <;> rfl
  | interrupted hstage hinterrupted =>
    rw [given?, hstage, hinterrupted]
    rfl
  | ended hstage hinterrupted hevents hended | idle hstage hinterrupted hevents hended =>
    rw [given?, hstage, hinterrupted, hevents, hended]
    rfl
  | told hstage | untold hstage | answered hstage | dropped hstage | stopped hstage
  | closed hstage | waiting hstage | past hstage =>
    rw [given?, hstage]
    rfl

/-- The loop starts a command for an event, or drops all of them. -/
theorem mem_tasks_loopStep {s : Session} {t : Task} (h : t ∈ s.loopStep.tasks) :
    t ∈ s.tasks ∨ ∃ e, s.handled? = some e ∧ s.ordered? e = some t.left := by
  generalize hafter : s.loopStep = after at h
  cases looped_of_loopStep hafter with
  | @handled e rest hstage hinterrupted hevents =>
    rw [handle_tasks] at h
    rcases List.mem_append.mp h with hold | hnew
    · exact .inl hold
    · obtain ⟨ops, hordered, rfl⟩ := Option.map_eq_some_iff.mp (Option.mem_toList.mp hnew)
      refine .inr ⟨e, ?_, hordered⟩
      rw [handled?, hstage, hinterrupted, hevents]
      rfl
  | dropped => cases h
  | told | untold | interrupted | ended | idle | answered | stopped | closed | waiting | past =>
    exact .inl h

theorem Task.left_rest (shutdown : Shutdown) (now : Instant) (t : Task) :
    (Task.rest shutdown now t).left = [] ∨ (Task.rest shutdown now t).left = t.left.tail := by
  unfold Task.rest
  cases hleft : t.left with
  | nil => exact .inl hleft
  | cons op left =>
    cases op with
    | settle =>
      cases hreason : shutdown.reason.isSome with
      | true => exact .inl rfl
      | false => exact .inr rfl
    | stopMining | startMining | say | announce | pause | finish => exact .inr rfl

theorem commandStep_machine (index : Nat) (s : Session) :
    (s.commandStep index).site.machine =
      Mining.Machine.run ((s.op? index).elim [] s.opMoves) s.site.machine := by
  generalize hafter : s.commandStep index = after
  cases commanded_of_commandStep hafter with
  | absent hop =>
    rw [hop]
    rfl
  | @performed t op _ _ hop =>
    rw [hop]
    cases op <;> rfl

theorem commandStep_sink (index : Nat) (s : Session) :
    (s.commandStep index).site.sink =
      ((s.op? index).bind Op.sent?).elim s.site.sink (s.site.sink.finish s.now) := by
  generalize hafter : s.commandStep index = after
  cases commanded_of_commandStep hafter with
  | absent hop =>
    rw [hop]
    rfl
  | @performed t op _ _ hop =>
    rw [hop]
    cases op <;> rfl

theorem commandStep_now (index : Nat) (s : Session) : (s.commandStep index).now = s.now := by
  generalize hafter : s.commandStep index = after
  cases commanded_of_commandStep hafter with
  | absent => rfl
  | @performed t op => cases op <;> rfl

theorem commandStep_settings (index : Nat) (s : Session) :
    (s.commandStep index).settings = s.settings := by
  generalize hafter : s.commandStep index = after
  cases commanded_of_commandStep hafter with
  | absent => rfl
  | @performed t op => cases op <;> rfl

theorem commandStep_shutdown (index : Nat) (s : Session) :
    (s.commandStep index).shutdown =
      ((s.op? index).bind Op.given?).elim s.shutdown fun e => (s.shutdown.trigger e).2 := by
  generalize hafter : s.commandStep index = after
  cases commanded_of_commandStep hafter with
  | absent hop =>
    rw [hop]
    rfl
  | @performed t op _ _ hop =>
    rw [hop]
    cases op <;> rfl

theorem mem_tasks_commandStep {index : Nat} {s : Session} {t : Task}
    (h : t ∈ (s.commandStep index).tasks) :
    t ∈ s.tasks ∨ ∃ u ∈ s.tasks, t = Task.rest s.shutdown s.now u := by
  generalize hafter : s.commandStep index = after at h
  cases commanded_of_commandStep hafter with
  | absent => exact .inl h
  | @performed u op hu =>
    have hset : t ∈ s.tasks.set index (Task.rest s.shutdown s.now u) := by cases op <;> exact h
    rcases List.mem_or_eq_of_mem_set hset with hold | hnew
    · exact .inl hold
    · exact .inr ⟨u, List.mem_of_getElem? hu, hnew⟩

theorem deliver_frame (e : Event) (s : Session) : ∃ events, (s.deliver e).2 = { s with events } := by
  rw [deliver]
  split
  · exact ⟨s.events, rfl⟩
  · exact ⟨s.events ++ [e], rfl⟩

theorem loaded_frame (index : Nat) (s : Session) : ∃ tasks, s.loaded index = { s with tasks } := by
  rw [loaded]
  split
  · exact ⟨_, rfl⟩
  · exact ⟨s.tasks, rfl⟩

end Session

/-! ### What a move does -/

namespace Move

/-- The session after it. -/
def perform : Move → Session → Session
  | .deliver e, s => (s.deliver e).2
  | .endStream, s => s.endStream
  | .trigger e, s => s.trigger e
  | .pass moment, s => s.since moment
  | .turn moment agent, s => s.step moment agent
  | .loaded moment index, s => (s.since moment).loaded index

/-- The action that is sent by it. -/
def sent? : Move → Session → Option Action
  | .turn _ .loop, s => s.answer?
  | .turn _ (.command index), s => (s.op? index).bind Op.sent?
  | .turn moment (.miner runner), s => (s.site.machine.step moment runner).1
  | .deliver _, _ | .endStream, _ | .trigger _, _ | .pass _, _ | .loaded .., _ => none

/-- What it has the mining machine do. -/
def machineMoves : Move → Session → List Mining.Move
  | .turn _ .loop, s => s.dismissal
  | .turn moment (.command index), s => (s.op? index).elim [] (s.since moment).opMoves
  | .turn moment (.miner runner), _ => [.turn moment runner]
  | .deliver _, _ | .endStream, _ | .trigger _, _ | .pass _, _ | .loaded .., _ => []

/-- The reason to end that it gives. -/
def given? : Move → Session → Option End
  | .trigger e, _ => some e
  | .turn moment .loop, s => (s.since moment).given?
  | .turn _ (.command index), s => (s.op? index).bind Op.given?
  | .turn _ (.miner _), _ | .deliver _, _ | .endStream, _ | .pass _, _ | .loaded .., _ => none

/-- The event that it handles. -/
def handled? : Move → Session → Option Event
  | .turn moment .loop, s => (s.since moment).handled?
  | .turn _ (.command _), _ | .turn _ (.miner _), _ | .deliver _, _ | .endStream, _ | .trigger _, _
  | .pass _, _ | .loaded .., _ => none

/-- Whoever takes a turn can go on by then, and time does not go back. -/
def IsDue (s : Session) : Move → Prop
  | .turn moment agent => ∃ p ∈ s.agenda, p.2 = agent ∧ p.1 ≤ moment
  | .pass moment => s.now ≤ moment
  | .loaded moment index => (s.loadedAt? index).any fun due => s.now ≤ moment ∧ due ≤ moment
  | .deliver _ | .endStream | .trigger _ => True

instance (s : Session) : (x : Move) → Decidable (x.IsDue s)
  | .turn moment agent => inferInstanceAs (Decidable (∃ p ∈ s.agenda, p.2 = agent ∧ p.1 ≤ moment))
  | .pass moment => inferInstanceAs (Decidable (s.now ≤ moment))
  | .loaded .. => inferInstanceAs (Decidable (_ = true))
  | .deliver _ | .endStream | .trigger _ => isTrue trivial

/-- The machine does what a move has it do, and nothing else. -/
theorem perform_machine (x : Move) (s : Session) :
    (x.perform s).site.machine = Mining.Machine.run (x.machineMoves s) s.site.machine := by
  cases x with
  | deliver e =>
    obtain ⟨events, hframe⟩ := s.deliver_frame e
    rw [perform, hframe]
    rfl
  | endStream | trigger | pass => rfl
  | loaded moment index =>
    obtain ⟨tasks, hframe⟩ := (s.since moment).loaded_frame index
    rw [perform, hframe]
    rfl
  | turn moment agent =>
    cases agent with
    | loop => exact (s.since moment).loopStep_machine
    | command index => exact (s.since moment).commandStep_machine index
    | miner => rfl

/-- What is sent goes over the line, and nothing else. -/
theorem perform_sink (x : Move) (s : Session) :
    (x.perform s).site.sink =
      (x.sent? s).elim s.site.sink (s.site.sink.finish (x.perform s).now) := by
  cases x with
  | deliver e =>
    obtain ⟨events, hframe⟩ := s.deliver_frame e
    rw [perform, hframe]
    rfl
  | endStream | trigger | pass => rfl
  | loaded moment index =>
    obtain ⟨tasks, hframe⟩ := (s.since moment).loaded_frame index
    rw [perform, hframe]
    rfl
  | turn moment agent =>
    cases agent with
    | loop =>
      rw [show (perform (.turn moment .loop) s).now = (s.since moment).now from
        (s.since moment).loopStep_now]
      exact (s.since moment).loopStep_sink
    | command index =>
      rw [show (perform (.turn moment (.command index)) s).now = (s.since moment).now from
        (s.since moment).commandStep_now index]
      exact (s.since moment).commandStep_sink index
    | miner runner =>
      rw [perform, Session.step, sent?]
      simp only [Mining.Site.step, Session.now]
      cases (s.site.machine.step moment runner).1 <;> rfl

/-- The server gets what is sent, unless it is of a kind that does not get through. -/
theorem perform_sent (x : Move) (s : Session) :
    (x.perform s).site.sink.sent.map Prod.snd =
      s.site.sink.sent.map Prod.snd ++ (x.sent? s).toList.filter (·.kind ∉ s.site.sink.failing) := by
  rw [x.perform_sink]
  cases x.sent? s with
  | none => exact (List.append_nil _).symm
  | some action => exact Sink.sent_finish _ action _

theorem perform_failing (x : Move) (s : Session) :
    (x.perform s).site.sink.failing = s.site.sink.failing := by
  rw [x.perform_sink]
  cases x.sent? s with
  | none => rfl
  | some action => exact Sink.failing_finish _ action _

/-- The reason that stands changes by the reasons that are given. -/
theorem perform_shutdown (x : Move) (s : Session) :
    (x.perform s).shutdown = (x.given? s).elim s.shutdown fun e => (s.shutdown.trigger e).2 := by
  cases x with
  | deliver e =>
    obtain ⟨events, hframe⟩ := s.deliver_frame e
    rw [perform, hframe]
    rfl
  | endStream | trigger | pass => rfl
  | loaded moment index =>
    obtain ⟨tasks, hframe⟩ := (s.since moment).loaded_frame index
    rw [perform, hframe]
    rfl
  | turn moment agent =>
    cases agent with
    | loop => exact (s.since moment).loopStep_shutdown
    | command index => exact (s.since moment).commandStep_shutdown index
    | miner => rfl

/-- The settings stay. -/
theorem perform_settings (x : Move) (s : Session) : (x.perform s).settings = s.settings := by
  cases x with
  | deliver e =>
    obtain ⟨events, hframe⟩ := s.deliver_frame e
    rw [perform, hframe]
  | endStream | trigger | pass => rfl
  | loaded moment index =>
    obtain ⟨tasks, hframe⟩ := (s.since moment).loaded_frame index
    rw [perform, hframe]
    rfl
  | turn moment agent =>
    cases agent with
    | loop => exact (s.since moment).loopStep_settings
    | command index => exact (s.since moment).commandStep_settings index
    | miner => rfl

/-- A command is there from before, or an event has ordered it, or it has done an op or been cut
off. -/
theorem mem_tasks_perform {x : Move} {s : Session} {t : Task} (h : t ∈ (x.perform s).tasks) :
    t ∈ s.tasks ∨
      (∃ e, x.handled? s = some e ∧ s.ordered? e = some t.left) ∨
      ∃ u ∈ s.tasks, t.left = [] ∨ t.left = u.left.tail := by
  cases x with
  | deliver e =>
    obtain ⟨events, hframe⟩ := s.deliver_frame e
    rw [perform, hframe] at h
    exact .inl h
  | endStream | trigger | pass => exact .inl h
  | loaded moment index =>
    rw [perform, Session.loaded] at h
    split at h
    · rename_i since d left hu
      rcases List.mem_or_eq_of_mem_set h with hold | rfl
      · exact .inl hold
      · exact .inr (.inr ⟨⟨since, .settle d :: left⟩, List.mem_of_getElem? hu, .inr rfl⟩)
    · exact .inl h
  | turn moment agent =>
    cases agent with
    | loop => exact (Session.mem_tasks_loopStep h).imp_right .inl
    | command index =>
      refine (Session.mem_tasks_commandStep h).imp_right fun ⟨u, hu, ht⟩ => .inr ⟨u, hu, ?_⟩
      rw [ht]
      exact Session.Task.left_rest s.shutdown moment u
    | miner => exact .inl h

end Move

/-! ### Runs -/

namespace Session

/-- The session after moves, one after another. -/
def run : List Move → Session → Session
  | [], s => s
  | x :: rest, s => run rest (x.perform s)

/-- The actions that are sent by them. -/
def sent : List Move → Session → List Action
  | [], _ => []
  | x :: rest, s => (x.sent? s).toList ++ sent rest (x.perform s)

/-- What they have the mining machine do. -/
def machineMoves : List Move → Session → List Mining.Move
  | [], _ => []
  | x :: rest, s => x.machineMoves s ++ machineMoves rest (x.perform s)

/-- The reasons that they give, each with whether it was the first one. -/
def triggers : List Move → Session → List (End × Bool)
  | [], _ => []
  | x :: rest, s =>
    ((x.given? s).map fun e => (e, (s.shutdown.trigger e).1)).toList ++ triggers rest (x.perform s)

/-- The events that they handle. -/
def handled : List Move → Session → List Event
  | [], _ => []
  | x :: rest, s => (x.handled? s).toList ++ handled rest (x.perform s)

/-- The moves are made when they are due. -/
def Timely : List Move → Session → Prop
  | [], _ => True
  | x :: rest, s => x.IsDue s ∧ Timely rest (x.perform s)

instance : (moves : List Move) → (s : Session) → Decidable (Timely moves s)
  | [], _ => isTrue trivial
  | x :: rest, s =>
    have := instDecidableTimely rest (x.perform s)
    inferInstanceAs (Decidable (_ ∧ _))

theorem run_append (first rest : List Move) (s : Session) :
    run (first ++ rest) s = run rest (run first s) := by
  induction first generalizing s with
  | nil => rfl
  | cons x first ih => exact ih _

/-- **The machine of a run has made moves, one after another.** -/
theorem run_machine (moves : List Move) (s : Session) :
    (run moves s).site.machine = Mining.Machine.run (machineMoves moves s) s.site.machine := by
  induction moves generalizing s with
  | nil => rfl
  | cons x rest ih =>
    rw [run, ih, x.perform_machine, machineMoves, Mining.Machine.run_append]

theorem run_orderly {s : Session} (h : s.site.machine.Orderly) (moves : List Move) :
    (run moves s).site.machine.Orderly := by
  rw [run_machine]
  exact h.run _

/-- **What is sent reaches the server in its order**, but for the kinds that do not get through. -/
theorem run_sink (moves : List Move) (s : Session) :
    (run moves s).site.sink.sent.map Prod.snd =
      s.site.sink.sent.map Prod.snd ++ (sent moves s).filter (·.kind ∉ s.site.sink.failing) := by
  induction moves generalizing s with
  | nil => exact (List.append_nil _).symm
  | cons x rest ih =>
    rw [run, ih, x.perform_sent, x.perform_failing, sent, List.filter_append, List.append_assoc]

end Session

/-! ### The reason -/

namespace Shutdown

theorem trigger_of_some {s : Shutdown} {first : End} (h : s.reason = some first) (e : End) :
    s.trigger e = (false, s) := by
  rw [trigger, h]

theorem trigger_of_none {s : Shutdown} (h : s.reason = none) (e : End) :
    s.trigger e = (true, ⟨some e⟩) := by
  rw [trigger, h]

end Shutdown

namespace Session

/-- A reason that stands is not given up, and no other one counts. -/
theorem run_of_reason (moves : List Move) {s : Session} {e : End} (h : s.shutdown.reason = some e) :
    (run moves s).shutdown.reason = some e ∧ ∀ p ∈ triggers moves s, p.2 = false := by
  induction moves generalizing s with
  | nil => exact ⟨h, nofun⟩
  | cons x rest ih =>
    have hafter : (x.perform s).shutdown = s.shutdown := by
      rw [x.perform_shutdown]
      cases x.given? s with
      | none => rfl
      | some other => exact congrArg Prod.snd (Shutdown.trigger_of_some h other)
    obtain ⟨hreason, hfalse⟩ := ih (hafter ▸ h)
    refine ⟨hreason, fun p hp => ?_⟩
    rcases List.mem_append.mp hp with hx | hrest
    · obtain ⟨other, -, rfl⟩ := Option.map_eq_some_iff.mp (Option.mem_toList.mp hx)
      exact congrArg Prod.fst (Shutdown.trigger_of_some h other)
    · exact hfalse p hrest

/-- **The first reason that is given stands**, and is the only one of which this is told. -/
theorem run_of_no_reason (moves : List Move) {s : Session} (h : s.shutdown.reason = none) :
    (run moves s).shutdown.reason = (triggers moves s).head?.map Prod.fst ∧
      (∀ p ∈ (triggers moves s).head?, p.2 = true) ∧ ∀ p ∈ (triggers moves s).tail, p.2 = false := by
  induction moves generalizing s with
  | nil => exact ⟨h, nofun, nofun⟩
  | cons x rest ih =>
    have hafter := x.perform_shutdown s
    rw [run, triggers]
    cases hgiven : x.given? s with
    | none =>
      rw [hgiven] at hafter
      exact ih (hafter ▸ h)
    | some e =>
      rw [hgiven, Option.elim, Shutdown.trigger_of_none h] at hafter
      obtain ⟨hreason, hfalse⟩ := run_of_reason rest (congrArg Shutdown.reason hafter)
      refine ⟨hreason, ?_, hfalse⟩
      rintro p ⟨⟩
      exact congrArg Prod.fst (Shutdown.trigger_of_none h e)

end Session

/-! ### The schedule -/

namespace Session

theorem earliest_mem {α : Type} {l : List (Instant × α)} {p : Instant × α}
    (h : earliest l = some p) : p ∈ l := by
  induction l generalizing p with
  | nil => cases h
  | cons q rest ih =>
    rw [earliest] at h
    cases hrest : earliest rest with
    | none =>
      rw [hrest] at h
      cases h
      exact List.mem_cons_self
    | some r =>
      simp only [hrest] at h
      split at h
      · cases h
        exact List.mem_cons_of_mem q (ih hrest)
      · cases h
        exact List.mem_cons_self

/-- **What runs by the schedule makes moves when they are due.** -/
theorem runFor_eq_run (steps : Nat) (deadline : Instant) (s : Session) :
    ∃ moves, runFor steps deadline s = run moves s ∧ Timely moves s := by
  have hpass (s : Session) : ∃ moves,
      { s with site := { s.site with now := max s.now deadline } } = run moves s ∧ Timely moves s :=
    ⟨[.pass (max s.now deadline)], rfl, Nat.le_max_left _ _, trivial⟩
  induction steps generalizing s with
  | zero => exact hpass s
  | succ steps ih =>
    rw [runFor]
    cases hnext : earliest s.agenda with
    | none => exact hpass s
    | some next =>
      obtain ⟨moment, agent⟩ := next
      by_cases hdue : moment ≤ deadline
      · obtain ⟨moves, hrun, htimely⟩ := ih (s.step moment agent)
        simp only [if_pos hdue]
        exact ⟨.turn moment agent :: moves, hrun, ⟨_, earliest_mem hnext, rfl, Nat.le_refl _⟩, htimely⟩
      · simp only [if_neg hdue]
        exact hpass s

theorem runOut_eq_run (steps : Nat) (s : Session) :
    ∃ moves, runOut steps s = run moves s ∧ Timely moves s := by
  induction steps generalizing s with
  | zero => exact ⟨[], rfl, trivial⟩
  | succ steps ih =>
    rw [runOut]
    cases hclosed : s.isClosed with
    | true => exact ⟨[], by rw [if_pos rfl]; rfl, trivial⟩
    | false =>
      cases hnext : earliest s.agenda with
      | none => exact ⟨[], rfl, trivial⟩
      | some next =>
        obtain ⟨moment, agent⟩ := next
        obtain ⟨moves, hrun, htimely⟩ := ih (s.step moment agent)
        exact ⟨.turn moment agent :: moves, hrun, ⟨_, earliest_mem hnext, rfl, Nat.le_refl _⟩, htimely⟩

end Session

end Pickaxe.Play
