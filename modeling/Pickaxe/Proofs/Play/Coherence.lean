import Pickaxe.Proofs.Mining.Leaving
import Pickaxe.Proofs.Play.Moves

/-! What the stages of a session say.

The stage of a session says how far it has come with the end: which reason it ends for, whether its
commands are dropped, and whether mining has been stopped for good. A session is `Coherent` when it is
new and stays so in every move. That it drops the commands before it stops mining keeps an activation
from coming in between. -/
namespace Pickaxe.Play

open World (Event)

/-! ### The stages of the end -/

namespace Stage

/-- The reason that the session ends for. -/
def ending? : Stage → Option End
  | .dropping e | .stopping e | .closing e | .closed e _ => some e
  | .listening | .polling | .answering .. => none

/-- Whether the commands have been dropped. -/
def hasDropped : Stage → Bool
  | .stopping _ | .closing _ | .closed .. => true
  | .listening | .polling | .answering .. | .dropping _ => false

/-- Whether mining has been stopped for good. -/
def hasStopped : Stage → Bool
  | .closing _ | .closed .. => true
  | .listening | .polling | .answering .. | .dropping _ | .stopping _ => false

theorem hasDropped_of_hasStopped {stage : Stage} (h : stage.hasStopped = true) :
    stage.hasDropped = true := by
  cases stage with
  | closing | closed => rfl
  | listening | polling | answering | dropping | stopping => cases h

theorem of_ending?_eq_none {stage : Stage} (h : stage.ending? = none) :
    stage.hasDropped = false ∧ stage.hasStopped = false := by
  cases stage with
  | listening | polling | answering => exact ⟨rfl, rfl⟩
  | dropping | stopping | closing | closed => cases h

end Stage

theorem Move.loop_or (x : Move) :
    (∃ moment, x = .turn moment .loop) ∨ ∀ moment, x ≠ .turn moment .loop :=
  (Classical.em _).imp_right fun hx moment heq => hx ⟨moment, heq⟩

/-- Only the loop changes its stage. -/
theorem Move.perform_stage {x : Move} (hx : ∀ moment, x ≠ .turn moment .loop) (s : Session) :
    (x.perform s).stage = s.stage := by
  cases x with
  | deliver e =>
    obtain ⟨events, hframe⟩ := s.deliver_frame e
    rw [perform, hframe]
  | endStream | trigger | pass => rfl
  | loaded moment index =>
    obtain ⟨tasks, hframe⟩ := (s.since moment).loaded_frame index
    rw [perform, hframe]
    rfl
  | turn moment agent =>
    cases agent with
    | loop => exact absurd rfl (hx moment)
    | miner => rfl
    | command index =>
      rw [perform, Session.step]
      generalize hafter : Session.commandStep index _ = after
      cases Session.commanded_of_commandStep hafter with
      | absent => rfl
      | @performed t op => cases op <;> rfl

/-- Only the loop takes up commands. -/
theorem Move.perform_tasks_of_nil {x : Move} (hx : ∀ moment, x ≠ .turn moment .loop) {s : Session}
    (h : s.tasks = []) : (x.perform s).tasks = [] := by
  refine List.eq_nil_iff_forall_not_mem.mpr fun t ht => ?_
  rcases mem_tasks_perform ht with hold | ⟨e, hhandled, -⟩ | ⟨u, hu, -⟩
  · exact List.not_mem_nil (h ▸ hold)
  · cases x with
    | turn moment agent =>
      cases agent with
      | loop => exact hx moment rfl
      | command | miner => cases hhandled
    | deliver | endStream | trigger | pass | loaded => cases hhandled
  · exact List.not_mem_nil (h ▸ hu)

/-- Only the loop lets the miners go. -/
theorem Move.release_not_mem {x : Move} (hx : ∀ moment, x ≠ .turn moment .loop) (s : Session) :
    .release ∉ x.machineMoves s := by
  cases x with
  | deliver | endStream | trigger | pass | loaded => exact List.not_mem_nil
  | turn moment agent =>
    cases agent with
    | loop => exact absurd rfl (hx moment)
    | miner runner => exact (by simp [machineMoves])
    | command index =>
      rw [machineMoves]
      cases s.op? index with
      | none => exact List.not_mem_nil
      | some op => cases op <;> simp [Session.opMoves]

namespace Session

/-- The stage of a session fits what it says and what is still at work. -/
structure Coherent (s : Session) : Prop where
  reason : ∀ e, s.stage.ending? = some e → s.shutdown.reason = some e
  dropped : s.stage.hasDropped = true → s.tasks = []
  dismissed : s.stage.hasStopped = true → s.site.machine.Dismissed
  listed : s.stage.hasStopped = false → s.site.machine.Listed
  quiet : ∀ e moment, s.stage = .closed e moment → s.site.machine.isQuiet = true

theorem new_coherent (settings : Settings) (sink : Sink) (interrupt : Option Instant) :
    (new settings sink interrupt).Coherent :=
  ⟨nofun, nofun, nofun, fun _ => List.forall_mem_nil _, nofun⟩

variable {s : Session}

/-- An event is answered, or it leaves the loop where it is. -/
theorem handle_stage (e : Event) (s : Session) :
    (s.handle e).stage = s.stage ∨ ∃ action, (s.handle e).stage = .answering s.now action := by
  cases e with
  | joined =>
    rw [handle]
    split <;> exact .inl rfl
  | chat line =>
    rw [handle]
    split <;> exact .inl rfl
  | teleport pose id => exact .inr ⟨_, rfl⟩
  | death => exact .inr ⟨_, rfl⟩
  | health | disconnected => exact .inl rfl

theorem op?_of_nil (h : s.tasks = []) (index : Nat) : s.op? index = none := by
  rw [op?, h]
  rfl

namespace Coherent

/-- Before mining is stopped every task is on the list. -/
theorem of_working (hworks : s.stage.hasStopped = false) (hlisted : s.site.machine.Listed)
    (hreason : ∀ e, s.stage.ending? = some e → s.shutdown.reason = some e)
    (hdropped : s.stage.hasDropped = true → s.tasks = []) : s.Coherent where
  reason := hreason
  dropped := hdropped
  dismissed h := by
    rw [hworks] at h
    cases h
  listed _ := hlisted
  quiet e moment he := by
    rw [he] at hworks
    cases hworks

theorem of_ending?_eq_none (hopen : s.stage.ending? = none) (hlisted : s.site.machine.Listed) :
    s.Coherent := by
  obtain ⟨hdropped, hstopped⟩ := Stage.of_ending?_eq_none hopen
  refine of_working hstopped hlisted (fun e he => ?_) fun h => ?_
  · rw [hopen] at he
    cases he
  · rw [hdropped] at h
    cases h

theorem loopStep (h : s.Coherent) : s.loopStep.Coherent := by
  have hlisted {stage : Stage} (hstage : s.stage = stage) (hworks : stage.hasStopped = false) :
      s.site.machine.Listed := h.listed (hstage ▸ hworks)
  generalize hafter : s.loopStep = after
  cases looped_of_loopStep hafter with
  | told hstage hreason =>
    refine of_working rfl (hlisted hstage rfl) ?_ fun hdropped => by cases hdropped
    rintro e ⟨⟩
    exact hreason
  | interrupted hstage =>
    refine of_working rfl (hlisted hstage rfl) ?_ fun hdropped => by cases hdropped
    rintro e ⟨⟩
    cases hreason : s.shutdown.reason with
    | none => simp [trigger, Shutdown.trigger_of_none hreason]
    | some first => simp [trigger, Shutdown.trigger_of_some hreason, hreason]
  | @handled e rest hstage =>
    obtain ⟨pose, hsite⟩ := handle_site e { s with stage := .listening, events := rest }
    refine of_ending?_eq_none ?_ ?_
    · rcases handle_stage e { s with stage := .listening, events := rest } with hsame | ⟨action, hanswer⟩
      · rw [hsame]
        rfl
      · rw [hanswer]
        rfl
    · rw [hsite]
      exact hlisted hstage rfl
  | untold hstage | ended hstage | idle hstage | answered hstage =>
    exact of_ending?_eq_none rfl (hlisted hstage rfl)
  | dropped hstage =>
    exact of_working rfl (hlisted hstage rfl) (fun first he => h.reason first (hstage ▸ he)) fun _ => rfl
  | stopped hstage =>
    exact {
      reason := fun first he => h.reason first (hstage ▸ he)
      dropped := fun _ => h.dropped (hstage ▸ rfl)
      dismissed := fun _ => (hlisted hstage rfl).dismissed
      listed := fun hworks => by cases hworks
      quiet := fun _ _ hclosed => by cases hclosed }
  | closed hstage hquiet =>
    exact {
      reason := fun first he => h.reason first (hstage ▸ he)
      dropped := fun _ => h.dropped (hstage ▸ rfl)
      dismissed := fun _ => h.dismissed (hstage ▸ rfl)
      listed := fun hworks => by cases hworks
      quiet := fun _ _ _ => hquiet }
  | waiting | past => exact h

/-- Once mining has been stopped for good, the machine only takes turns. -/
theorem machineMoves_cases (h : s.Coherent) (hstopped : s.stage.hasStopped = true) (x : Move) :
    x.machineMoves s = [] ∨ ∃ moment runner, x = .turn moment (.miner runner) ∧
      x.machineMoves s = [.turn moment runner] := by
  cases x with
  | deliver | endStream | trigger | pass | loaded => exact .inl rfl
  | turn moment agent =>
    cases agent with
    | loop =>
      rw [Move.machineMoves, dismissal]
      cases hstage : s.stage with
      | stopping =>
        rw [hstage] at hstopped
        cases hstopped
      | listening | polling | answering | dropping | closing | closed => exact .inl rfl
    | command index =>
      rw [Move.machineMoves, op?_of_nil (h.dropped (Stage.hasDropped_of_hasStopped hstopped))]
      exact .inl rfl
    | miner runner => exact .inr ⟨moment, runner, rfl, rfl⟩

theorem dismissed_perform (h : s.Coherent) (hstopped : s.stage.hasStopped = true) (x : Move) :
    (x.perform s).site.machine.Dismissed := by
  rw [x.perform_machine]
  rcases h.machineMoves_cases hstopped x with hnone | ⟨moment, runner, -, hturn⟩
  · rw [hnone]
    exact h.dismissed hstopped
  · rw [hturn]
    exact ((h.dismissed hstopped).turn moment runner).1

theorem quiet_perform (h : s.Coherent) (hstopped : s.stage.hasStopped = true)
    (hquiet : s.site.machine.isQuiet = true) (x : Move) :
    (x.perform s).site.machine.isQuiet = true := by
  rw [x.perform_machine]
  rcases h.machineMoves_cases hstopped x with hnone | ⟨moment, runner, -, hturn⟩
  · rw [hnone]
    exact hquiet
  · rw [hturn]
    exact (Mining.Machine.turn_of_isQuiet hquiet moment runner).2

theorem perform (h : s.Coherent) (x : Move) : (x.perform s).Coherent := by
  rcases x.loop_or with ⟨moment, rfl⟩ | hother
  · have hsince : (s.since moment).Coherent := ⟨h.reason, h.dropped, h.dismissed, h.listed, h.quiet⟩
    exact hsince.loopStep
  · have hstage := Move.perform_stage hother s
    refine ⟨fun e he => ?_, fun hdropped => ?_, fun hstopped => ?_, fun hworks => ?_, ?_⟩
    · exact (run_of_reason [x] (h.reason e (hstage ▸ he))).1
    · exact Move.perform_tasks_of_nil hother (h.dropped (hstage ▸ hdropped))
    · exact h.dismissed_perform (hstage ▸ hstopped) x
    · rw [x.perform_machine]
      exact (h.listed (hstage ▸ hworks)).run (Move.release_not_mem hother s)
    · intro e moment hclosed
      rw [hstage] at hclosed
      exact h.quiet_perform (by rw [hclosed]; rfl) (h.quiet e moment hclosed) x

theorem run (h : s.Coherent) (moves : List Move) : (Session.run moves s).Coherent := by
  induction moves generalizing s with
  | nil => exact h
  | cons x rest ih => exact ih (h.perform x)

/-- **After the end nothing is sent.** -/
theorem sent_of_closed (h : s.Coherent) {e : End} {moment : Instant} (hclosed : s.stage = .closed e moment)
    (rest : List Move) : sent rest s = [] ∧ (Session.run rest s).stage = .closed e moment := by
  induction rest generalizing s with
  | nil => exact ⟨rfl, hclosed⟩
  | cons x rest ih =>
    have htasks : s.tasks = [] := h.dropped (by rw [hclosed]; rfl)
    obtain ⟨hnone, hafter⟩ : x.sent? s = none ∧ (x.perform s).stage = .closed e moment := by
      cases x with
      | deliver | endStream | trigger | pass | loaded =>
        exact ⟨rfl, (Move.perform_stage (fun _ heq => by cases heq) s).trans hclosed⟩
      | turn now agent =>
        cases agent with
        | loop =>
          refine ⟨by rw [Move.sent?, answer?, hclosed], ?_⟩
          rw [Move.perform, Session.step]
          generalize hafter : Session.loopStep _ = after
          cases looped_of_loopStep hafter with
          | past => exact hclosed
          | told hstage | untold hstage | interrupted hstage | handled hstage | ended hstage
          | idle hstage | answered hstage | dropped hstage | stopped hstage | closed hstage
          | waiting hstage => cases hstage.symm.trans hclosed
        | command index =>
          refine ⟨?_, (Move.perform_stage (fun _ heq => by cases heq) s).trans hclosed⟩
          rw [Move.sent?, op?_of_nil htasks]
          rfl
        | miner runner =>
          exact ⟨(Mining.Machine.turn_of_isQuiet (h.quiet e moment hclosed) now runner).1,
            (Move.perform_stage (fun _ heq => by cases heq) s).trans hclosed⟩
    rw [sent, hnone]
    exact ih (h.perform x) hafter

end Coherent

end Session

end Pickaxe.Play
