import Pickaxe.Proofs.Mining.Attendance
import Pickaxe.Proofs.Play.Coherence

/-! How a session ends.

Once there is a reason to end, the loop drops the commands, stops mining and waits for the miners, and
these leave one after another. How far they have to go falls in every round in which each of them
takes a turn (`Descent.rounds_le`), and no other move adds to it. `session_ends` puts it together: a
session is closed for the first reason that was given, with nothing left at work and nothing sent any
more, and it does come to that. -/
namespace Pickaxe.Play

open World (Event)

/-- The turns of the loop until it waits for the miners, once there is a reason to end. -/
def Stage.ahead : Stage → Nat
  | .polling => 5
  | .answering .. => 4
  | .listening => 3
  | .dropping _ => 2
  | .stopping _ => 1
  | .closing _ | .closed .. => 0

theorem Stage.ahead_le (stage : Stage) : stage.ahead ≤ 5 := by
  cases stage <;> simp [ahead]

theorem Stage.hasStopped_of_ahead {stage : Stage} (h : stage.ahead = 0) :
    stage.hasStopped = true := by
  cases stage with
  | closing | closed => rfl
  | listening | polling | answering | dropping | stopping => cases h

theorem Stage.ahead_of_hasStopped {stage : Stage} (h : stage.hasStopped = true) :
    stage.ahead = 0 := by
  cases stage with
  | closing | closed => rfl
  | listening | polling | answering | dropping | stopping => cases h

namespace Session

variable {s : Session}

/-! ### Rounds -/

/-- The loop takes a turn, and every miner that has not left. -/
def Round (moves : List Move) (s : Session) : Prop :=
  (∃ moment, .turn moment .loop ∈ moves) ∧
    ∀ runner, s.site.machine.stageOf runner ≠ .gone → ∃ moment, .turn moment (.miner runner) ∈ moves

/-- Round after round. -/
def Fair : List (List Move) → Session → Prop
  | [], _ => True
  | round :: rest, s => Round round s ∧ Fair rest (run round s)

theorem fair_append {first rest : List (List Move)} {s : Session} :
    Fair (first ++ rest) s ↔ Fair first s ∧ Fair rest (run first.flatten s) := by
  induction first generalizing s with
  | nil => exact (and_iff_right trivial).symm
  | cons round first ih =>
    rw [List.cons_append, Fair, ih, Fair, List.flatten_cons, run_append, and_assoc]

/-- A measure of sessions that no move raises, and that some moves lower. -/
structure Descent where
  Holds : Session → Prop
  measure : Session → Nat
  Lowers : Move → Prop
  kept : ∀ (s : Session) (x : Move), Holds s → Holds (x.perform s)
  le : ∀ (s : Session) (x : Move), Holds s → measure (x.perform s) ≤ measure s
  lt : ∀ (s : Session) (x : Move), Holds s → Lowers x → measure s ≠ 0 → measure (x.perform s) < measure s

namespace Descent

variable (d : Descent)

theorem run_le (h : d.Holds s) (moves : List Move) :
    d.Holds (run moves s) ∧ d.measure (run moves s) ≤ d.measure s := by
  induction moves generalizing s with
  | nil => exact ⟨h, Nat.le_refl _⟩
  | cons x rest ih =>
    obtain ⟨hrest, hle⟩ := ih (d.kept s x h)
    exact ⟨hrest, Nat.le_trans hle (d.le s x h)⟩

theorem run_lt (h : d.Holds s) {moves : List Move} (hmoves : ∃ x ∈ moves, d.Lowers x)
    (hs : d.measure s ≠ 0) : d.measure (run moves s) < d.measure s := by
  obtain ⟨x, hx, hlowers⟩ := hmoves
  obtain ⟨before, rest, rfl⟩ := List.append_of_mem hx
  obtain ⟨hmiddle, hbefore⟩ := d.run_le h before
  rw [run_append, run]
  have hrest := (d.run_le (d.kept _ x hmiddle) rest).2
  by_cases hzero : d.measure (run before s) = 0
  · have hlast := d.le _ x hmiddle
    omega
  · have hlast := d.lt _ x hmiddle hlowers hzero
    omega

/-- **Each round lowers the measure**, if rounds have a move that does. -/
theorem rounds_le (h : d.Holds s) {rounds : List (List Move)} (hfair : Fair rounds s)
    (hlowers : ∀ moves s, Round moves s → d.measure s ≠ 0 → ∃ x ∈ moves, d.Lowers x) :
    d.measure (run rounds.flatten s) ≤ d.measure s - rounds.length := by
  induction rounds generalizing s with
  | nil => exact Nat.le_refl _
  | cons round rest ih =>
    rw [List.flatten_cons, run_append, List.length_cons]
    obtain ⟨hround, hle⟩ := d.run_le h round
    have hrest := ih hround hfair.2
    by_cases hzero : d.measure s = 0
    · omega
    · have hlt := d.run_lt h (hlowers round s hfair.1 hzero) hzero
      omega

theorem rounds_eq_zero (h : d.Holds s) {rounds : List (List Move)} (hfair : Fair rounds s)
    (hlowers : ∀ moves s, Round moves s → d.measure s ≠ 0 → ∃ x ∈ moves, d.Lowers x)
    (hlength : d.measure s ≤ rounds.length) : d.measure (run rounds.flatten s) = 0 := by
  have hle := d.rounds_le h hfair hlowers
  omega

end Descent

theorem ahead_loopStep {e : End} (hreason : s.shutdown.reason = some e) :
    s.loopStep.stage.ahead < s.stage.ahead ∨
      s.stage.hasStopped = true ∧ s.loopStep.stage.hasStopped = true := by
  generalize hafter : s.loopStep = after
  cases looped_of_loopStep hafter with
  | told hstage =>
    rw [hstage]
    exact .inl (Nat.lt_succ_self 2)
  | untold _ hnone =>
    rw [hreason] at hnone
    cases hnone
  | interrupted hstage =>
    rw [hstage]
    exact .inl (show 2 < 5 by decide)
  | @handled event rest hstage =>
    rw [hstage]
    rcases handle_stage event { s with stage := .listening, events := rest } with hsame | ⟨_, hanswer⟩
    · rw [hsame]
      exact .inl (show 3 < 5 by decide)
    · rw [hanswer]
      exact .inl (Nat.lt_succ_self 4)
  | ended hstage | idle hstage =>
    rw [hstage]
    exact .inl (show 3 < 5 by decide)
  | answered hstage =>
    rw [hstage]
    exact .inl (Nat.lt_succ_self 3)
  | dropped hstage =>
    rw [hstage]
    exact .inl (Nat.lt_succ_self 1)
  | stopped hstage =>
    rw [hstage]
    exact .inl Nat.one_pos
  | closed hstage =>
    rw [hstage]
    exact .inr ⟨rfl, rfl⟩
  | waiting hstage | past hstage =>
    rw [hstage]
    exact .inr ⟨rfl, rfl⟩

theorem isClosed_of_stage {e : End} {moment : Instant} (h : s.stage = .closed e moment) :
    s.isClosed = true := by
  rw [isClosed, h]

theorem exists_of_isClosed (h : s.isClosed = true) : ∃ e moment, s.stage = .closed e moment := by
  rw [isClosed] at h
  cases hstage : s.stage with
  | closed e moment => exact ⟨e, moment, rfl⟩
  | listening | polling | answering | dropping | stopping | closing =>
    rw [hstage] at h
    cases h

theorem hasStopped_perform (h : s.stage.hasStopped = true) {e : End}
    (hreason : s.shutdown.reason = some e) (x : Move) : (x.perform s).stage.hasStopped = true := by
  rcases x.loop_or with ⟨moment, rfl⟩ | hother
  · rcases (s.since moment).ahead_loopStep hreason with hlt | ⟨-, hafter⟩
    · rw [show (s.since moment).stage.ahead = 0 from Stage.ahead_of_hasStopped h] at hlt
      exact absurd hlt (Nat.not_lt_zero _)
    · exact hafter
  · rw [Move.perform_stage hother]
    exact h

/-- The loop comes to wait for the miners. -/
def loopDescent (e : End) : Descent where
  Holds s := s.shutdown.reason = some e
  measure s := s.stage.ahead
  Lowers x := ∃ moment, x = .turn moment .loop
  kept s x h := (run_of_reason [x] h).1
  le s x h := by
    rcases x.loop_or with ⟨moment, rfl⟩ | hother
    · rcases (s.since moment).ahead_loopStep h with hlt | ⟨-, hafter⟩
      · exact Nat.le_of_lt hlt
      · exact Nat.le_trans (Nat.le_of_eq (Stage.ahead_of_hasStopped hafter)) (Nat.zero_le _)
    · exact Nat.le_of_eq (congrArg Stage.ahead (Move.perform_stage hother s))
  lt s x h hx hs := by
    obtain ⟨moment, rfl⟩ := hx
    rcases (s.since moment).ahead_loopStep h with hlt | ⟨hstopped, -⟩
    · exact hlt
    · exact absurd (Stage.ahead_of_hasStopped hstopped) hs

/-- A miner comes to leave. -/
def minerDescent (e : End) (runner : Mining.RunnerId) : Descent where
  Holds s := s.Coherent ∧ s.shutdown.reason = some e ∧ s.stage.hasStopped = true
  measure s := (s.site.machine.stageOf runner).remaining
  Lowers x := ∃ moment, x = .turn moment (.miner runner)
  kept s x h := ⟨h.1.perform x, (run_of_reason [x] h.2.1).1, hasStopped_perform h.2.2 h.2.1 x⟩
  le s x h := by
    obtain ⟨hcoherent, -, hstopped⟩ := h
    rw [x.perform_machine]
    rcases hcoherent.machineMoves_cases hstopped x with hnone | ⟨moment, other, -, hturn⟩
    · rw [hnone]
      exact Nat.le_refl _
    · rw [hturn]
      exact ((hcoherent.dismissed hstopped).turn moment other).2.1 runner
  lt s x h hx hs := by
    obtain ⟨hcoherent, -, hstopped⟩ := h
    obtain ⟨moment, rfl⟩ := hx
    refine ((hcoherent.dismissed hstopped).turn moment runner).2.2 fun hgone => hs ?_
    rw [hgone]
    rfl

/-- The loop sees that all have left. -/
def closeDescent (e : End) : Descent where
  Holds s := s.Coherent ∧ s.shutdown.reason = some e ∧ s.stage.hasStopped = true ∧
    s.site.machine.isQuiet = true
  measure s := if s.isClosed then 0 else 1
  Lowers x := ∃ moment, x = .turn moment .loop
  kept s x h := ⟨h.1.perform x, (run_of_reason [x] h.2.1).1, hasStopped_perform h.2.2.1 h.2.1 x,
    h.1.quiet_perform h.2.2.1 h.2.2.2 x⟩
  le s x h := by
    by_cases hclosed : s.isClosed = true
    · obtain ⟨first, moment, hstage⟩ := exists_of_isClosed hclosed
      have hafter : (x.perform s).stage = .closed first moment := (h.1.sent_of_closed hstage [x]).2
      rw [isClosed_of_stage hafter]
      exact Nat.zero_le _
    · rw [if_neg hclosed]
      split
      · exact Nat.zero_le _
      · exact Nat.le_refl _
  lt s x h hx hs := by
    obtain ⟨-, -, hstopped, hquiet⟩ := h
    obtain ⟨moment, rfl⟩ := hx
    have hopen : s.isClosed = false := by
      cases hclosed : s.isClosed with
      | false => rfl
      | true =>
        rw [hclosed] at hs
        exact absurd rfl hs
    suffices hafter : ((s.since moment).loopStep).isClosed = true by
      rw [hopen]
      rw [show (Move.perform (.turn moment .loop) s).isClosed = true from hafter]
      exact Nat.one_pos
    generalize hlast : (s.since moment).loopStep = after
    cases looped_of_loopStep hlast with
    | closed => rfl
    | waiting _ hwaiting =>
      rw [show s.site.machine.isQuiet = false from hwaiting] at hquiet
      cases hquiet
    | past hstage =>
      rw [show s.isClosed = true from isClosed_of_stage hstage] at hopen
      cases hopen
    | told hstage | untold hstage | interrupted hstage | handled hstage | ended hstage | idle hstage
    | answered hstage | dropped hstage | stopped hstage =>
      rw [show s.stage = _ from hstage] at hstopped
      cases hstopped

theorem hasStopped_run (h : s.stage.hasStopped = true) {e : End}
    (hreason : s.shutdown.reason = some e) (moves : List Move) :
    (run moves s).stage.hasStopped = true := by
  have hle : (run moves s).stage.ahead ≤ s.stage.ahead := ((loopDescent e).run_le hreason moves).2
  rw [Stage.ahead_of_hasStopped h] at hle
  exact Stage.hasStopped_of_ahead (Nat.le_zero.mp hle)

theorem hasStopped_of_rounds {e : End} (hreason : s.shutdown.reason = some e)
    {rounds : List (List Move)} (hfair : Fair rounds s) (hlength : 5 ≤ rounds.length) :
    (run rounds.flatten s).stage.hasStopped = true := by
  refine Stage.hasStopped_of_ahead ((loopDescent e).rounds_eq_zero hreason hfair ?_ ?_)
  · exact fun _ _ hround _ => hround.1.elim fun moment hmem => ⟨_, hmem, moment, rfl⟩
  · exact Nat.le_trans s.stage.ahead_le hlength

theorem isQuiet_of_rounds (h : s.Coherent) (horderly : s.site.machine.Orderly) {e : End}
    (hreason : s.shutdown.reason = some e) (hstopped : s.stage.hasStopped = true)
    {rounds : List (List Move)} (hfair : Fair rounds s) (hlength : 6 ≤ rounds.length) :
    (run rounds.flatten s).site.machine.isQuiet = true := by
  refine (run_orderly horderly rounds.flatten).isQuiet fun runner => Mining.Stage.remaining_eq_zero ?_
  refine (minerDescent e runner).rounds_eq_zero ⟨h, hreason, hstopped⟩ hfair ?_ ?_
  · intro _ _ hround hs
    obtain ⟨moment, hmem⟩ := hround.2 runner fun hgone => hs (congrArg Mining.Stage.remaining hgone)
    exact ⟨_, hmem, moment, rfl⟩
  · exact Nat.le_trans (horderly.remaining_le runner) hlength

theorem isClosed_of_quiet (h : s.Coherent) {e : End} (hreason : s.shutdown.reason = some e)
    (hstopped : s.stage.hasStopped = true) (hquiet : s.site.machine.isQuiet = true)
    {rounds : List (List Move)} (hfair : Fair rounds s) (hlength : 1 ≤ rounds.length) :
    (run rounds.flatten s).isClosed = true := by
  have hzero : (if (run rounds.flatten s).isClosed then 0 else 1) = 0 := by
    refine (closeDescent e).rounds_eq_zero ⟨h, hreason, hstopped, hquiet⟩ hfair ?_ ?_
    · exact fun _ _ hround _ => hround.1.elim fun moment hmem => ⟨_, hmem, moment, rfl⟩
    · refine Nat.le_trans (show (if s.isClosed then 0 else 1) ≤ 1 from ?_) hlength
      split <;> decide
  by_contra hopen
  rw [if_neg hopen] at hzero
  cases hzero

/-- **Within twelve rounds of a reason to end the session is closed.** -/
theorem isClosed_of_rounds (h : s.Coherent) (horderly : s.site.machine.Orderly) {e : End}
    (hreason : s.shutdown.reason = some e) {rounds : List (List Move)} (hlength : 12 ≤ rounds.length)
    (hfair : Fair rounds s) : (run rounds.flatten s).isClosed = true := by
  -- Five rounds for the loop to stop mining, six for the miners, and one to see that they left.
  obtain ⟨first, middle, last, rfl, hfirst, hmiddle, hlast⟩ : ∃ first middle last,
      rounds = first ++ (middle ++ last) ∧ first.length = 5 ∧ middle.length = 6 ∧
        1 ≤ last.length := by
    refine ⟨rounds.take 5, (rounds.drop 5).take 6, (rounds.drop 5).drop 6, ?_, ?_, ?_, ?_⟩
    · rw [List.take_append_drop, List.take_append_drop]
    all_goals
      simp only [List.length_take, List.length_drop]
      omega
  rw [fair_append, fair_append] at hfair
  rw [List.flatten_append, List.flatten_append, run_append, run_append]
  obtain ⟨hdrop, hleave, hclose⟩ := hfair
  have hcoherent := h.run first.flatten
  have hstopped := hasStopped_of_rounds hreason hdrop (Nat.le_of_eq hfirst.symm)
  have hstands := (run_of_reason first.flatten hreason).1
  have hquiet := isQuiet_of_rounds hcoherent (run_orderly horderly first.flatten) hstands hstopped
    hleave (Nat.le_of_eq hmiddle.symm)
  exact isClosed_of_quiet (hcoherent.run middle.flatten) (run_of_reason middle.flatten hstands).1
    (hasStopped_run hstopped hstands middle.flatten) hquiet hclose hlast

/-- **How a session ends.** Let a new session, with no interval of its mining zero and no more ticks
than can be counted, have made any moves.

* The reason that stands is the first one that was given; only then somebody was told that it was the
  first, and it stands ever after.
* What was sent has reached the server in its order, but for the kinds that do not get through.
* If the session is closed, it is for this reason. Then no command and no miner is left, mining is not
  active, and whatever moves follow, nothing is sent, nothing reaches the server and the session stays as
  it is.
* If a reason stands, the session will be closed within twelve rounds in which the loop, and every
  miner that has not left, takes a turn. -/
theorem session_ends (settings : Settings) (sink : Sink) (interrupt : Option Instant)
    (hdurability : settings.mining.validated.durability ≠ 0) (moves : List Move)
    (hcounts : Mining.Machine.Counts (machineMoves moves (new settings sink interrupt))
      (.new settings.mining)) :
    let first := new settings sink interrupt
    let given := triggers moves first
    let s := run moves first
    (s.shutdown.reason = given.head?.map Prod.fst ∧
      (∀ p ∈ given.head?, p.2 = true) ∧ (∀ p ∈ given.tail, p.2 = false) ∧
      ∀ rest e, s.shutdown.reason = some e → (run rest s).shutdown.reason = some e) ∧
    s.site.sink.sent.map Prod.snd =
      sink.sent.map Prod.snd ++ (sent moves first).filter (·.kind ∉ sink.failing) ∧
    (∀ e moment, s.stage = .closed e moment →
      s.shutdown.reason = some e ∧ s.tasks = [] ∧
        (∀ t ∈ s.site.machine.tasks, t.stage = .gone) ∧
        s.site.machine.session.state ∈ [.idle, .exhausted, .stopped] ∧
        ∀ rest, sent rest s = [] ∧
          (run rest s).site.sink.sent.map Prod.snd = s.site.sink.sent.map Prod.snd ∧
          (run rest s).stage = .closed e moment) ∧
    (s.shutdown.reason ≠ none → ∀ rounds, 12 ≤ rounds.length → Fair rounds s →
      (run rounds.flatten s).isClosed = true) := by
  intro first given s
  have hcoherent : s.Coherent := (new_coherent settings sink interrupt).run moves
  have hmachine : s.site.machine =
      Mining.Machine.run (machineMoves moves first) (.new settings.mining) := run_machine moves first
  have hworking : s.site.machine.Working := by
    rw [hmachine]
    exact (Mining.Machine.new_working settings.mining hdurability).run hcounts
  obtain ⟨hreason, htrue, hfalse⟩ := run_of_no_reason moves (s := first) rfl
  refine ⟨⟨hreason, htrue, hfalse, fun rest e he => (run_of_reason rest he).1⟩, run_sink moves first, ?_, ?_⟩
  · intro e moment hclosed
    have hgone := Mining.Machine.isQuiet_iff.mp (hcoherent.quiet e moment hclosed)
    refine ⟨hcoherent.reason e (by rw [hclosed]; rfl), hcoherent.dropped (by rw [hclosed]; rfl), hgone,
      ?_, fun rest => ?_⟩
    -- An active session would have its task.
    have hover : s.site.machine.session.state.isActive ≠ true := fun hactive => by
      obtain ⟨t, ht⟩ := hworking.manned hactive
      exact ht.present (hgone t ht.mem)
    generalize s.site.machine.session.state = state at hover ⊢
    cases state with
    | idle | exhausted | stopped => simp
    | activating | running => exact absurd rfl hover
    obtain ⟨hsilent, hstage⟩ := hcoherent.sent_of_closed hclosed rest
    refine ⟨hsilent, ?_, hstage⟩
    rw [run_sink, hsilent, List.filter_nil, List.append_nil]
  · intro hgiven rounds hlength hfair
    obtain ⟨e, he⟩ := Option.ne_none_iff_exists'.mp hgiven
    exact isClosed_of_rounds hcoherent hworking.orderly he hlength hfair

/-- Mining starts and ends by commands. The interrupt that comes after the farewell is too late to be the
reason, and the session closes once the miner has left. -/
theorem session_ends_interrupted :
    let settings : Settings := ⟨false, 0, 0, .standard⟩
    let first := new settings (.new 0 []) none
    let command (index : Nat) : Move := .turn 0 (.command index)
    let moves := [.deliver (.chat "!mine"), .deliver (.chat "!stop")] ++
      List.replicate 4 (.turn 0 .loop) ++ List.replicate 2 (command 0) ++
      List.replicate 4 (command 1) ++ [.trigger .interrupted] ++ List.replicate 3 (.turn 0 .loop) ++
      List.replicate 2 (.turn 0 (.miner 1)) ++ [.turn 0 .loop]
    let s := run moves first
    settings.mining.validated.durability ≠ 0 ∧
      Mining.Machine.Counts (machineMoves moves first) (.new settings.mining) ∧
      triggers moves first = [(.stopped, true), (.interrupted, false)] ∧
      s.shutdown.reason = some .stopped ∧ s.stage = .closed .stopped 0 ∧
      s.site.machine.tasks.length = 1 ∧ (∀ t ∈ s.site.machine.tasks, t.stage = .gone) ∧
      s.site.sink.sent.map Prod.snd = [.chat Mining.Config.standard.startLine, .chat farewell] ∧
      ∀ rest, sent rest s = [] ∧ (run rest s).site.sink.sent.map Prod.snd = s.site.sink.sent.map Prod.snd ∧
        (run rest s).stage = .closed .stopped 0 := by
  intro settings first command moves s
  have hdurability : settings.mining.validated.durability ≠ 0 := by decide
  have hcounts : Mining.Machine.Counts (machineMoves moves first) (.new settings.mining) := by decide
  have htriggers : triggers moves first = [(.stopped, true), (.interrupted, false)] := by decide
  have hclosed : s.stage = .closed .stopped 0 := by decide
  have hlength : s.site.machine.tasks.length = 1 := by decide
  have hsent : sent moves first = [.chat Mining.Config.standard.startLine, .chat farewell] := by decide
  -- From here on the moves are any that lead to this.
  clear_value moves
  obtain ⟨-, hreached, hends, -⟩ := session_ends settings (.new 0 []) none hdurability moves hcounts
  obtain ⟨hreason, -, hgone, -, hlast⟩ := hends _ _ hclosed
  refine ⟨hdurability, hcounts, htriggers, hreason, hclosed, hlength, hgone, ?_, hlast⟩
  rw [hsent] at hreached
  exact hreached

end Session

end Pickaxe.Play
