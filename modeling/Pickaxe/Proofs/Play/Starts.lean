import Pickaxe.Proofs.Mining.Stopping
import Pickaxe.Proofs.Play.Moves

/-! Mining after it was stopped.

A command that stops mining leaves the other commands alone. One of them may be about to start mining,
as the one of the first join is while the world loads, and it does so after the stop unless the session
ends before that. `stop_silences_iff` says that this is all: without a new event that starts mining, a
stop keeps the session silent exactly if no start is pending when it comes. -/
namespace Pickaxe.Play

open World (Action Event)

/-- Whether it belongs to a start of mining. -/
def Op.starts : Op → Bool
  | .startMining | .announce _ => true
  | .stopMining | .say _ | .pause _ | .settle _ | .finish _ => false

/-- The message of a start that an op sends. -/
def Op.announced? : Op → Option String
  | .announce line => some line
  | .stopMining | .startMining | .say _ | .pause _ | .settle _ | .finish _ => none

theorem Op.announced?_of_starts {op : Op} (h : op.starts = false) : op.announced? = none := by
  cases op with
  | startMining | announce => cases h
  | stopMining | say | pause | settle | finish => rfl

/-- Whether a command is about to start mining. -/
def Task.starts (t : Task) : Bool := t.left.any Op.starts

/-- The start message that is sent by a move. -/
def Move.announced? : Move → Session → Option String
  | .turn _ (.command index), s => (s.op? index).bind Op.announced?
  | .turn _ .loop, _ | .turn _ (.miner _), _ | .deliver _, _ | .endStream, _ | .trigger _, _
  | .pass _, _ | .loaded .., _ => none

namespace Session

/-- The start messages that are sent by moves. -/
def announced : List Move → Session → List String
  | [], _ => []
  | x :: rest, s => (x.announced? s).toList ++ announced rest (x.perform s)

/-- Whether an event starts mining: the command to, or the first join if mining starts by itself. -/
def beckons (e : Event) (s : Session) : Bool := match e with
  | .joined _ => s.settings.autoMine && !s.autoStarted
  | .chat line => Command.classify line = some .mine
  | .teleport .. | .health .. | .death _ | .disconnected _ => false

/-- No event that starts mining is handled. -/
def Unbeckoned : List Move → Session → Prop
  | [], _ => True
  | x :: rest, s => (∀ e, x.handled? s = some e → s.beckons e = false) ∧ Unbeckoned rest (x.perform s)

/-- Nothing of mining is sent but what was left of plans. -/
def Silent (moves : List Move) (s : Session) : Prop :=
  announced moves s = [] ∧
    ∀ runner, Mining.Machine.sent runner (machineMoves moves s) s.site.machine <+:
      (s.site.machine.stageOf runner).left

end Session

/-! ### Nothing pending -/

theorem Task.starts_head {t : Task} (h : t.starts = false) {op : Op} (hop : t.left.head? = some op) :
    op.starts = false :=
  Bool.eq_false_iff.mpr (List.any_eq_false.mp h op (List.mem_of_head? hop))

theorem Task.starts_of_tail {t u : Task} (h : u.starts = false)
    (hleft : t.left = [] ∨ t.left = u.left.tail) : t.starts = false := by
  rw [starts]
  rcases hleft with hnil | htail
  · rw [hnil]
    rfl
  · rw [htail]
    exact List.any_eq_false.mpr fun op hop => List.any_eq_false.mp h op (List.mem_of_mem_tail hop)

namespace Session

variable {s : Session}

/-- No command is about to start mining. -/
def Unpending (s : Session) : Prop := ∀ t ∈ s.tasks, t.starts = false

/-- An event that does not start mining orders nothing that does. -/
theorem any_of_ordered? {e : Event} (h : s.beckons e = false) {ops : List Op}
    (hops : s.ordered? e = some ops) : ops.any Op.starts = false := by
  cases e with
  | joined =>
    rw [beckons] at h
    rw [ordered?, h] at hops
    cases hops
  | chat line =>
    rw [beckons] at h
    rw [ordered?] at hops
    cases hcommand : Command.classify line with
    | none =>
      rw [hcommand] at hops
      cases hops
    | some command =>
      rw [hcommand] at h hops
      cases hops
      cases command with
      | stop | me => rfl
      | mine => simp at h
  | teleport | health | death | disconnected => cases hops

theorem activate_not_mem_opMoves {op : Op} (h : op.starts = false) {now : Instant}
    {target : World.Block} : .activate now target ∉ s.opMoves op := by
  cases op with
  | startMining | announce => cases h
  | stopMining | say | pause | settle | finish => simp [opMoves]

namespace Unpending

theorem op?_starts (h : s.Unpending) {index : Nat} {op : Op} (hop : s.op? index = some op) :
    op.starts = false := by
  obtain ⟨t, ht, hhead⟩ := Option.bind_eq_some_iff.mp hop
  exact Task.starts_head (h t (List.mem_of_getElem? ht)) hhead

/-- **With nothing pending and no new event, no move starts mining.** -/
theorem perform (h : s.Unpending) {x : Move} (hx : ∀ e, x.handled? s = some e → s.beckons e = false) :
    (x.perform s).Unpending ∧ x.announced? s = none ∧
      ∀ now target, .activate now target ∉ x.machineMoves s := by
  refine ⟨fun t ht => ?_, ?_, ?_⟩
  · rcases Move.mem_tasks_perform ht with hold | ⟨e, hhandled, hordered⟩ | ⟨u, hu, hleft⟩
    · exact h t hold
    · exact any_of_ordered? (hx e hhandled) hordered
    · exact Task.starts_of_tail (h u hu) hleft
  · cases x with
    | turn moment agent =>
      cases agent with
      | command index =>
        rw [Move.announced?]
        cases hop : s.op? index with
        | none => rfl
        | some op => exact Op.announced?_of_starts (h.op?_starts hop)
      | loop | miner => rfl
    | deliver | endStream | trigger | pass | loaded => rfl
  · intro now target hmem
    cases x with
    | turn moment agent =>
      cases agent with
      | command index =>
        rw [Move.machineMoves] at hmem
        cases hop : s.op? index with
        | none => simp [hop] at hmem
        | some op =>
          rw [hop] at hmem
          exact activate_not_mem_opMoves (h.op?_starts hop) hmem
      | loop =>
        rw [Move.machineMoves, dismissal] at hmem
        split at hmem <;> simp at hmem
      | miner => simp [Move.machineMoves] at hmem
    | deliver | endStream | trigger | pass | loaded => cases hmem

theorem run (h : s.Unpending) {rest : List Move} (hrest : Unbeckoned rest s) :
    announced rest s = [] ∧ ∀ now target, .activate now target ∉ machineMoves rest s := by
  induction rest generalizing s with
  | nil => exact ⟨rfl, fun _ _ => List.not_mem_nil⟩
  | cons x rest ih =>
    obtain ⟨hafter, hnone, hmoves⟩ := h.perform hrest.1
    obtain ⟨hannounced, hactivate⟩ := ih hafter hrest.2
    refine ⟨by rw [announced, hnone, hannounced]; rfl, fun now target hmem => ?_⟩
    rcases List.mem_append.mp hmem with hx | hlater
    · exact hmoves now target hx
    · exact hactivate now target hlater

/-- **A stop with nothing pending keeps the session silent.** -/
theorem silent (h : s.Unpending) (horderly : s.site.machine.Orderly)
    (hstop : s.site.machine.session.stopRequested = true) {rest : List Move}
    (hrest : Unbeckoned rest s) : Silent rest s := by
  obtain ⟨hannounced, hactivate⟩ := h.run hrest
  refine ⟨hannounced, fun runner => ?_⟩
  have haccount := horderly.run_account (machineMoves rest s) runner
  rw [Mining.Machine.plans_of_stopRequested runner hactivate hstop, List.flatMap_nil,
    List.append_nil] at haccount
  exact ⟨_, haccount⟩

end Unpending

/-! ### A start that is pending -/

end Session

/-- What a command has left is the end of what a chat command or the first join orders. -/
def Task.Ordered (settings : Settings) (t : Task) : Prop :=
  t.left <:+ .settle settings.worldLoad :: settings.startOps ∨
    ∃ command : Command, t.left <:+ command.ops settings

theorem Task.Ordered.of_tail {settings : Settings} {t u : Task} (h : u.Ordered settings)
    (hleft : t.left = [] ∨ t.left = u.left.tail) : t.Ordered settings := by
  have hsuffix : t.left <:+ u.left := by
    rcases hleft with hnil | htail
    · rw [hnil]
      exact List.nil_suffix
    · rw [htail]
      exact List.tail_suffix _
  exact h.imp hsuffix.trans fun ⟨command, hcommand⟩ => ⟨command, hsuffix.trans hcommand⟩

/-- A start that is pending comes to its message in at most three steps. -/
theorem Task.Ordered.cases_of_starts {settings : Settings} {t : Task} (h : t.Ordered settings)
    (hstarts : t.starts = true) :
    ∃ line, t.left = [.announce line] ∨ t.left = [.startMining, .announce line] ∨
      ∃ d, t.left = [.settle d, .startMining, .announce line] := by
  have hany {ops : List Op} (hops : ops.any Op.starts = false) : ¬ t.left <:+ ops := fun hsuffix => by
    have hnone : t.starts = false :=
      List.any_eq_false.mpr fun op hop => List.any_eq_false.mp hops op (hsuffix.subset hop)
    rw [hnone] at hstarts
    cases hstarts
  have hstart : t.left <:+ .settle settings.worldLoad :: settings.startOps := by
    rcases h with hjoin | ⟨command, hcommand⟩
    · exact hjoin
    · cases command with
      | mine => exact hcommand.trans (List.suffix_cons _ _)
      | stop | me => exact absurd hcommand (hany rfl)
  refine ⟨settings.mining.startLine, ?_⟩
  rcases List.suffix_cons_iff.mp hstart with hall | hlate
  · exact .inr (.inr ⟨settings.worldLoad, hall⟩)
  · rcases List.suffix_cons_iff.mp hlate with hmine | hlast
    · exact .inr (.inl hmine)
    · rcases List.suffix_cons_iff.mp hlast with hannounce | hnil
      · exact .inl hannounce
      · exact absurd hnil (hany (show List.any [] Op.starts = false from rfl))

namespace Session

variable {s : Session}

/-- Some moves in time, without a new event that starts mining, send a start message. -/
def Announces (s : Session) : Prop :=
  ∃ rest, Timely rest s ∧ Unbeckoned rest s ∧ announced rest s ≠ []

theorem Announces.of_perform {x : Move} (hdue : x.IsDue s) (hhandled : x.handled? s = none)
    (h : (x.perform s).Announces) : s.Announces := by
  obtain ⟨rest, htimely, hunbeckoned, hannounced⟩ := h
  refine ⟨x :: rest, ⟨hdue, htimely⟩, ⟨fun e he => ?_, hunbeckoned⟩, ?_⟩
  · rw [hhandled] at he
    cases he
  · rw [announced]
    exact fun hnil => hannounced (List.append_eq_nil_iff.mp hnil).2

/-- A command with something left can go on at some moment. -/
theorem exists_isDue {index : Nat} {t : Task} (htask : s.tasks[index]? = some t) {op : Op}
    {left : List Op} (hleft : t.left = op :: left) :
    ∃ moment, (Move.turn moment (.command index)).IsDue s := by
  obtain ⟨due, hdue⟩ : ∃ due, s.commandDue t = some due := by
    rw [commandDue, hleft]
    cases op <;> exact ⟨_, rfl⟩
  refine ⟨max s.now due, (max s.now due, .command index), ?_, rfl, Nat.le_refl _⟩
  rw [agenda]
  refine List.mem_append_left _ (List.mem_append_right _ (List.mem_filterMap.mpr ⟨(t, index), ?_, ?_⟩))
  · exact List.mk_mem_zipIdx_iff_getElem?.mpr htask
  · show (s.commandDue t).map _ = _
    rw [hdue]
    rfl

theorem commandStep_startMining {index : Nat} {t : Task} (htask : s.tasks[index]? = some t)
    {left : List Op} (hleft : t.left = .startMining :: left) :
    (s.commandStep index).tasks[index]? = some ⟨s.now, left⟩ := by
  have hset : (s.commandStep index).tasks = s.tasks.set index ⟨s.now, left⟩ := by
    rw [commandStep, htask]
    simp only [hleft, Task.rest]
    rfl
  rw [hset, List.getElem?_set_self (List.getElem?_eq_some_iff.mp htask).1]

theorem ordered_of_ordered? {e : Event} {t : Task} (h : s.ordered? e = some t.left) :
    t.Ordered s.settings := by
  cases e with
  | joined =>
    rw [ordered?] at h
    split at h
    · exact .inl (Option.some.inj h ▸ List.suffix_rfl)
    · cases h
  | chat line =>
    rw [ordered?] at h
    obtain ⟨command, -, hops⟩ := Option.map_eq_some_iff.mp h
    exact .inr ⟨command, hops ▸ List.suffix_rfl⟩
  | teleport | health | death | disconnected => cases h

theorem announces_of_announce {index : Nat} {t : Task} (htask : s.tasks[index]? = some t)
    {line : String} (hleft : t.left = [.announce line]) : s.Announces := by
  obtain ⟨moment, hdue⟩ := exists_isDue htask hleft
  have hnone (e : Event) (he : (Move.turn moment (.command index)).handled? s = some e) :
      s.beckons e = false := by cases he
  refine ⟨[.turn moment (.command index)], ⟨hdue, trivial⟩, ⟨hnone, trivial⟩, ?_⟩
  have hop : s.op? index = some (.announce line) := by rw [op?, htask, Option.bind, hleft]; rfl
  rw [announced, Move.announced?, hop]
  exact List.cons_ne_nil line []

theorem announces_of_startMining {index : Nat} {t : Task} (htask : s.tasks[index]? = some t)
    {line : String} (hleft : t.left = [.startMining, .announce line]) : s.Announces := by
  obtain ⟨moment, hdue⟩ := exists_isDue htask hleft
  have hrest : ((s.since moment).commandStep index).tasks[index]? = some ⟨moment, [.announce line]⟩ :=
    commandStep_startMining (s := s.since moment) htask hleft
  exact .of_perform hdue rfl (announces_of_announce hrest rfl)

theorem announces_of_settle {index : Nat} {t : Task} (htask : s.tasks[index]? = some t)
    {d : Duration} {line : String} (hleft : t.left = [.settle d, .startMining, .announce line]) :
    s.Announces := by
  obtain ⟨since, left⟩ := t
  obtain rfl : left = _ := hleft
  have hdue : (Move.loaded (max s.now (since + d)) index).IsDue s := by
    rw [Move.IsDue, loadedAt?, htask]
    exact decide_eq_true ⟨Nat.le_max_left _ _, Nat.le_max_right _ _⟩
  have hrest : ((s.since (max s.now (since + d))).loaded index).tasks[index]? =
      some ⟨max s.now (since + d), [.startMining, .announce line]⟩ := by
    rw [loaded, show (s.since (max s.now (since + d))).tasks[index]? = _ from htask]
    exact List.getElem?_set_self (List.getElem?_eq_some_iff.mp htask).1
  exact .of_perform hdue rfl (announces_of_startMining hrest rfl)

/-- **A start that is pending is announced**, if nothing else moves. -/
theorem announces_of_starts {t : Task} (ht : t ∈ s.tasks) (hordered : t.Ordered s.settings)
    (hstarts : t.starts = true) : s.Announces := by
  obtain ⟨index, htask⟩ := List.getElem?_of_mem ht
  obtain ⟨line, hannounce | hstart | ⟨d, hsettle⟩⟩ := hordered.cases_of_starts hstarts
  · exact announces_of_announce htask hannounce
  · exact announces_of_startMining htask hstart
  · exact announces_of_settle htask hsettle

theorem run_ordered (moves : List Move) (h : ∀ t ∈ s.tasks, t.Ordered s.settings) :
    ∀ t ∈ (run moves s).tasks, t.Ordered (run moves s).settings := by
  induction moves generalizing s with
  | nil => exact h
  | cons x rest ih =>
    refine ih fun t ht => ?_
    rw [x.perform_settings]
    rcases Move.mem_tasks_perform ht with hold | ⟨e, -, hordered⟩ | ⟨u, hu, hleft⟩
    · exact h t hold
    · exact ordered_of_ordered? hordered
    · exact (h u hu).of_tail hleft

/-- **Mining after a stop.** Let a new session have made any moves, the last of them the stop of a
command. Whatever moves follow in time, without an event that starts mining nothing of mining is sent
any more but what was left of plans: this holds exactly if no command was about to start mining when
the stop came. -/
theorem stop_silences_iff (settings : Settings) (sink : Sink) (interrupt : Option Instant)
    (before : List Move) (moment : Instant) (index : Nat)
    (hstop : (run before (new settings sink interrupt)).op? index = some .stopMining) :
    let s := run (before ++ [.turn moment (.command index)]) (new settings sink interrupt)
    (∀ rest, Timely rest s → Unbeckoned rest s → Silent rest s) ↔
      ∀ t ∈ s.tasks, t.starts = false := by
  intro s
  have horderly : s.site.machine.Orderly :=
    run_orderly (s := new settings sink interrupt) (Mining.Machine.new_orderly settings.mining) _
  have hordered : ∀ t ∈ s.tasks, t.Ordered s.settings := run_ordered _ nofun
  have hstopped : s.site.machine.session.stopRequested = true := by
    have hs : s = (Move.turn moment (.command index)).perform (run before (new settings sink interrupt)) :=
      run_append before _ _
    rw [hs, Move.perform_machine, Move.machineMoves, hstop]
    rfl
  constructor
  · intro hsilent t ht
    rw [Bool.eq_false_iff]
    intro hstarts
    obtain ⟨rest, htimely, hunbeckoned, hannounced⟩ := announces_of_starts ht (hordered t ht) hstarts
    exact hannounced (hsilent rest htimely hunbeckoned).1
  · exact fun hunpending rest _ hunbeckoned =>
      Unpending.silent hunpending horderly hstopped hunbeckoned

/-- A stop comes when a plan has been taken and its action is on the way; nothing else can follow. -/
theorem stop_silences_iff_late :
    let mining := { Mining.Config.standard with animation := 1 }
    let first := new ⟨false, 0, Duration.seconds 1, mining⟩ (.new 0 []) none
    let tick := Duration.milliseconds 50
    let before := [.deliver (.chat "!mine"), .turn 0 .loop, .turn 0 .loop, .turn 0 (.command 0),
      .turn 0 (.command 0), .turn tick (.miner 1), .turn tick (.miner 1),
      .deliver (.chat "!stop"), .turn tick .loop, .turn tick .loop]
    let s := run (before ++ [.turn tick (.command 1)]) first
    (run before first).op? 1 = some .stopMining ∧ (s.site.machine.stageOf 1).left = [.swing] ∧
      ∀ rest, Timely rest s → Unbeckoned rest s →
        Mining.Machine.sent 1 (machineMoves rest s) s.site.machine <+: [.swing] := by
  intro mining first tick before s
  have hstop : (run before first).op? 1 = some .stopMining := by decide
  have hleft : (s.site.machine.stageOf 1).left = [.swing] := by decide
  have hunpending : ∀ t ∈ s.tasks, t.starts = false := by decide
  have hsilent (rest : List Move) : Timely rest s → Unbeckoned rest s → Silent rest s :=
    (stop_silences_iff _ _ _ before tick 1 hstop).mpr hunpending rest
  refine ⟨hstop, hleft, fun rest htimely hunbeckoned => ?_⟩
  rw [← hleft]
  exact (hsilent rest htimely hunbeckoned).2 1

/-- The world is still loading when the stop comes, and has loaded before the session ends. Nobody has
asked for mining; all the same it is announced, and the arm swings. -/
theorem start_after_stop :
    let first := new ⟨true, Duration.seconds 2, Duration.seconds 1, .standard⟩ (.new 0 []) none
    let stop := Duration.milliseconds 1503
    let loaded := Duration.seconds 2
    let last := loaded + Duration.milliseconds 500
    let before := [.deliver (.joined 1), .turn 0 .loop, .turn 0 .loop, .pass stop,
      .deliver (.chat "!stop"), .turn stop .loop, .turn stop .loop]
    let rest := [.turn stop (.command 1), .turn loaded (.command 0), .turn loaded (.command 0),
      .turn loaded (.command 0)] ++
      (List.range 10).flatMap (fun k => List.replicate 2
        (.turn (loaded + (k + 1) * Duration.milliseconds 50) (.miner 1))) ++ [.turn last (.miner 1)]
    let moves := before ++ .turn stop (.command 1) :: rest
    let s := run (before ++ [.turn stop (.command 1)]) first
    Timely moves first ∧ handled moves first = [.joined 1, .chat "!stop"] ∧
      (run before first).op? 1 = some .stopMining ∧ s.site.machine.tasks.length = 0 ∧
      announced rest s = [Mining.Config.standard.startLine] ∧
      Mining.Machine.sent 1 (machineMoves rest s) s.site.machine = [.swing] ∧ ¬ Silent rest s := by
  intro first stop loaded last before rest moves s
  have hannounced : announced rest s = [Mining.Config.standard.startLine] := by decide
  refine ⟨by decide, by decide, by decide, by decide, hannounced, by decide, fun hsilent => ?_⟩
  rw [hsilent.1] at hannounced
  cases hannounced

end Session

end Pickaxe.Play
