import Pickaxe.Proofs.Mining.Moves

/-! Who attends to an activation.

A machine is `Manned` when an active session always has a task that attends to it: the task of the
session's runner, which is still there and, unless a stop was asked for, has its clock and comes back
to it. A machine is `Working` when it is new and stays so in every move, as long as its ticks can be
counted: a stop reaches the clocks that it finds, and the activation after it brings a task with a
clock of its own. `activation_attended` says what this comes to: no activation is lost, whatever
stops, turns and late leavings it is mixed with. -/
namespace Pickaxe.Mining

theorem Config.animation_validated_ne_zero (c : Config) : c.validated.animation ≠ 0 := by
  show (if c.animation = 0 then standard.animation else c.animation) ≠ 0
  split
  · decide
  · assumption

/-! ### Runners that are done -/

/-- A call keeps the runner, or takes it away, or brings the next one. -/
theorem Call.runner_cases (config : Config) (x : Call) (s : Session) :
    s.nextRunner ≤ (x.perform config s).nextRunner ∧
      ((x.perform config s).runner = s.runner ∨ (x.perform config s).runner = none ∨
        (x.perform config s).runner = some s.nextRunner) := by
  cases x with
  | activate target =>
    rw [perform, Session.activate]
    split
    · exact ⟨Nat.le_succ _, .inr (.inr rfl)⟩
    · exact ⟨Nat.le_refl _, .inl rfl⟩
  | requestStop => exact ⟨Nat.le_refl _, .inl rfl⟩
  | beginTick runner =>
    have hticked := s.beginTick_ticked config runner
    refine ⟨Nat.le_of_eq hticked.frame.2.1.symm, ?_⟩
    rw [perform]
    generalize s.beginTick config runner = turn at hticked ⊢
    obtain ⟨turn, after⟩ := turn
    cases hticked with
    | foreign | zeroInterval => exact .inl rfl
    | stopped | ended => exact .inr (.inl rfl)
    | planned _ _ _ hwork | corrupted _ _ _ hwork =>
      obtain ⟨durability, held, rfl⟩ := (Session.worked_of_work hwork).frame
      split
      · exact .inr (.inl rfl)
      · exact .inl rfl
  | detach runner =>
    refine ⟨Nat.le_of_eq (detach_frame runner s).2.1.symm, ?_⟩
    rw [perform, Session.detach]
    split
    · exact .inl rfl
    · split <;> exact .inr (.inl rfl)

/-- A runner that the session has let go is not taken back. -/
theorem Session.performAll_retired (config : Config) {id : RunnerId} (calls : List Call)
    {s : Session} (hissued : id < s.nextRunner) (hretired : s.runner ≠ some id) :
    id < (performAll config calls s).nextRunner ∧ (performAll config calls s).runner ≠ some id := by
  induction calls generalizing s with
  | nil => exact ⟨hissued, hretired⟩
  | cons x rest ih =>
    obtain ⟨hnext, hrunner⟩ := x.runner_cases config s
    refine ih (Nat.lt_of_lt_of_le hissued hnext) ?_
    rcases hrunner with hsame | hnone | hnew
    · rw [hsame]
      exact hretired
    · rw [hnone]
      exact nofun
    · rw [hnew]
      exact fun h => Nat.ne_of_gt hissued (Option.some.inj h)

namespace Machine

/-- **A runner that the session has let go takes no plan any more.** -/
theorem plans_retired {id : RunnerId} (rest : List Move) {m : Machine}
    (hissued : id < m.session.nextRunner) (hretired : m.session.runner ≠ some id) :
    plans id rest m = [] := by
  induction rest generalizing m with
  | nil => rfl
  | cons x rest ih =>
    have hnone : x.plan? id m = none := by
      cases x with
      | activate | requestStop | release => rfl
      | turn now other =>
        rw [Move.plan?]
        split
        · split
          · rw [Session.beginTick, if_pos (by rwa [‹other = id›])]
            rfl
          · rfl
        · rfl
    obtain ⟨hnext, hrunner⟩ :=
      Session.performAll_retired m.config (x.calls m) hissued hretired
    rw [← x.perform_session] at hnext hrunner
    rw [plans, hnone]
    exact ih hnext hrunner

end Machine

/-! ### The attending task -/

/-- Whether a task comes back to its clock from here. -/
def Stage.Stays : Stage → Prop
  | .waiting | .woken => True
  | .acting _ _ _ last => last = false
  | .leaving | .gone => False

/-- The turns up to the next plan, in a stage from which the task comes back to its clock. -/
def Stage.ahead : Stage → Nat
  | .waiting => 2
  | .woken => 1
  | .acting _ _ left _ => left.length + 3
  | .leaving | .gone => 0

theorem Stage.after_ne_gone (now : Instant) (last : Bool) (actions : List World.Action) :
    Stage.after now last actions ≠ .gone := by
  cases actions with
  | nil => cases last <;> exact nofun
  | cons => exact nofun

theorem Stage.stays_after (now : Instant) (actions : List World.Action) :
    (Stage.after now false actions).Stays := by
  cases actions with
  | nil => trivial
  | cons => rfl

theorem Stage.ahead_after (now : Instant) (actions : List World.Action) :
    (Stage.after now false actions).ahead = actions.length + 2 := by
  cases actions <;> rfl

theorem Session.not_isActive_stopped (s : Session) : s.stopped.state.isActive ≠ true := by
  unfold stopped
  cases hstate : s.state <;> exact nofun

section Turn

variable {config : Config} {now : Instant} {t after : Task} {s later : Session}
  {action : Option World.Action}

/-- A turn of another task than the runner's leaves the session alone. -/
theorem Advanced.foreign (h : Advanced config now t s action after later)
    (hother : s.runner ≠ some t.runner) : later = s := by
  cases h with
  | halted | roused | early | sent | gone => rfl
  | ticked _ hturn =>
    rw [Session.beginTick, if_pos hother] at hturn
    exact (congrArg Prod.snd hturn).symm
  | left => rw [Session.detach, if_pos hother]

/-- No turn makes a session active. -/
theorem Advanced.active (h : Advanced config now t s action after later)
    (hlater : later.state.isActive = true) : s.state.isActive = true := by
  cases h with
  | halted | roused | early | sent | gone => exact hlater
  | @ticked turn after _ hturn =>
    have hticked := s.beginTick_ticked config t.runner
    rw [hturn] at hticked
    cases hticked with
    | foreign | ended => exact hlater
    | stopped => exact absurd hlater s.not_isActive_stopped
    | zeroInterval _ _ hactive | planned _ _ hactive | corrupted _ _ hactive => exact hactive
  | left =>
    rw [Session.detach] at hlater
    split at hlater
    · exact hlater
    · split at hlater
      · exact absurd hlater s.not_isActive_stopped
      · exact hlater

/-- A turn of the runner's task either ends the activation or leaves the task attending. -/
theorem Advanced.attending (h : Advanced config now t s action after later)
    (hfault : ∀ e, (s.beginTick config t.runner).1 ≠ .fault e)
    (hattached : s.runner = some t.runner) (hpresent : t.stage ≠ .gone)
    (hdiligent : s.stopRequested = false → t.clock.stopped = false ∧ t.stage.Stays)
    (hlater : later.state.isActive = true) :
    later.runner = some t.runner ∧ later.stopRequested = s.stopRequested ∧ after.stage ≠ .gone ∧
      (s.stopRequested = false → after.clock.stopped = false ∧ after.stage.Stays) := by
  cases h with
  | halted hstage hclock =>
    refine ⟨hattached, rfl, nofun, fun hwanted => ?_⟩
    rw [(hdiligent hwanted).1] at hclock
    cases hclock
  | roused hstage hclock => exact ⟨hattached, rfl, nofun, fun _ => ⟨hclock, trivial⟩⟩
  | early => exact ⟨hattached, rfl, hpresent, hdiligent⟩
  | @ticked turn after hstage hturn =>
    have hticked := s.beginTick_ticked config t.runner
    rw [hturn] at hticked hfault
    cases hticked with
    | foreign hother => exact absurd hattached hother
    | stopped => exact absurd hlater s.not_isActive_stopped
    | ended _ _ hover =>
      rw [show s.state.isActive = true from hlater] at hover
      cases hover
    | zeroInterval | corrupted => exact absurd rfl (hfault _)
    | @planned plan _ hrunner hwanted _ hwork =>
      obtain ⟨durability, held, rfl⟩ := (Session.worked_of_work hwork).frame
      -- A tick that breaks the tool ends the activation.
      have hwhole : plan.broke = false := by
        cases hbroke : plan.broke with
        | false => rfl
        | true => simp [hbroke, State.isActive] at hlater
      refine ⟨?_, rfl, Stage.after_ne_gone _ _ _, fun hstop => ⟨(hdiligent hstop).1, ?_⟩⟩
      · simpa [hwhole, Session.counted] using hattached
      · rw [Session.Turn.stage, Plan.last, hwhole]
        exact Stage.stays_after _ _
  | @sent since action left last hstage =>
    refine ⟨hattached, rfl, Stage.after_ne_gone _ _ _, fun hwanted => ?_⟩
    obtain ⟨hclock, hstays⟩ := hdiligent hwanted
    rw [hstage] at hstays
    obtain rfl : last = false := hstays
    exact ⟨hclock, Stage.stays_after _ _⟩
  | left hstage =>
    -- It leaves because it was stopped.
    have hstop : s.stopRequested = true := by
      by_contra hwanted
      have hstays := (hdiligent (Bool.eq_false_iff.mpr hwanted)).2
      rw [hstage] at hstays
      exact hstays
    rw [Session.detach, if_neg (not_not_intro hattached), if_pos hstop] at hlater
    exact absurd hlater s.not_isActive_stopped
  | gone hstage => exact absurd hstage hpresent

end Turn

namespace Machine

/-- The task of the runner is there and does its work. -/
structure Attended (m : Machine) (t : Task) : Prop where
  mem : t ∈ m.tasks
  attached : m.session.runner = some t.runner
  present : t.stage ≠ .gone
  /-- Until a stop it has its clock, and comes back to it. -/
  diligent : m.session.stopRequested = false → t.clock.stopped = false ∧ t.stage.Stays

/-- An activation has its task. -/
def Manned (m : Machine) : Prop := m.session.state.isActive = true → ∃ t, m.Attended t

/-- No tick breaks off. -/
def Faultless (m : Machine) : Prop :=
  ∀ runner e, (m.session.beginTick m.config runner).1 ≠ .fault e

theorem mem_put {m : Machine} {t u : Task} (s : Session) (hu : u ∈ m.tasks)
    (hother : u.runner ≠ t.runner) : u ∈ (m.put t s).tasks :=
  List.mem_map.mpr ⟨u, hu, if_neg hother⟩

theorem mem_put_self {m : Machine} {t u : Task} (s : Session) (hu : u ∈ m.tasks)
    (hsame : u.runner = t.runner) : t ∈ (m.put t s).tasks :=
  List.mem_map.mpr ⟨u, hu, if_pos hsame⟩

namespace Manned

variable {m : Machine}

theorem activate (h : m.Manned) (hsound : m.session.Sound) (now : Instant) (target : World.Block) :
    (m.activate now target).Manned := by
  generalize hafter : m.activate now target = after
  intro _
  cases activated_of_activate hafter with
  | kept hrunner hwanted =>
    obtain ⟨t, ht⟩ := h (hsound.runner_active _ hrunner)
    exact ⟨t, ht.mem, ht.attached, ht.present, fun _ => ht.diligent hwanted⟩
  | hired => exact ⟨_, List.mem_append_right _ (List.mem_singleton_self _), rfl, nofun,
      fun _ => ⟨rfl, trivial⟩⟩

theorem requestStop (h : m.Manned) : m.requestStop.Manned := by
  intro hactive
  obtain ⟨t, ht⟩ := h hactive
  refine ⟨_, List.mem_map_of_mem ht.mem, ?_, ?_, nofun⟩
  · split <;> exact ht.attached
  · split <;> exact ht.present

theorem release (h : m.Manned) : m.release.Manned := by
  intro hactive
  obtain ⟨t, ht⟩ := h hactive
  exact ⟨_, List.mem_map_of_mem ht.mem, ht.attached, ht.present, ht.diligent⟩

theorem turn (h : m.Manned) (horderly : m.Orderly) (hfaultless : m.Faultless) (now : Instant)
    (runner : RunnerId) : (m.step now runner).2.Manned := by
  rcases hstep : m.step now runner with ⟨action, after⟩
  cases turned_of_step hstep with
  | absent => exact h
  | @advanced u after _ later hfind hrunner hadvanced =>
    intro hactive
    obtain ⟨t, ht⟩ := h (hadvanced.active hactive)
    by_cases hown : t.runner = runner
    · obtain rfl : t = u := by
        rw [← hown, horderly.find?_eq ht.mem] at hfind
        exact Option.some.inj hfind
      obtain ⟨hattached, hstop, hpresent, hdiligent⟩ := hadvanced.attending (hfaultless t.runner)
        ht.attached ht.present ht.diligent hactive
      refine ⟨after, mem_put_self later ht.mem hadvanced.runner_eq.symm, ?_, hpresent, ?_⟩
      · rw [hadvanced.runner_eq]
        exact hattached
      · exact fun hwanted => hdiligent (hstop.symm.trans hwanted)
    · have hother : m.session.runner ≠ some u.runner := by
        rw [ht.attached, hrunner]
        exact fun heq => hown (Option.some.inj heq)
      rw [hadvanced.foreign hother]
      refine ⟨t, mem_put m.session ht.mem ?_, ht.attached, ht.present, ht.diligent⟩
      rw [hadvanced.runner_eq, hrunner]
      exact hown

end Manned

/-- A machine whose intervals are not zero, with its fields and tasks in order. -/
structure Working (m : Machine) : Prop where
  animation : m.config.animation ≠ 0
  durability : m.config.durability ≠ 0
  orderly : m.Orderly
  sound : m.session.Sound
  manned : m.Manned

/-- Before every move the ticks of the activation can be counted further. -/
def Counts : List Move → Machine → Prop
  | [], _ => True
  | x :: rest, m => m.session.tickCount.toNat + 1 < UInt64.size ∧ Counts rest (x.perform m)

instance : (moves : List Move) → (m : Machine) → Decidable (Counts moves m)
  | [], _ => isTrue trivial
  | x :: rest, m =>
    have := instDecidableCounts rest (x.perform m)
    inferInstanceAs (Decidable (_ ∧ _))

theorem new_working (config : Config) (hdurability : config.validated.durability ≠ 0) :
    (new config).Working where
  animation := config.animation_validated_ne_zero
  durability := hdurability
  orderly := new_orderly config
  sound := Session.new_sound
  manned := nofun

theorem Working.faultless {m : Machine} (h : m.Working)
    (hcount : m.session.tickCount.toNat + 1 < UInt64.size) : m.Faultless :=
  Session.beginTick_ne_fault h.animation h.durability h.sound UInt64.ofNat_toNat.symm hcount

theorem Working.perform {m : Machine} (h : m.Working)
    (hcount : m.session.tickCount.toNat + 1 < UInt64.size) (x : Move) : (x.perform m).Working where
  animation := by
    rw [x.perform_config]
    exact h.animation
  durability := by
    rw [x.perform_config]
    exact h.durability
  orderly := h.orderly.perform x
  sound := run_sound h.sound [x]
  manned := by
    cases x with
    | activate now target => exact h.manned.activate h.sound now target
    | requestStop => exact h.manned.requestStop
    | release => exact h.manned.release
    | turn now runner => exact h.manned.turn h.orderly (h.faultless hcount) now runner

theorem Working.run {m : Machine} (h : m.Working) {moves : List Move} (hcounts : Counts moves m) :
    (Machine.run moves m).Working := by
  induction moves generalizing m with
  | nil => exact h
  | cons x rest ih => exact ih (h.perform hcounts.1 x) hcounts.2

/-! ### Ticks that keep coming -/

end Machine

/-- Whether it is a turn of the runner. -/
def Move.isTurn (runner : RunnerId) : Move → Bool
  | .turn _ other => other = runner
  | .activate .. | .requestStop | .release => false

/-- A turn of the runner comes no earlier than the tick that it waits for. -/
def Move.InTime (runner : RunnerId) (m : Machine) : Move → Prop
  | .turn now other => other = runner → ∀ t ∈ m.tasks, t.runner = runner → t.stage = .waiting →
      t.clock.due ≤ now
  | .activate .. | .requestStop | .release => True

instance (runner : RunnerId) (m : Machine) : (x : Move) → Decidable (x.InTime runner m)
  | .turn now other => inferInstanceAs (Decidable (other = runner → ∀ t ∈ m.tasks,
      t.runner = runner → t.stage = .waiting → t.clock.due ≤ now))
  | .activate .. | .requestStop | .release => isTrue trivial

namespace Machine

variable {m : Machine} {t : Task}

/-- The runner's turns come no earlier than its ticks are due. -/
def Punctual (runner : RunnerId) : List Move → Machine → Prop
  | [], _ => True
  | x :: rest, m => x.InTime runner m ∧ Punctual runner rest (x.perform m)

instance : (runner : RunnerId) → (moves : List Move) → (m : Machine) →
    Decidable (Punctual runner moves m)
  | _, [], _ => isTrue trivial
  | runner, x :: rest, m =>
    have := instDecidablePunctual runner rest (x.perform m)
    inferInstanceAs (Decidable (_ ∧ _))

theorem Attended.ahead_pos (h : m.Attended t) (hwanted : m.session.stopRequested = false) :
    0 < t.stage.ahead := by
  have hstays := (h.diligent hwanted).2
  cases hstage : t.stage with
  | waiting | woken | acting => exact Nat.succ_pos _
  | leaving | gone =>
    rw [hstage] at hstays
    exact hstays.elim

theorem Attended.ahead_le (h : m.Attended t) (horderly : m.Orderly) : t.stage.ahead ≤ 6 := by
  have hbrief := horderly.brief t h.mem
  cases hstage : t.stage with
  | acting since action left last =>
    rw [hstage, Stage.left, List.length_cons] at hbrief
    exact Nat.add_le_add_right hbrief 2
  | waiting | woken | leaving | gone => exact (by decide)

/-- **A turn in time brings the next plan or comes closer to it.** -/
theorem Attended.turn (h : m.Attended t) (hworking : m.Working)
    (hwanted : m.session.stopRequested = false)
    (hcount : m.session.tickCount.toNat + 1 < UInt64.size) {now : Instant}
    (hdue : t.stage = .waiting → t.clock.due ≤ now)
    (hplan : (Move.turn now t.runner).plan? t.runner m = none) :
    ∃ u, u.runner = t.runner ∧ u.stage.ahead + 1 = t.stage.ahead ∧
      (m.step now t.runner).2.Attended u ∧
      (m.step now t.runner).2.session = m.session := by
  obtain ⟨hclock, hstays⟩ := h.diligent hwanted
  rcases hstep : m.step now t.runner with ⟨action, after⟩
  cases turned_of_step hstep with
  | absent hnone =>
    rw [hworking.orderly.find?_eq h.mem] at hnone
    cases hnone
  | @advanced u after _ later hfind hrunner hadvanced =>
    obtain rfl : t = u := by
      rw [hworking.orderly.find?_eq h.mem] at hfind
      exact Option.some.inj hfind
    have hown := hadvanced.runner_eq
    have hattends {u : Task} (hu : u.runner = t.runner) (hpresent : u.stage ≠ .gone)
        (hdiligent : u.clock.stopped = false ∧ u.stage.Stays) :
        (m.put u m.session).Attended u :=
      ⟨mem_put_self m.session h.mem hu.symm, by rw [hu]; exact h.attached, hpresent,
        fun _ => hdiligent⟩
    cases hadvanced with
    | halted _ hstopped =>
      rw [hclock] at hstopped
      cases hstopped
    | roused hstage =>
      exact ⟨{ t with clock := (t.clock.deliver now).2, stage := .woken }, rfl, by rw [hstage]; rfl,
        hattends rfl nofun ⟨hclock, trivial⟩, rfl⟩
    | early hstage _ hearly => exact absurd (hdue hstage) hearly
    | @ticked turn after hstage hturn =>
      have hticked := m.session.beginTick_ticked m.config t.runner
      have hfaultless := hworking.faultless hcount t.runner
      rw [Move.plan?, hworking.orderly.stageOf_eq h.mem, hstage, hturn] at hplan
      rw [hturn] at hticked hfaultless
      cases hticked with
      | foreign hother => exact absurd h.attached hother
      | stopped _ hstop =>
        rw [hwanted] at hstop
        cases hstop
      | ended _ _ hover =>
        rw [hworking.sound.runner_active _ h.attached] at hover
        cases hover
      | zeroInterval | corrupted => exact absurd rfl (hfaultless _)
      | planned => simp [Session.Turn.plan?] at hplan
    | @sent since action left last hstage =>
      rw [hstage] at hstays
      obtain rfl : last = false := hstays
      refine ⟨{ t with stage := .after now false left }, rfl, ?_,
        hattends rfl (Stage.after_ne_gone _ _ _) ⟨hclock, Stage.stays_after _ _⟩, rfl⟩
      rw [Stage.ahead_after, hstage]
      rfl
    | left hstage | gone hstage =>
      rw [hstage] at hstays
      exact hstays.elim

/-- Any other move but a stop leaves it as near. -/
theorem Attended.other (h : m.Attended t) (hwanted : m.session.stopRequested = false) {x : Move}
    (hstop : x ≠ .requestStop) (hother : x.isTurn t.runner = false) :
    ∃ u, u.runner = t.runner ∧ u.stage = t.stage ∧ (x.perform m).Attended u ∧
      (x.perform m).session.stopRequested = false := by
  cases x with
  | activate now target =>
    rw [Move.perform]
    generalize hafter : m.activate now target = after
    cases activated_of_activate hafter with
    | kept =>
      exact ⟨t, rfl, rfl, ⟨h.mem, h.attached, h.present, fun _ => h.diligent hwanted⟩, rfl⟩
    | hired hneeded =>
      rcases hneeded with hnone | hstop
      · rw [h.attached] at hnone
        cases hnone
      · rw [hwanted] at hstop
        cases hstop
  | requestStop => exact absurd rfl hstop
  | release =>
    exact ⟨{ t with listed := false }, rfl, rfl,
      ⟨List.mem_map.mpr ⟨t, h.mem, rfl⟩, h.attached, h.present, h.diligent⟩, hwanted⟩
  | turn now runner =>
    have hrunner : runner ≠ t.runner := by simpa [Move.isTurn] using hother
    rw [Move.perform]
    rcases hstep : m.step now runner with ⟨action, after⟩
    cases turned_of_step hstep with
    | absent => exact ⟨t, rfl, rfl, h, hwanted⟩
    | @advanced u after _ later hfind hu hadvanced =>
      have hforeign : m.session.runner ≠ some u.runner := by
        rw [h.attached, hu]
        exact fun heq => hrunner (Option.some.inj heq).symm
      rw [hadvanced.foreign hforeign]
      refine ⟨t, rfl, rfl, ⟨mem_put m.session h.mem ?_, h.attached, h.present, h.diligent⟩, hwanted⟩
      rw [hadvanced.runner_eq, hu]
      exact hrunner.symm

/-- **Enough turns in time bring a plan**, unless there is a stop among the moves. -/
theorem Attended.plans_ne_nil (h : m.Attended t) (hworking : m.Working)
    (hwanted : m.session.stopRequested = false) {rest : List Move} (hstop : .requestStop ∉ rest)
    (hcounts : Counts rest m) (hpunctual : Punctual t.runner rest m)
    (hturns : t.stage.ahead ≤ rest.countP (·.isTurn t.runner)) : plans t.runner rest m ≠ [] := by
  induction rest generalizing m t with
  | nil => exact absurd hturns (Nat.not_le.mpr (h.ahead_pos hwanted))
  | cons x rest ih =>
    have hx : x ≠ .requestStop := fun heq => hstop (heq ▸ List.mem_cons_self)
    have hrest : .requestStop ∉ rest := fun hmem => hstop (List.mem_cons_of_mem x hmem)
    rw [plans]
    cases hplan : x.plan? t.runner m with
    | some p => exact List.cons_ne_nil p _
    | none =>
      -- No plan yet, so the task is still there, with one turn less ahead if this was one.
      obtain ⟨u, hrunner, hu, hwanted, hahead⟩ : ∃ u, u.runner = t.runner ∧
          (x.perform m).Attended u ∧ (x.perform m).session.stopRequested = false ∧
          u.stage.ahead ≤ rest.countP (·.isTurn t.runner) := by
        cases hown : x.isTurn t.runner with
        | true =>
          obtain ⟨now, rfl⟩ : ∃ now, x = .turn now t.runner := by
            cases x with
            | turn now other => exact ⟨now, by simpa [Move.isTurn] using hown⟩
            | activate | requestStop | release => cases hown
          obtain ⟨u, hrunner, hahead, hu, hsession⟩ := h.turn hworking hwanted hcounts.1
            (hpunctual.1 rfl t h.mem rfl) hplan
          refine ⟨u, hrunner, hu, hsession ▸ hwanted, ?_⟩
          rw [List.countP_cons, if_pos hown, ← hahead] at hturns
          exact Nat.le_of_succ_le_succ hturns
        | false =>
          obtain ⟨u, hrunner, hstage, hu, hwanted⟩ := h.other hwanted hx hown
          refine ⟨u, hrunner, hu, hwanted, ?_⟩
          rw [List.countP_cons, if_neg (Bool.eq_false_iff.mp hown)] at hturns
          rw [hstage]
          exact hturns
      rw [← hrunner] at hpunctual hahead ⊢
      exact ih hu (hworking.perform hcounts.1 x) hwanted hrest hcounts.2 hpunctual.2 hahead

/-- **No activation is lost.** Let a new machine have made any moves, with no interval of its
settings zero and no more ticks than can be counted. While its session is active and no stop is
asked for, exactly one task has the id of the session's runner. It has its clock and comes back to
it; no other runner takes a plan ever after; and whatever moves follow, as long as there is no stop
among them, within six turns in time it takes the next plan. -/
theorem activation_attended (config : Config) (hdurability : config.validated.durability ≠ 0)
    (moves : List Move) (hcounts : Counts moves (new config)) :
    let m := run moves (new config)
    m.session.state.isActive = true → m.session.stopRequested = false →
    ∃ t, m.session.runner = some t.runner ∧ m.tasks.filter (·.runner = t.runner) = [t] ∧
      t.clock.stopped = false ∧ t.stage.Stays ∧
      (∀ id < m.session.nextRunner, id ≠ t.runner → ∀ rest, plans id rest m = []) ∧
      ∀ rest, .requestStop ∉ rest → Counts rest m → Punctual t.runner rest m →
        6 ≤ rest.countP (·.isTurn t.runner) → plans t.runner rest m ≠ [] := by
  intro m hactive hwanted
  have hworking : m.Working := (new_working config hdurability).run hcounts
  obtain ⟨t, ht⟩ := hworking.manned hactive
  obtain ⟨hclock, hstays⟩ := ht.diligent hwanted
  refine ⟨t, ht.attached, hworking.orderly.filter_eq ht.mem, hclock, hstays, ?_, ?_⟩
  · intro id hissued hother rest
    refine plans_retired rest hissued ?_
    rw [ht.attached]
    exact fun heq => hother (Option.some.inj heq).symm
  · intro rest hstop hcounts hpunctual hturns
    exact ht.plans_ne_nil hworking hwanted hstop hcounts hpunctual
      (Nat.le_trans (ht.ahead_le hworking.orderly) hturns)

/-- A stop and an activation come while the first runner waits for its turn; it leaves late, and the
second runner goes on. -/
theorem activation_attended_raced :
    let new := Machine.new { Config.standard with animation := 1 }
    let moves := [.activate 0 ⟨0, 64, 0⟩, .turn 50000000 1, .requestStop,
      .activate 60000000 ⟨0, 63, 0⟩, .turn 60000000 1, .turn 70000000 1]
    let rest := [.turn 110000000 2, .activate 120000000 ⟨0, 62, 0⟩, .turn 130000000 2,
      .turn 130000000 2, .turn 190000000 2, .turn 190000000 2, .turn 190000000 2]
    let m := run moves new
    (new.config.durability ≠ 0 ∧ Counts moves new ∧ m.session.state.isActive = true ∧
      m.session.stopRequested = false) ∧
      m.session.runner = some 2 ∧ m.stageOf 1 = .gone ∧
      (.requestStop ∉ rest ∧ Counts rest m ∧ Punctual 2 rest m) ∧ plans 2 rest m ≠ [] := by
  intro new moves rest m
  have hdurability : new.config.durability ≠ 0 := by decide
  have hcounts : Counts moves new := by decide
  have hactive : m.session.state.isActive = true := by decide
  have hwanted : m.session.stopRequested = false := by decide
  have hrunner : m.session.runner = some 2 := by decide
  have hrest : .requestStop ∉ rest ∧ Counts rest m ∧ Punctual 2 rest m := by decide
  obtain ⟨t, hattached, -, -, -, -, hplans⟩ := activation_attended
    { Config.standard with animation := 1 } hdurability moves hcounts hactive hwanted
  rw [Option.some.inj (hattached.symm.trans hrunner)] at hplans
  exact ⟨⟨hdurability, hcounts, hactive, hwanted⟩, hrunner, by decide, hrest,
    hplans rest hrest.1 hrest.2.1 hrest.2.2 (by decide)⟩

end Machine

end Pickaxe.Mining
