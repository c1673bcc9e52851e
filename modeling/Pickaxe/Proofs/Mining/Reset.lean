import Pickaxe.Proofs.Mining.Session

/-! Activation starts everything over.

The ids of runners and the count of activations have no say in what a session does: two sessions that
differ in nothing else look alike (`View`), and whatever is done to both, they do the same and look alike
after it (`perform_alike`). An activation leaves all sessions alike, so that nothing of what was before it
comes out behind it (`activation_resets`). -/
namespace Pickaxe.Mining

open World (Block)
open Session (Turn)

variable {config : Config} {s t : Session}

/-! ### What can be seen of a session -/

/-- All of a session but the ids of runners and the count of activations. -/
structure View where
  state : State
  tickCount : UInt64
  durability : UInt8
  stopRequested : Bool
  target : Option Block
  held : Option Held
  /-- Whether it has a runner. -/
  attached : Bool
deriving DecidableEq, Repr

namespace Session

def view (s : Session) : View where
  state := s.state
  tickCount := s.tickCount
  durability := s.durability
  stopRequested := s.stopRequested
  target := s.target
  held := s.held
  attached := s.runner.isSome

/-- The session with another runner, another id to come and another count of activations. -/
def renumbered (runner : Option RunnerId) (next : RunnerId) (activations : Nat) (s : Session) : Session :=
  { s with runner, nextRunner := next, activations }

theorem eq_renumbered_of_view_eq (h : s.view = t.view) :
    t = s.renumbered t.runner t.nextRunner t.activations := by
  simp only [view, View.mk.injEq] at h
  obtain ⟨hstate, hcount, hdurability, hstop, htarget, hheld, -⟩ := h
  simp only [renumbered, hstate, hcount, hdurability, hstop, htarget, hheld]

theorem renumbered_view {runner : Option RunnerId} (h : s.runner.isSome = runner.isSome) (next : RunnerId)
    (activations : Nat) : (s.renumbered runner next activations).view = s.view := by
  unfold view renumbered
  rw [h]

/-! ### A tick -/

theorem released_renumbered (runner : Option RunnerId) (next : RunnerId) (activations : Nat) (s : Session) :
    (s.renumbered runner next activations).released = s.released.renumbered runner next activations := by
  have hfinished : (s.renumbered runner next activations).finished = s.finished := rfl
  unfold released
  rw [hfinished]
  split <;> rfl

theorem startDig_renumbered (config : Config) (runner : Option RunnerId) (next : RunnerId) (activations : Nat)
    (s : Session) :
    (s.renumbered runner next activations).startDig config =
      (s.startDig config).renumbered runner next activations := by
  have htarget : (s.renumbered runner next activations).target = s.target := rfl
  unfold startDig
  rw [htarget]
  split <;> rfl

/-- The work of a tick is what it is said to come to. -/
theorem Worked.work_eq {plan : Plan} {after : Session} (h : Worked config s plan after) :
    s.work config = (plan, after) := by
  unfold work
  cases h with
  | spared htick => exact if_pos htick
  | worn htick hleft => exact (if_neg (not_not_intro htick)).trans (if_neg hleft)
  | broken htick hleft => exact (if_neg (not_not_intro htick)).trans (if_pos hleft)

/-- The work of a tick does not hang on the ids. -/
theorem Worked.renumbered {plan : Plan} {after : Session} (h : Worked config s plan after)
    (runner : Option RunnerId) (next : RunnerId) (activations : Nat) :
    Worked config (s.renumbered runner next activations) plan
      (after.renumbered (if plan.broke then none else runner) next activations) := by
  have hreleased := released_renumbered runner next activations s
  cases h with
  | spared htick =>
    have hspared : Worked config (s.renumbered runner next activations) _ _ := .spared htick
    rwa [hreleased] at hspared
  | worn htick hleft =>
    have hworn : Worked config (s.renumbered runner next activations) _ _ := .worn htick hleft
    rw [hreleased] at hworn
    have hdig := startDig_renumbered config runner next activations
      { s.released with durability := s.worn config }
    exact hdig ▸ hworn
  | broken htick hleft =>
    have hbroken : Worked config (s.renumbered runner next activations) _ _ := .broken htick hleft
    rwa [hreleased] at hbroken

theorem work_renumbered (config : Config) (runner : Option RunnerId) (next : RunnerId) (activations : Nat)
    (s : Session) :
    (s.renumbered runner next activations).work config =
      ((s.work config).1, (s.work config).2.renumbered
        (if (s.work config).1.broke then none else runner) next activations) :=
  ((worked_of_work rfl).renumbered runner next activations).work_eq

/-- A runner stays through the work unless the tool breaks. -/
theorem work_runner (config : Config) (s : Session) :
    (s.work config).2.runner = if (s.work config).1.broke then none else s.runner := by
  cases hwork : s.work config with
  | mk plan after =>
    obtain ⟨durability, held, rfl⟩ := (worked_of_work hwork).frame
    rfl

section Attached

variable {id : RunnerId}

theorem beginTick_stopped (hrunner : s.runner = some id) (hstop : s.stopRequested = true) :
    s.beginTick config id = (.leave, s.stopped) := by
  unfold beginTick
  rw [if_neg (not_not_intro hrunner), if_pos hstop]

theorem beginTick_ended (hrunner : s.runner = some id) (hstop : ¬ s.stopRequested = true)
    (hover : s.state.next = none) : s.beginTick config id = (.leave, { s with runner := none }) := by
  unfold beginTick
  rw [if_neg (not_not_intro hrunner), if_neg hstop, hover]

/-- A tick that is counted. -/
theorem beginTick_counted (hrunner : s.runner = some id) (hstop : ¬ s.stopRequested = true) {next : State}
    (hactive : s.state.next = some next) :
    s.beginTick config id =
      if config.animation = 0 ∨ config.durability = 0 then (.fault .zeroInterval, s.counted)
      else (match (s.counted.work config).2.checkInvariants s.tickCount with
        | .ok () => .tick (s.counted.work config).1
        | .error e => .fault e, (s.counted.work config).2) := by
  obtain ⟨-, rfl⟩ := State.next_eq_some_iff.mp hactive
  unfold beginTick
  rw [if_neg (not_not_intro hrunner), if_neg hstop, hactive]
  by_cases hzero : config.animation = 0 ∨ config.durability = 0
  · simp only [if_pos hzero]
    rfl
  · simp only [if_neg hzero]
    cases hranges : (s.counted.work config).2.checkInvariants s.tickCount with
    | ok | error e =>
      unfold counted at hranges ⊢
      rw [hranges]

end Attached

/-- **A tick does not hang on the id of the runner that makes it**, as long as it is the attached one. -/
theorem beginTick_renumbered {id : RunnerId} (hrunner : s.runner = some id) (id' next : RunnerId)
    (activations : Nat) (config : Config) :
    ∃ turn after runner, s.beginTick config id = (turn, after) ∧
      (s.renumbered (some id') next activations).beginTick config id' =
        (turn, after.renumbered runner next activations) ∧
      after.runner.isSome = runner.isSome := by
  have hrunner' : (s.renumbered (some id') next activations).runner = some id' := rfl
  by_cases hstop : s.stopRequested = true
  · exact ⟨.leave, s.stopped, none, beginTick_stopped hrunner hstop, beginTick_stopped hrunner' hstop, rfl⟩
  · cases hnext : s.state.next with
    | none =>
      exact ⟨.leave, _, none, beginTick_ended hrunner hstop hnext, beginTick_ended hrunner' hstop hnext, rfl⟩
    | some state =>
      rw [beginTick_counted hrunner hstop hnext, beginTick_counted hrunner' hstop hnext]
      by_cases hzero : config.animation = 0 ∨ config.durability = 0
      · rw [if_pos hzero, if_pos hzero]
        exact ⟨.fault .zeroInterval, s.counted, some id', rfl, rfl, by rw [counted, hrunner]; rfl⟩
      · rw [if_neg hzero, if_neg hzero]
        have hwork : (s.renumbered (some id') next activations).counted.work config = _ :=
          work_renumbered config (some id') next activations s.counted
        rw [hwork]
        -- The check of the fields reads no ids, so that both ticks pass it or both break off.
        refine ⟨_, _, _, rfl, rfl, ?_⟩
        rw [work_runner, show s.counted.runner = some id from hrunner]
        split <;> rfl

end Session

/-! ### Anything that is done -/

/-- What callers do to a session, and what its runner does. -/
inductive Input where
  | activate (target : Block)
  | requestStop
  /-- A tick of the attached runner. -/
  | tick (config : Config)
  /-- The attached runner leaves. -/
  | leave
deriving DecidableEq, Repr

namespace Input

/-- What a tick comes to, if anybody is there to make it, and the session after it. -/
def perform : Input → Session → Option Turn × Session
  | .activate target, s => (none, (s.activate target).2)
  | .requestStop, s => (none, s.requestStop)
  | .tick config, s => match s.runner with
    | some id => (some (s.beginTick config id).1, (s.beginTick config id).2)
    | none => (none, s)
  | .leave, s => match s.runner with
    | some id => (none, s.detach id)
    | none => (none, s)

end Input

/-- The look of a session that has just been activated. -/
def View.fresh (target : Block) : View where
  state := .activating
  tickCount := 0
  durability := Session.fullDurability
  stopRequested := false
  target := some target
  held := none
  attached := true

/-- The look of a session after its runner has left. -/
def View.left (v : View) : View :=
  { v with
    state := if v.stopRequested ∧ v.state.isActive then .stopped else v.state
    attached := false }

namespace Session

/-- No field but the ids and the count outlives an activation, and there is a runner after it. -/
theorem activate_view (target : Block) (s : Session) : (s.activate target).2.view = .fresh target := by
  unfold activate
  split
  next => rfl
  next hstays =>
    -- The runner that is kept is one.
    have hattached : s.runner.isSome = true := by
      cases hrunner : s.runner with
      | none => exact absurd (by rw [hrunner]; rfl) hstays
      | some id => rfl
    unfold view View.fresh
    rw [hattached]

theorem detach_view {id : RunnerId} (hrunner : s.runner = some id) : (s.detach id).view = s.view.left := by
  unfold detach
  rw [if_neg (not_not_intro hrunner)]
  by_cases hstop : s.stopRequested = true
  · rw [if_pos hstop]
    simp [view, View.left, stopped, hstop]
  · rw [if_neg hstop]
    simp [view, View.left, hstop]

theorem beginTick_alike {id id' : RunnerId} (h : s.view = t.view) (hs : s.runner = some id)
    (ht : t.runner = some id') (config : Config) :
    (s.beginTick config id).1 = (t.beginTick config id').1 ∧
      (s.beginTick config id).2.view = (t.beginTick config id').2.view := by
  obtain ⟨turn, after, runner, hturn, hturn', hattached⟩ :=
    beginTick_renumbered hs id' t.nextRunner t.activations config
  rw [← ht, ← eq_renumbered_of_view_eq h] at hturn'
  rw [hturn, hturn', renumbered_view hattached]
  exact ⟨rfl, rfl⟩

/-- Sessions that look alike both have a runner, or neither has. -/
theorem runners_alike (h : s.view = t.view) :
    (s.runner = none ∧ t.runner = none) ∨ ∃ id id', s.runner = some id ∧ t.runner = some id' := by
  have hattached : s.runner.isSome = t.runner.isSome := congrArg View.attached h
  cases hs : s.runner with
  | none =>
    rw [hs] at hattached
    exact .inl ⟨rfl, Option.not_isSome_iff_eq_none.mp (Bool.eq_false_iff.mp hattached.symm)⟩
  | some id =>
    rw [hs] at hattached
    obtain ⟨id', ht⟩ := Option.isSome_iff_exists.mp hattached.symm
    exact .inr ⟨id, id', rfl, ht⟩

/-- **Sessions that look alike do the same** and look alike after it. -/
theorem perform_alike (x : Input) (h : s.view = t.view) :
    (x.perform s).1 = (x.perform t).1 ∧ (x.perform s).2.view = (x.perform t).2.view := by
  cases x with
  | activate target => exact ⟨rfl, (activate_view target s).trans (activate_view target t).symm⟩
  | requestStop => exact ⟨rfl, congrArg (fun v : View => { v with stopRequested := true }) h⟩
  | tick config =>
    obtain ⟨hs, ht⟩ | ⟨id, id', hs, ht⟩ := runners_alike h
    · simp only [Input.perform, hs, ht]
      exact ⟨trivial, h⟩
    · obtain ⟨hturn, hview⟩ := beginTick_alike h hs ht config
      simp only [Input.perform, hs, ht]
      exact ⟨congrArg some hturn, hview⟩
  | leave =>
    obtain ⟨hs, ht⟩ | ⟨id, id', hs, ht⟩ := runners_alike h
    · simp only [Input.perform, hs, ht]
      exact ⟨trivial, h⟩
    · simp only [Input.perform, hs, ht]
      exact ⟨trivial, by rw [detach_view hs, detach_view ht, h]⟩

/-- All that can be seen while these are done. -/
def observed : List Input → Session → List (Option Turn × View)
  | [], _ => []
  | x :: rest, s => ((x.perform s).1, (x.perform s).2.view) :: observed rest (x.perform s).2

theorem observed_alike (inputs : List Input) (h : s.view = t.view) : observed inputs s = observed inputs t := by
  induction inputs generalizing s t with
  | nil => rfl
  | cons x rest ih =>
    obtain ⟨hturn, hview⟩ := perform_alike x h
    unfold observed
    rw [hturn, hview, ih hview]

end Session

/-- **Activation starts everything over.** Two sessions, whatever they have been through, look alike once
they have been activated at the same target, and have a runner. Whatever callers and the attached runner do
then, under whatever configs, they see the same of both: the same plans and errors, the same states, counts,
durabilities, targets and digs. -/
theorem activation_resets (s t : Session) (target : Block) (inputs : List Input) :
    (s.activate target).2.view = .fresh target ∧ (t.activate target).2.view = .fresh target ∧
      Session.observed inputs (s.activate target).2 = Session.observed inputs (t.activate target).2 := by
  have hs := Session.activate_view target s
  have ht := Session.activate_view target t
  exact ⟨hs, ht, Session.observed_alike inputs (hs.trans ht.symm)⟩

example : (Session.observed [.activate ⟨1, 2, 3⟩, .tick .standard, .tick .standard, .activate ⟨4, 5, 6⟩,
    .tick .standard] .new).map (·.2.tickCount) = [0, 1, 2, 0, 1] := by decide

end Pickaxe.Mining
