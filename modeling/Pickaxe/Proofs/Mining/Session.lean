import Pickaxe.Mining.Session

/-! The mining session over any calls.

All that a tick of a runner can do is in `Ticked`, and all that the work of a tick can do in
`Worked`; what is known of ticks follows from these. A session is `Sound` when it is new and stays
so in every call, in whatever order callers and runners come. Beside this stand the states that
calls go through (`entered_path`), the ids they give out (`issuedAll_eq`) and the ticks they count
(`performAll_tickCount`). What they come to together is `session_invariant`. -/
namespace Pickaxe.Mining

open World (Block)

namespace State

theorem next_eq_none_iff {state : State} : state.next = none ↔ state.isActive = false := by
  cases state <;> decide

theorem next_eq_some_iff {state next : State} :
    state.next = some next ↔ state.isActive = true ∧ next = .running := by
  cases state <;> simp [State.next, isActive, eq_comm]

/-- The way from a state through the given ones, by changes that are allowed. -/
inductive Path : State → List State → State → Prop where
  | refl (state : State) : Path state [] state
  | step {before next after : State} {rest : List State}
      (hallowed : before.canTransitionTo next = true) (hrest : Path next rest after) :
      Path before (next :: rest) after

theorem Path.append {before next after : State} {first rest : List State}
    (hfirst : Path before first next) (hrest : Path next rest after) :
    Path before (first ++ rest) after := by
  induction hfirst with
  | refl => exact hrest
  | step hallowed _ ih => exact .step hallowed (ih hrest)

/-- An active state runs on, or starts to. -/
theorem running_path {state : State} (h : state.isActive = true) :
    Path state (if .running = state then [] else [.running]) .running := by
  cases state with
  | activating => exact .step rfl (.refl _)
  | running => exact .refl _
  | idle | exhausted | stopped => cases h

end State

namespace Session

variable {config : Config}

/-! ### A tick -/

/-- The session with one more tick. -/
def counted (s : Session) : Session := { s with state := .running, tickCount := s.tickCount + 1 }

/-- The session without the dig that ends on the current tick. -/
def released (s : Session) : Session := if s.finished.isSome then { s with held := none } else s

theorem released_eq (s : Session) : ∃ held, s.released = { s with held } := by
  unfold released
  split
  · exact ⟨none, rfl⟩
  · exact ⟨s.held, rfl⟩

theorem startDig_eq (config : Config) (s : Session) : ∃ held, s.startDig config = { s with held } := by
  unfold startDig
  split
  · exact ⟨_, rfl⟩
  · exact ⟨s.held, rfl⟩

/-- What the work of a tick comes to: its plan and the session after it. -/
inductive Worked (config : Config) (s : Session) : Plan → Session → Prop where
  /-- The tool is spared. -/
  | spared (htick : s.tickCount % config.durability ≠ 0) :
      Worked config s
        ⟨s.tickCount, s.tickCount % config.animation = 0, s.finished, none, none, false⟩ s.released
  /-- It wears, and the next dig starts. -/
  | worn (htick : s.tickCount % config.durability = 0) (hleft : s.worn config ≠ 0) :
      Worked config s
        ⟨s.tickCount, s.tickCount % config.animation = 0, s.finished, s.target,
          some (s.worn config), false⟩
        ({ s.released with durability := s.worn config }.startDig config)
  /-- It breaks. -/
  | broken (htick : s.tickCount % config.durability = 0) (hleft : s.worn config = 0) :
      Worked config s
        ⟨s.tickCount, s.tickCount % config.animation = 0, s.finished, none, some 0, true⟩
        s.released.exhaust

theorem worked_of_work {s : Session} {plan : Plan} {after : Session}
    (h : s.work config = (plan, after)) : Worked config s plan after := by
  unfold work at h
  by_cases htick : s.tickCount % config.durability = 0
  · rw [if_neg (not_not_intro htick)] at h
    by_cases hleft : s.worn config = 0
    · rw [if_pos hleft] at h
      cases h
      exact .broken htick hleft
    · rw [if_neg hleft] at h
      cases h
      exact .worn htick hleft
  · rw [if_pos htick] at h
    cases h
    exact .spared htick

/-- What a tick of a runner comes to. -/
inductive Ticked (config : Config) (runner : RunnerId) (s : Session) : Turn → Session → Prop where
  /-- Another runner is attached, or none. -/
  | foreign (hrunner : s.runner ≠ some runner) : Ticked config runner s .leave s
  | stopped (hrunner : s.runner = some runner) (hstop : s.stopRequested = true) :
      Ticked config runner s .leave s.stopped
  /-- The activation has ended. -/
  | ended (hrunner : s.runner = some runner) (hstop : s.stopRequested = false)
      (hover : s.state.isActive = false) :
      Ticked config runner s .leave { s with runner := none }
  | zeroInterval (hrunner : s.runner = some runner) (hstop : s.stopRequested = false)
      (hactive : s.state.isActive = true)
      (hzero : config.animation = 0 ∨ config.durability = 0) :
      Ticked config runner s (.fault .zeroInterval) s.counted
  | planned {plan : Plan} {after : Session} (hrunner : s.runner = some runner)
      (hstop : s.stopRequested = false) (hactive : s.state.isActive = true)
      (hwork : s.counted.work config = (plan, after))
      (hranges : after.checkInvariants s.tickCount = .ok ()) :
      Ticked config runner s (.tick plan) after
  /-- The work is done, and a field has left its range. -/
  | corrupted {plan : Plan} {after : Session} {e : Error} (hrunner : s.runner = some runner)
      (hstop : s.stopRequested = false) (hactive : s.state.isActive = true)
      (hwork : s.counted.work config = (plan, after))
      (hranges : after.checkInvariants s.tickCount = .error e) :
      Ticked config runner s (.fault e) after

theorem beginTick_ticked (config : Config) (runner : RunnerId) (s : Session) :
    Ticked config runner s (s.beginTick config runner).1 (s.beginTick config runner).2 := by
  unfold beginTick
  by_cases hrunner : s.runner = some runner
  · rw [if_neg (not_not_intro hrunner)]
    by_cases hstop : s.stopRequested = true
    · rw [if_pos hstop]
      exact .stopped hrunner hstop
    · have hwanted : s.stopRequested = false := Bool.eq_false_iff.mpr hstop
      rw [if_neg hstop]
      cases hnext : s.state.next with
      | none => exact .ended hrunner hwanted (State.next_eq_none_iff.mp hnext)
      | some state =>
        obtain ⟨hactive, rfl⟩ := State.next_eq_some_iff.mp hnext
        by_cases hzero : config.animation = 0 ∨ config.durability = 0
        · simp only [if_pos hzero]
          exact .zeroInterval hrunner hwanted hactive hzero
        · simp only [if_neg hzero]
          cases hranges : (s.counted.work config).2.checkInvariants s.tickCount with
          | ok =>
            unfold counted at hranges
            rw [hranges]
            exact .planned hrunner hwanted hactive rfl hranges
          | error e =>
            unfold counted at hranges
            rw [hranges]
            exact .corrupted hrunner hwanted hactive rfl hranges
  · rw [if_pos hrunner]
    exact .foreign hrunner

/-- All that the work of a tick changes. -/
theorem Worked.frame {s : Session} {plan : Plan} {after : Session}
    (h : Worked config s plan after) :
    ∃ durability held, after = { s with
      durability, held
      state := if plan.broke then .exhausted else s.state
      runner := if plan.broke then none else s.runner } := by
  obtain ⟨held, hreleased⟩ := s.released_eq
  cases h with
  | spared => exact ⟨s.durability, held, hreleased⟩
  | worn =>
    obtain ⟨dig, hdig⟩ := startDig_eq config
      { s.released with durability := s.worn config }
    rw [hreleased] at hdig ⊢
    exact ⟨s.worn config, dig, hdig⟩
  | broken =>
    rw [hreleased]
    exact ⟨0, none, rfl⟩

/-- A tick is counted unless the runner has to leave, and gives out nothing. -/
theorem Ticked.frame {runner : RunnerId} {s : Session} {turn : Turn} {after : Session}
    (h : Ticked config runner s turn after) :
    after.tickCount = (if turn = .leave then s.tickCount else s.tickCount + 1) ∧
      after.nextRunner = s.nextRunner ∧ after.activations = s.activations := by
  cases h with
  | foreign | stopped | ended | zeroInterval => exact ⟨rfl, rfl, rfl⟩
  | planned _ _ _ hwork | corrupted _ _ _ hwork =>
    obtain ⟨durability, held, rfl⟩ := (worked_of_work hwork).frame
    exact ⟨rfl, rfl, rfl⟩

/-! ### The fields -/

/-- The fields of a session fit one another. -/
structure Sound (s : Session) : Prop where
  durability_le : s.durability ≤ fullDurability
  exhausted_iff : s.durability = 0 ↔ s.state = .exhausted
  /-- Who is attached gets ticks. -/
  runner_active : ∀ id, s.runner = some id → s.state.isActive = true
  /-- Nobody has been attached since. -/
  runner_latest : ∀ id, s.runner = some id → 0 < id ∧ id + 1 = s.nextRunner
  next_pos : 0 < s.nextRunner

theorem new_sound : Session.new.Sound where
  durability_le := by decide
  exhausted_iff := by decide
  runner_active := nofun
  runner_latest := nofun
  next_pos := Nat.one_pos

theorem worn_le (config : Config) (s : Session) : s.worn config ≤ s.durability := by
  unfold worn
  split
  · exact UInt8.zero_le
  · exact UInt8.sub_le (UInt8.le_of_lt (UInt8.not_le.mp ‹_›))

theorem checkInvariants_eq_ok_iff {previous : UInt64} {s : Session} :
    s.checkInvariants previous = .ok () ↔
      s.durability ≤ fullDurability ∧ previous ≤ s.tickCount := by
  unfold checkInvariants
  by_cases hfull : s.durability > fullDurability
  · rw [if_pos hfull]
    exact iff_of_false nofun fun h => UInt8.not_le.mpr hfull h.1
  · rw [if_neg hfull]
    by_cases hback : s.tickCount < previous
    · rw [if_pos hback]
      exact iff_of_false nofun fun h => UInt64.not_le.mpr hback h.2
    · rw [if_neg hback]
      exact iff_of_true rfl ⟨UInt8.not_lt.mp hfull, UInt64.not_lt.mp hback⟩

namespace Sound

variable {s : Session}

/-- A new activation has all of the tool and, unless a runner stays, the latest runner. -/
theorem activate (h : s.Sound) (target : Block) : (s.activate target).2.Sound := by
  have hfull : fullDurability = 0 ↔ State.activating = .exhausted := by decide
  unfold Session.activate
  split
  · refine ⟨UInt8.le_refl _, hfull, fun _ _ => rfl, ?_, Nat.succ_pos _⟩
    rintro id ⟨rfl⟩
    exact ⟨h.next_pos, rfl⟩
  · exact ⟨UInt8.le_refl _, hfull, fun _ _ => rfl, h.runner_latest, h.next_pos⟩

theorem requestStop (h : s.Sound) : s.requestStop.Sound :=
  ⟨h.durability_le, h.exhausted_iff, h.runner_active, h.runner_latest, h.next_pos⟩

theorem left (h : s.Sound) : { s with runner := none }.Sound :=
  ⟨h.durability_le, h.exhausted_iff, nofun, nofun, h.next_pos⟩

theorem stopped (h : s.Sound) : s.stopped.Sound where
  durability_le := h.durability_le
  exhausted_iff := by
    refine h.exhausted_iff.trans ?_
    cases hstate : s.state <;> simp [Session.stopped, hstate, State.isActive]
  runner_active := nofun
  runner_latest := nofun
  next_pos := h.next_pos

theorem detach (h : s.Sound) (runner : RunnerId) : (s.detach runner).Sound := by
  unfold Session.detach
  split
  · exact h
  · split
    · exact h.stopped
    · exact h.left

theorem counted (h : s.Sound) (hactive : s.state.isActive = true) : s.counted.Sound where
  durability_le := h.durability_le
  exhausted_iff := by
    have hleft : s.durability ≠ 0 := fun hzero => by
      rw [h.exhausted_iff.mp hzero] at hactive
      cases hactive
    exact iff_of_false hleft nofun
  runner_active := fun _ _ => rfl
  runner_latest := h.runner_latest
  next_pos := h.next_pos

theorem worked (h : s.Sound) (hactive : s.state.isActive = true) {plan : Plan} {after : Session}
    (hworked : Worked config s plan after) : after.Sound := by
  obtain ⟨held, hreleased⟩ := s.released_eq
  cases hworked with
  | spared =>
    rw [hreleased]
    exact ⟨h.durability_le, h.exhausted_iff, h.runner_active, h.runner_latest, h.next_pos⟩
  | worn htick hleft =>
    obtain ⟨dig, hdig⟩ := startDig_eq config
      { s.released with durability := s.worn config }
    rw [hdig, hreleased]
    exact {
      durability_le := UInt8.le_trans (worn_le config s) h.durability_le
      exhausted_iff := iff_of_false hleft fun hexhausted => by
        rw [show s.state = .exhausted from hexhausted] at hactive
        cases hactive
      runner_active := h.runner_active
      runner_latest := h.runner_latest
      next_pos := h.next_pos }
  | broken =>
    rw [hreleased]
    exact ⟨UInt8.zero_le, iff_of_true rfl rfl, nofun, nofun, h.next_pos⟩

theorem ticked (h : s.Sound) {runner : RunnerId} {turn : Turn} {after : Session}
    (hticked : Ticked config runner s turn after) : after.Sound := by
  cases hticked with
  | foreign => exact h
  | stopped => exact h.stopped
  | ended => exact h.left
  | zeroInterval _ _ hactive => exact h.counted hactive
  | planned _ _ hactive hwork => exact (h.counted hactive).worked rfl (worked_of_work hwork)
  | corrupted _ _ hactive hwork => exact (h.counted hactive).worked rfl (worked_of_work hwork)

end Sound

/-- What 64 bits can count does not wrap around. -/
theorem le_ofNat_succ {n : Nat} (hn : n + 1 < UInt64.size) :
    UInt64.ofNat n ≤ UInt64.ofNat n + 1 := by
  rw [UInt64.le_iff_toNat_le, show UInt64.ofNat n + 1 = UInt64.ofNat (n + 1) from
    (UInt64.ofNat_add n 1).symm, UInt64.toNat_ofNat_of_lt' hn,
    UInt64.toNat_ofNat_of_lt' (Nat.lt_of_succ_lt hn)]
  exact Nat.le_succ n

end Session

/-! ### Calls -/

open Session

variable {config : Config}

/-- A call of the session. Callers activate and stop, runners tick and leave. -/
inductive Call where
  | activate (target : Block)
  | requestStop
  | beginTick (runner : RunnerId)
  | detach (runner : RunnerId)
deriving DecidableEq, Repr

namespace Call

/-- The session after it. -/
def perform (config : Config) : Call → Session → Session
  | .activate target, s => (s.activate target).2
  | .requestStop, s => s.requestStop
  | .beginTick runner, s => (s.beginTick config runner).2
  | .detach runner, s => s.detach runner

/-- The id that it gives to a new runner. -/
def issued? : Call → Session → Option RunnerId
  | .activate target, s => (s.activate target).1
  | .requestStop, _ | .beginTick _, _ | .detach _, _ => none

/-- The ticks of the activation after it, of `n` before. -/
def ticks (config : Config) : Call → Session → (n : Nat) → Nat
  | .activate _, _, _ => 0
  | .beginTick runner, s, n => if (s.beginTick config runner).1 = .leave then n else n + 1
  | .requestStop, _, n | .detach _, _, n => n

/-- The states that the session enters, one after another. -/
def entered (config : Config) : Call → Session → List State
  | .activate _, _ => [.activating]
  | .requestStop, _ => []
  | .beginTick runner, s =>
    if s.runner ≠ some runner then []
    else if s.stopRequested then if s.state.isActive then [.stopped] else []
    else match s.state.next with
      | none => []
      | some state =>
        (if state = s.state then [] else [state]) ++
          (if (s.counted.work config).1.broke then [.exhausted] else [])
  | .detach runner, s =>
    if s.runner = some runner ∧ s.stopRequested ∧ s.state.isActive then [.stopped] else []

theorem perform_sound (config : Config) (x : Call) {s : Session} (h : s.Sound) :
    (x.perform config s).Sound := by
  cases x with
  | activate target => exact h.activate target
  | requestStop => exact h.requestStop
  | beginTick runner => exact h.ticked (s.beginTick_ticked config runner)
  | detach runner => exact h.detach runner

/-! ### States -/

theorem halted_path (s : Session) :
    State.Path s.state (if s.state.isActive then [.stopped] else []) s.stopped.state := by
  unfold stopped
  cases hstate : s.state with
  | activating | running => exact .step rfl (.refl _)
  | idle | exhausted | stopped => exact .refl _

theorem worked_path {s : Session} {plan : Plan} {after : Session}
    (hactive : s.state.isActive = true) (h : Worked config s.counted plan after) :
    State.Path s.state ((if .running = s.state then [] else [.running]) ++
      if plan.broke then [.exhausted] else []) after.state := by
  refine (State.running_path hactive).append ?_
  obtain ⟨durability, held, rfl⟩ := h.frame
  cases plan.broke with
  | true => exact .step rfl (.refl _)
  | false => exact .refl _

/-- **A call makes no change of state that is not allowed**, and no other change than it makes. -/
theorem entered_path (hanimation : config.animation ≠ 0) (hdurability : config.durability ≠ 0)
    (x : Call) (s : Session) :
    State.Path s.state (x.entered config s) (x.perform config s).state := by
  cases x with
  | activate target =>
    have hallowed : s.state.canTransitionTo .activating = true := by cases s.state <;> rfl
    have hafter : (s.activate target).2.state = .activating := by
      unfold Session.activate
      split <;> rfl
    rw [perform, hafter]
    exact .step hallowed (.refl _)
  | requestStop => exact .refl _
  | beginTick runner =>
    have hticked := s.beginTick_ticked config runner
    rcases hturn : s.beginTick config runner with ⟨turn, after⟩
    rw [hturn] at hticked
    rw [perform, hturn, entered]
    cases hticked with
    | foreign hrunner =>
      rw [if_pos hrunner]
      exact .refl _
    | stopped hrunner hstop =>
      rw [if_neg (not_not_intro hrunner), if_pos hstop]
      exact halted_path s
    | ended hrunner hstop hover =>
      rw [if_neg (not_not_intro hrunner), hstop, State.next_eq_none_iff.mpr hover]
      exact .refl _
    | zeroInterval _ _ _ hzero => exact absurd hzero (not_or.mpr ⟨hanimation, hdurability⟩)
    | planned hrunner hstop hactive hwork | corrupted hrunner hstop hactive hwork =>
      rw [if_neg (not_not_intro hrunner), hstop, State.next_eq_some_iff.mpr ⟨hactive, rfl⟩, hwork]
      exact worked_path hactive (worked_of_work hwork)
  | detach runner =>
    rw [perform, entered, Session.detach]
    by_cases hrunner : s.runner = some runner
    · rw [if_neg (not_not_intro hrunner)]
      cases hstop : s.stopRequested with
      | true => simpa [hrunner] using halted_path s
      | false => simpa using State.Path.refl s.state
    · rw [if_neg fun h => hrunner h.1, if_pos hrunner]
      exact .refl _

/-! ### Ids and ticks -/

theorem detach_frame (runner : RunnerId) (s : Session) :
    (s.detach runner).tickCount = s.tickCount ∧ (s.detach runner).nextRunner = s.nextRunner ∧
      (s.detach runner).activations = s.activations := by
  unfold Session.detach
  split
  · exact ⟨rfl, rfl, rfl⟩
  · split <;> exact ⟨rfl, rfl, rfl⟩

/-- An id that is issued is the next one, and costs an activation. -/
theorem issued?_cases (config : Config) (x : Call) (s : Session) :
    (x.issued? s = none ∧ (x.perform config s).nextRunner = s.nextRunner ∧
      s.activations ≤ (x.perform config s).activations) ∨
    (x.issued? s = some s.nextRunner ∧ (x.perform config s).nextRunner = s.nextRunner + 1 ∧
      s.activations + 1 = (x.perform config s).activations) := by
  cases x with
  | activate target =>
    rw [issued?, perform, Session.activate]
    split
    · exact .inr ⟨rfl, rfl, rfl⟩
    · exact .inl ⟨rfl, rfl, Nat.le_succ _⟩
  | requestStop => exact .inl ⟨rfl, rfl, Nat.le_refl _⟩
  | beginTick runner =>
    obtain ⟨-, hnext, hactivations⟩ := (s.beginTick_ticked config runner).frame
    exact .inl ⟨rfl, hnext, Nat.le_of_eq hactivations.symm⟩
  | detach runner =>
    obtain ⟨-, hnext, hactivations⟩ := detach_frame runner s
    exact .inl ⟨rfl, hnext, Nat.le_of_eq hactivations.symm⟩

/-- The count of ticks is that of the ticks, as far as 64 bits go. -/
theorem perform_tickCount (config : Config) (x : Call) {s : Session} {n : Nat}
    (h : s.tickCount = UInt64.ofNat n) :
    (x.perform config s).tickCount = UInt64.ofNat (x.ticks config s n) := by
  cases x with
  | activate target =>
    rw [perform, Session.activate]
    split <;> rfl
  | requestStop => exact h
  | beginTick runner =>
    rw [perform, (s.beginTick_ticked config runner).frame.1, h, ticks]
    split
    · rfl
    · exact (UInt64.ofNat_add n 1).symm
  | detach runner =>
    rw [perform, (detach_frame runner s).1]
    exact h

theorem tickCount_le_perform {x : Call} {s : Session} {n : Nat}
    (hcount : s.tickCount = UInt64.ofNat n) (hx : ∀ target, x ≠ .activate target)
    (hn : x.ticks config s n < UInt64.size) : s.tickCount ≤ (x.perform config s).tickCount := by
  cases x with
  | activate target => exact absurd rfl (hx target)
  | requestStop => exact UInt64.le_refl _
  | beginTick runner =>
    rw [perform, (s.beginTick_ticked config runner).frame.1]
    by_cases hleave : (s.beginTick config runner).1 = .leave
    · rw [if_pos hleave]
      exact UInt64.le_refl _
    · rw [ticks, if_neg hleave] at hn
      rw [if_neg hleave, hcount]
      exact le_ofNat_succ hn
  | detach runner =>
    rw [perform, (detach_frame runner s).1]
    exact UInt64.le_refl _

end Call

namespace Session

/-- The session after calls, one after another. -/
def performAll (config : Config) : List Call → Session → Session
  | [], s => s
  | x :: rest, s => performAll config rest (x.perform config s)

/-- The ids that they give out. -/
def issuedAll (config : Config) : List Call → Session → List RunnerId
  | [], _ => []
  | x :: rest, s => (x.issued? s).toList ++ issuedAll config rest (x.perform config s)

/-- The ticks of the activation after them, of `n` before. -/
def ticksAll (config : Config) : List Call → Session → (n : Nat) → Nat
  | [], _, n => n
  | x :: rest, s, n => ticksAll config rest (x.perform config s) (x.ticks config s n)

theorem performAll_append (first rest : List Call) (s : Session) :
    performAll config (first ++ rest) s = performAll config rest (performAll config first s) := by
  induction first generalizing s with
  | nil => rfl
  | cons x first ih => exact ih _

theorem performAll_sound (calls : List Call) {s : Session} (h : s.Sound) :
    (performAll config calls s).Sound := by
  induction calls generalizing s with
  | nil => exact h
  | cons x rest ih => exact ih (x.perform_sound config h)

theorem performAll_tickCount (calls : List Call) {s : Session} {n : Nat}
    (h : s.tickCount = UInt64.ofNat n) :
    (performAll config calls s).tickCount = UInt64.ofNat (ticksAll config calls s n) := by
  induction calls generalizing s n with
  | nil => exact h
  | cons x rest ih => exact ih (x.perform_tickCount config h)

/-- The ids are given out in their order, without a gap. -/
theorem issuedAll_eq (config : Config) (calls : List Call) (s : Session) :
    ∃ k, issuedAll config calls s = List.range' s.nextRunner k ∧
      (performAll config calls s).nextRunner = s.nextRunner + k ∧
      s.activations + k ≤ (performAll config calls s).activations := by
  induction calls generalizing s with
  | nil => exact ⟨0, rfl, rfl, Nat.le_refl _⟩
  | cons x rest ih =>
    obtain ⟨k, hids, hnext, hactivations⟩ := ih (x.perform config s)
    rcases x.issued?_cases config s with ⟨hissued, hsame, hle⟩ | ⟨hissued, hsucc, hone⟩
    · refine ⟨k, ?_, ?_, Nat.le_trans (Nat.add_le_add_right hle k) hactivations⟩
      · rw [issuedAll, hissued, hids, hsame]
        rfl
      · rw [performAll, hnext, hsame]
    · refine ⟨k + 1, ?_, ?_, ?_⟩
      · rw [issuedAll, hissued, hids, hsucc, List.range'_succ]
        rfl
      · rw [performAll, hnext, hsucc]
        exact Nat.succ_add_eq_add_succ _ _
      · rw [performAll]
        omega

theorem issuedAll_new (config : Config) (calls : List Call) :
    ∃ k, issuedAll config calls .new = List.range' 1 k ∧
      (performAll config calls .new).nextRunner = k + 1 ∧
      k ≤ (performAll config calls .new).activations := by
  obtain ⟨k, hids, hnext, hactivations⟩ := issuedAll_eq config calls .new
  exact ⟨k, hids, hnext.trans (Nat.add_comm 1 k), by rwa [← Nat.zero_add k]⟩

/-- The runner of a session is the latest one. -/
theorem runner_eq_getLast? (config : Config) (calls : List Call) :
    (performAll config calls .new).runner = none ∨
      (performAll config calls .new).runner = (issuedAll config calls .new).getLast? := by
  obtain ⟨k, hids, hnext, -⟩ := issuedAll_new config calls
  cases hrunner : (performAll config calls .new).runner with
  | none => exact .inl rfl
  | some id =>
    obtain ⟨hpos, hlatest⟩ := (performAll_sound calls new_sound).runner_latest id hrunner
    obtain rfl : id = k := Nat.succ.inj (hlatest.trans hnext)
    refine .inr ?_
    rw [hids, List.getLast?_range', if_neg (Nat.ne_of_gt hpos)]
    exact congrArg some (Nat.add_sub_cancel_left 1 id).symm

/-- A tick that 64 bits can count finds all fields in their ranges. -/
theorem beginTick_ne_fault (hanimation : config.animation ≠ 0) (hdurability : config.durability ≠ 0)
    {s : Session} (h : s.Sound) {n : Nat} (hcount : s.tickCount = UInt64.ofNat n)
    (hn : n + 1 < UInt64.size) (runner : RunnerId) (e : Error) :
    (s.beginTick config runner).1 ≠ .fault e := by
  intro hfault
  have hticked := s.beginTick_ticked config runner
  rcases hturn : s.beginTick config runner with ⟨turn, after⟩
  rw [hturn] at hticked hfault
  obtain rfl : turn = .fault e := hfault
  have hkept : s.tickCount ≤ after.tickCount := by
    rw [hticked.frame.1, hcount]
    exact le_ofNat_succ hn
  cases hticked with
  | zeroInterval _ _ _ hzero => exact not_or.mpr ⟨hanimation, hdurability⟩ hzero
  | corrupted _ _ hactive hwork hranges =>
    have hafter := (h.counted hactive).worked rfl (worked_of_work hwork)
    rw [checkInvariants_eq_ok_iff.mpr ⟨hafter.durability_le, hkept⟩] at hranges
    cases hranges

/-- **What holds of a mining session whatever was called.** Let no interval of the settings be zero.
After any calls since the session was new, and through any further one:

* no more than all of the tool is left, and nothing of it exactly if the session is exhausted;
* the session goes from state to state by allowed changes only;
* its runner, if it has one, is the one whose id was issued last, ids are issued in ascending order
  and no more of them than there were activations, and a session with a runner is active;
* only an activation lowers the count of ticks;
* a tick of another runner, or its leaving, changes nothing;
* no tick breaks off.

The fourth and the last hold as long as 64 bits can count the ticks of an activation. -/
theorem session_invariant (config : Config) (hanimation : config.animation ≠ 0)
    (hdurability : config.durability ≠ 0) (calls : List Call) (x : Call) :
    let s := performAll config calls .new
    let after := x.perform config s
    let ids := issuedAll config calls .new
    let n := ticksAll config calls .new 0
    (s.durability ≤ fullDurability ∧ (s.durability = 0 ↔ s.state = .exhausted)) ∧
    State.Path s.state (x.entered config s) after.state ∧
    ((s.runner = none ∨ s.runner = ids.getLast?) ∧ ids.Pairwise (· < ·) ∧
      (∀ id ∈ ids, id ≤ s.activations) ∧ (s.runner.isSome = true → s.state.isActive = true)) ∧
    ((∀ target, x ≠ .activate target) → x.ticks config s n < UInt64.size →
      s.tickCount ≤ after.tickCount) ∧
    (∀ runner, s.runner ≠ some runner →
      s.beginTick config runner = (.leave, s) ∧ s.detach runner = s) ∧
    (n + 1 < UInt64.size → ∀ runner e, (s.beginTick config runner).1 ≠ .fault e) := by
  intro s after ids n
  have hsound : s.Sound := performAll_sound calls new_sound
  have hcount : s.tickCount = UInt64.ofNat n := performAll_tickCount calls rfl
  obtain ⟨k, hids, -, hactivations⟩ := issuedAll_new config calls
  refine ⟨⟨hsound.durability_le, hsound.exhausted_iff⟩,
    x.entered_path hanimation hdurability s,
    ⟨runner_eq_getLast? config calls, ?_, ?_, ?_⟩, ?_, ?_,
    fun hn => beginTick_ne_fault hanimation hdurability hsound hcount hn⟩
  · rw [show ids = _ from hids]
    exact List.pairwise_lt_range'
  · intro id hid
    rw [show ids = _ from hids, List.mem_range'_1] at hid
    exact Nat.le_trans (Nat.lt_one_add_iff.mp hid.2) hactivations
  · intro hrunner
    obtain ⟨id, hid⟩ := Option.isSome_iff_exists.mp hrunner
    exact hsound.runner_active id hid
  · exact fun hx hn => Call.tickCount_le_perform hcount hx hn
  · intro runner hrunner
    exact ⟨by rw [beginTick, if_pos hrunner], by rw [detach, if_pos hrunner]⟩

/-- A runner is stopped, replaced, and late; the other one wears the tool down. -/
theorem session_invariant_replaced :
    let config := { Config.standard with animation := 1, durability := 1, step := 60 }
    let calls : List Call := [.activate ⟨0, 64, 0⟩, .beginTick 1, .requestStop,
      .activate ⟨0, 63, 0⟩, .detach 1, .beginTick 2]
    let s := performAll config calls .new
    (config.animation ≠ 0 ∧ config.durability ≠ 0) ∧
      s.runner = some 2 ∧ s.durability = 40 ∧
      s.beginTick config 1 = (.leave, s) ∧
      State.Path s.state [.exhausted] (s.beginTick config 2).2.state ∧
      ∀ e, (s.beginTick config 2).1 ≠ .fault e := by
  intro config calls s
  have hanimation : config.animation ≠ 0 := by decide
  have hdurability : config.durability ≠ 0 := by decide
  obtain ⟨-, hpath, -, -, hforeign, hfault⟩ :=
    session_invariant config hanimation hdurability calls (.beginTick 2)
  have hrunner : s.runner = some 2 := by decide
  have hentered : (Call.beginTick 2).entered config s = [.exhausted] := by decide
  rw [hentered] at hpath
  exact ⟨⟨hanimation, hdurability⟩, hrunner, by decide, (hforeign 1 (by decide)).1, hpath,
    hfault (by decide) 2⟩

end Session

end Pickaxe.Mining
