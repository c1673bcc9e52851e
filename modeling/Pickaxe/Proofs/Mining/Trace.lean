import Mathlib.Algebra.Order.Floor.Div
import Pickaxe.Proofs.Mining.Phases

/-! The plans of an activation that is left alone.

If only the attached runner ticks, the session after some ticks and the plan of the next one are known from
the settings and their number alone (`Running`, `planAt`). One tick goes on from there or breaks the tool
(`Running.beginTick`). `activation_trace` reads the closed forms for the whole activation, up to the break and
beyond it. -/
namespace Pickaxe.Mining

open World (Block)
open Session (fullDurability Worked)

namespace Config

/-- The points left after so many wears. -/
def left (c : Config) (wears : Nat) : Nat := fullDurability.toNat - c.step.toNat * wears

/-- The tick of the latest wear, zero if there was none. -/
def lastWear (c : Config) (tick : Nat) : Nat := c.durability.toNat * (tick / c.durability.toNat)

/-- The first tick from `start` on that finds a dig of tick `start` due. It is not that tick itself, and 64
bits count to it. -/
def ends (c : Config) (start : Nat) : Nat := max (start + 1) (UInt64.ofNat start + c.hold).toNat

/-- The dig that is held after a tick. -/
def heldAt (c : Config) (target : Block) (tick : Nat) : Option Held :=
  let start := c.lastWear tick
  if start ≠ 0 ∧ tick < c.ends start then some ⟨.ofNat start + c.hold, target⟩ else none

/-- The block whose dig ends on a tick. -/
def finishAt (c : Config) (target : Block) (tick : Nat) : Option Block :=
  let start := c.lastWear (tick - 1)
  if start ≠ 0 ∧ tick = c.ends start then some target else none

/-- The plan of a tick. -/
def planAt (c : Config) (target : Block) (tick : Nat) : Plan where
  tick := .ofNat tick
  swing := c.animation.toNat ∣ tick
  finish := c.finishAt target tick
  start := if c.durability.toNat ∣ tick ∧ c.left (tick / c.durability.toNat) ≠ 0 then some target else none
  durability := if c.durability.toNat ∣ tick then some (.ofNat (c.left (tick / c.durability.toNat))) else none
  broke := c.durability.toNat ∣ tick ∧ c.left (tick / c.durability.toNat) = 0

end Config

variable {config : Config} {runner : RunnerId} {target : Block}

namespace Config

theorem left_succ (c : Config) (wears : Nat) : c.left (wears + 1) = c.left wears - c.step.toNat := by
  rw [left, left, Nat.mul_succ, Nat.sub_sub]

theorem left_le (c : Config) (wears : Nat) : c.left wears ≤ fullDurability.toNat := Nat.sub_le _ _

theorem left_anti (c : Config) {wears more : Nat} (h : wears ≤ more) : c.left more ≤ c.left wears :=
  Nat.sub_le_sub_left (Nat.mul_le_mul_left _ h) _

theorem left_eq_zero_iff {c : Config} (hstep : c.step ≠ 0) {wears : Nat} :
    c.left wears = 0 ↔ fullDurability.toNat ⌈/⌉ c.step.toNat ≤ wears := by
  have hpos : 0 < c.step.toNat := UInt8.lt_iff_toNat_lt.mp (UInt8.pos_iff_ne_zero.mpr hstep)
  rw [ceilDiv_le_iff_le_mul hpos, left, Nat.sub_eq_zero_iff_le]

/-! ### From one tick to the next -/

theorem lastWear_succ_of_dvd {c : Config} {tick : Nat} (h : c.durability.toNat ∣ tick + 1) :
    c.lastWear (tick + 1) = tick + 1 := Nat.mul_div_cancel' h

theorem div_succ_of_not_dvd {c : Config} {tick : Nat} (h : ¬ c.durability.toNat ∣ tick + 1) :
    (tick + 1) / c.durability.toNat = tick / c.durability.toNat := by
  rw [Nat.succ_div, if_neg h, Nat.add_zero]

theorem lastWear_succ_of_not_dvd {c : Config} {tick : Nat} (h : ¬ c.durability.toNat ∣ tick + 1) :
    c.lastWear (tick + 1) = c.lastWear tick := by
  rw [lastWear, lastWear, div_succ_of_not_dvd h]

theorem div_succ_of_dvd {c : Config} {tick : Nat} (h : c.durability.toNat ∣ tick + 1) :
    (tick + 1) / c.durability.toNat = tick / c.durability.toNat + 1 := by
  rw [Nat.succ_div, if_pos h]

theorem lastWear_le (c : Config) (tick : Nat) : c.lastWear tick ≤ tick := Nat.mul_div_le _ _

theorem ends_eq {c : Config} {start : Nat} (hholds : 1 ≤ c.hold.toNat)
    (hcount : start + c.hold.toNat < UInt64.size) : c.ends start = start + c.hold.toNat := by
  have hstart := UInt64.toNat_ofNat_of_lt' (Nat.lt_of_le_of_lt (Nat.le_add_right ..) hcount)
  have hdue : (UInt64.ofNat start + c.hold).toNat = start + c.hold.toNat := by
    rw [UInt64.toNat_add, hstart]
    exact Nat.mod_eq_of_lt hcount
  rw [ends, hdue]
  exact Nat.max_eq_right (Nat.add_le_add_left hholds start)

/-- A dig that is due on the next tick is one that the next tick ends. -/
theorem due_le_iff {c : Config} {tick : Nat} (hcount : tick + 1 < UInt64.size)
    (hheld : tick < c.ends (c.lastWear tick)) :
    UInt64.ofNat (c.lastWear tick) + c.hold ≤ UInt64.ofNat (tick + 1) ↔
      tick + 1 = c.ends (c.lastWear tick) := by
  have hstart := c.lastWear_le tick
  rw [UInt64.le_iff_toNat_le, UInt64.toNat_ofNat_of_lt' hcount]
  unfold ends at hheld ⊢
  omega

/-- A dig is held after a tick that does not wear the tool unless the tick ends it. -/
theorem heldAt_succ {c : Config} {tick : Nat} (target : Block) (h : ¬ c.durability.toNat ∣ tick + 1) :
    c.heldAt target (tick + 1) =
      if (c.finishAt target (tick + 1)).isSome then none else c.heldAt target tick := by
  unfold heldAt finishAt
  rw [lastWear_succ_of_not_dvd h, Nat.add_sub_cancel]
  by_cases hends : c.lastWear tick ≠ 0 ∧ tick + 1 = c.ends (c.lastWear tick)
  · simp only [if_pos hends]
    exact if_neg fun hheld => Nat.ne_of_lt hheld.2 hends.2
  · have hheld : (c.lastWear tick ≠ 0 ∧ tick + 1 < c.ends (c.lastWear tick)) ↔
        c.lastWear tick ≠ 0 ∧ tick < c.ends (c.lastWear tick) := by
      omega
    simp only [if_neg hends]
    rw [Option.isSome_none, if_neg Bool.false_ne_true, if_congr hheld rfl rfl]

/-- A dig that starts is held. -/
theorem heldAt_of_wear {c : Config} {tick : Nat} (target : Block) (h : c.durability.toNat ∣ tick + 1) :
    c.heldAt target (tick + 1) = some ⟨.ofNat (tick + 1) + c.hold, target⟩ := by
  unfold heldAt
  rw [lastWear_succ_of_dvd h]
  exact if_pos ⟨Nat.succ_ne_zero tick, Nat.lt_of_lt_of_le (Nat.lt_succ_self _) (Nat.le_max_left ..)⟩

theorem planAt_of_not_dvd {c : Config} {tick : Nat} (target : Block) (h : ¬ c.durability.toNat ∣ tick) :
    c.planAt target tick =
      ⟨.ofNat tick, c.animation.toNat ∣ tick, c.finishAt target tick, none, none, false⟩ := by
  simp [planAt, h]

theorem planAt_of_wear {c : Config} {tick : Nat} (target : Block) (h : c.durability.toNat ∣ tick)
    (hleft : c.left (tick / c.durability.toNat) ≠ 0) :
    c.planAt target tick = ⟨.ofNat tick, c.animation.toNat ∣ tick, c.finishAt target tick, some target,
      some (.ofNat (c.left (tick / c.durability.toNat))), false⟩ := by
  simp [planAt, h, hleft]

theorem planAt_of_break {c : Config} {tick : Nat} (target : Block) (h : c.durability.toNat ∣ tick)
    (hleft : c.left (tick / c.durability.toNat) = 0) :
    c.planAt target tick =
      ⟨.ofNat tick, c.animation.toNat ∣ tick, c.finishAt target tick, none, some 0, true⟩ := by
  simp [planAt, h, hleft]

end Config

theorem ofNat_mod_eq_zero_iff {tick : Nat} (hcount : tick < UInt64.size) (interval : UInt64) :
    UInt64.ofNat tick % interval = 0 ↔ interval.toNat ∣ tick := by
  rw [← UInt64.toNat_inj, UInt64.toNat_mod, UInt64.toNat_ofNat_of_lt' hcount]
  exact (Nat.dvd_iff_mod_eq_zero ..).symm

theorem Session.toNat_worn (config : Config) (s : Session) :
    (s.worn config).toNat = s.durability.toNat - config.step.toNat := by
  unfold worn
  split
  · have hle := UInt8.le_iff_toNat_le.mp ‹_›
    exact (Nat.sub_eq_zero_of_le hle).symm
  · exact UInt8.toNat_sub_of_le _ _ (UInt8.le_of_lt (UInt8.not_le.mp ‹_›))

/-! ### One tick -/

/-- The session after so many ticks of the runner since it was activated at `target`. -/
structure Running (config : Config) (runner : RunnerId) (target : Block) (tick : Nat) (s : Session) :
    Prop where
  runner_eq : s.runner = some runner
  wanted : s.stopRequested = false
  active : s.state.isActive = true
  target_eq : s.target = some target
  tickCount_eq : s.tickCount = .ofNat tick
  durability_eq : s.durability.toNat = config.left (tick / config.durability.toNat)
  left_ne_zero : config.left (tick / config.durability.toNat) ≠ 0
  held_eq : s.held = config.heldAt target tick

/-- The tool is broken, and nobody ticks. -/
structure Session.Broken (s : Session) : Prop where
  runner_eq : s.runner = none
  state_eq : s.state = .exhausted
  durability_eq : s.durability = 0

namespace Running

variable {tick : Nat} {s after : Session} {plan : Plan}

theorem counted_eq (h : Running config runner target tick s) : s.counted.tickCount = .ofNat (tick + 1) := by
  rw [show s.counted.tickCount = s.tickCount + 1 from rfl, h.tickCount_eq]
  exact (UInt64.ofNat_add tick 1).symm

theorem finished_eq (h : Running config runner target tick s) (hcount : tick + 1 < UInt64.size) :
    s.counted.finished = config.finishAt target (tick + 1) := by
  unfold Session.finished Config.finishAt
  rw [show s.counted.held = _ from h.held_eq, h.counted_eq, Config.heldAt, Nat.add_sub_cancel]
  by_cases hheld : config.lastWear tick ≠ 0 ∧ tick < config.ends (config.lastWear tick)
  · rw [if_pos hheld]
    exact if_congr ((Config.due_le_iff hcount hheld.2).trans (and_iff_right hheld.1).symm) rfl rfl
  · have hnone : ¬ (config.lastWear tick ≠ 0 ∧ tick + 1 = config.ends (config.lastWear tick)) :=
      fun hends => hheld ⟨hends.1, Nat.lt_of_succ_le (Nat.le_of_eq hends.2)⟩
    rw [if_neg hheld, if_neg hnone]

theorem released_eq (h : Running config runner target tick s) (hcount : tick + 1 < UInt64.size)
    (hspared : ¬ config.durability.toNat ∣ tick + 1) :
    s.counted.released.held = config.heldAt target (tick + 1) := by
  unfold Session.released
  rw [h.finished_eq hcount, Config.heldAt_succ target hspared]
  split
  · rfl
  · exact h.held_eq

theorem worn_eq (h : Running config runner target tick s) (hwear : config.durability.toNat ∣ tick + 1) :
    (s.counted.worn config).toNat = config.left ((tick + 1) / config.durability.toNat) := by
  rw [Session.toNat_worn, show s.counted.durability = s.durability from rfl, h.durability_eq,
    Config.div_succ_of_dvd hwear, Config.left_succ]

theorem worked (h : Running config runner target tick s) (hcount : tick + 1 < UInt64.size)
    (hworked : Worked config s.counted plan after) :
    plan = config.planAt target (tick + 1) ∧
      (plan.broke = false → Running config runner target (tick + 1) after) ∧
      (plan.broke = true → after.Broken) := by
  have hswing : decide (s.counted.tickCount % config.animation = 0) =
      decide (config.animation.toNat ∣ tick + 1) := by
    rw [h.counted_eq]
    exact decide_eq_decide.mpr (ofNat_mod_eq_zero_iff hcount _)
  have hwears : s.counted.tickCount % config.durability = 0 ↔ config.durability.toNat ∣ tick + 1 := by
    rw [h.counted_eq]
    exact ofNat_mod_eq_zero_iff hcount _
  obtain ⟨held, hreleased⟩ := s.counted.released_eq
  cases hworked with
  | spared hspared =>
    rw [Ne, hwears] at hspared
    have hheld := h.released_eq hcount hspared
    have hsame := Config.div_succ_of_not_dvd hspared
    rw [hreleased] at hheld ⊢
    refine ⟨?_, fun _ => ?_, nofun⟩
    · rw [hswing, h.counted_eq, h.finished_eq hcount, Config.planAt_of_not_dvd target hspared]
    · exact {
        runner_eq := h.runner_eq
        wanted := h.wanted
        active := rfl
        target_eq := h.target_eq
        tickCount_eq := h.counted_eq
        durability_eq := by
          rw [hsame]
          exact h.durability_eq
        left_ne_zero := by
          rw [hsame]
          exact h.left_ne_zero
        held_eq := hheld }
  | worn hwear hleft =>
    rw [hwears] at hwear
    have hworn := h.worn_eq hwear
    have hpoints : config.left ((tick + 1) / config.durability.toNat) ≠ 0 := fun hzero =>
      hleft (UInt8.toNat_inj.mp (hworn.trans hzero))
    have hstarted :
        ({ s.counted.released with durability := s.counted.worn config }).target = some target := by
      rw [hreleased]
      exact h.target_eq
    rw [Session.startDig_of_some config hstarted, hreleased]
    refine ⟨?_, fun _ => ?_, nofun⟩
    · rw [hswing, h.counted_eq, h.finished_eq hcount, Config.planAt_of_wear target hwear hpoints, ← hworn,
        UInt8.ofNat_toNat]
      exact congrArg (Plan.mk _ _ _ · _ _) h.target_eq
    · exact {
        runner_eq := h.runner_eq
        wanted := h.wanted
        active := rfl
        target_eq := h.target_eq
        tickCount_eq := h.counted_eq
        durability_eq := hworn
        left_ne_zero := hpoints
        held_eq := by
          rw [Config.heldAt_of_wear target hwear, ← h.counted_eq] }
  | broken hwear hleft =>
    rw [hwears] at hwear
    have hpoints : config.left ((tick + 1) / config.durability.toNat) = 0 := by
      rw [← h.worn_eq hwear, hleft]
      rfl
    refine ⟨?_, nofun, fun _ => ⟨rfl, rfl, rfl⟩⟩
    rw [hswing, h.counted_eq, h.finished_eq hcount, Config.planAt_of_break target hwear hpoints]

/-- The fields are in their ranges after a tick. -/
theorem checkInvariants_eq (h : Running config runner target tick s) (hcount : tick + 1 < UInt64.size)
    (hworked : Worked config s.counted plan after) : after.checkInvariants s.tickCount = .ok () := by
  refine Session.checkInvariants_eq_ok_iff.mpr ⟨?_, ?_⟩
  · obtain ⟨-, hgoes, hbreaks⟩ := h.worked hcount hworked
    cases hbroke : plan.broke with
    | true =>
      rw [(hbreaks hbroke).durability_eq]
      exact UInt8.zero_le
    | false =>
      rw [UInt8.le_iff_toNat_le, (hgoes hbroke).durability_eq]
      exact config.left_le _
  · obtain ⟨durability, held, rfl⟩ := hworked.frame
    show s.tickCount ≤ s.tickCount + 1
    rw [h.tickCount_eq]
    exact Session.le_ofNat_succ hcount

/-- **A tick makes the plan that its number says**, and breaks the tool or leaves a session of the next
number. -/
theorem beginTick (h : Running config runner target tick s) (hanimation : config.animation ≠ 0)
    (hdurability : config.durability ≠ 0) (hcount : tick + 1 < UInt64.size) :
    ∃ after, s.beginTick config runner = (.tick (config.planAt target (tick + 1)), after) ∧
      ((config.planAt target (tick + 1)).broke = false → Running config runner target (tick + 1) after) ∧
      ((config.planAt target (tick + 1)).broke = true → after.Broken) := by
  have hticked := s.beginTick_ticked config runner
  rcases hturn : s.beginTick config runner with ⟨turn, after⟩
  rw [hturn] at hticked
  cases hticked with
  | foreign hforeign => exact absurd h.runner_eq hforeign
  | stopped _ hstop =>
    rw [h.wanted] at hstop
    cases hstop
  | ended _ _ hover =>
    rw [h.active] at hover
    cases hover
  | zeroInterval _ _ _ hzero => exact absurd hzero (not_or.mpr ⟨hanimation, hdurability⟩)
  | planned _ _ _ hwork =>
    obtain ⟨rfl, hgoes, hbreaks⟩ := h.worked hcount (Session.worked_of_work hwork)
    exact ⟨after, rfl, hgoes, hbreaks⟩
  | corrupted _ _ _ hwork hranges =>
    rw [h.checkInvariants_eq hcount (Session.worked_of_work hwork)] at hranges
    cases hranges

end Running

namespace Session

theorem running_of_activate (config : Config) (target : Block) (s : Session) :
    ∃ runner, Running config runner target 0 (s.activate target).2 := by
  have hleft : config.left (0 / config.durability.toNat) = fullDurability.toNat := by
    rw [Nat.zero_div]
    exact Nat.sub_zero _
  have hwhole : config.left (0 / config.durability.toNat) ≠ 0 := by
    rw [hleft]
    decide
  have hheld : config.heldAt target 0 = none :=
    if_neg fun h => h.1 (Nat.le_zero.mp (config.lastWear_le 0))
  unfold activate
  split
  · exact ⟨s.nextRunner, rfl, rfl, rfl, rfl, rfl, hleft.symm, hwhole, hheld.symm⟩
  · rename_i hstays
    rw [Bool.or_eq_true, not_or, Option.isNone_iff_eq_none] at hstays
    obtain ⟨runner, hrunner⟩ := Option.ne_none_iff_exists'.mp hstays.1
    exact ⟨runner, hrunner, rfl, rfl, rfl, rfl, hleft.symm, hwhole, hheld.symm⟩

/-- The session after so many ticks of the runner. -/
def afterTicks (config : Config) (runner : RunnerId) (n : Nat) (s : Session) : Session :=
  performAll config (List.replicate n (.beginTick runner)) s

theorem afterTicks_succ (config : Config) (runner : RunnerId) (n : Nat) (s : Session) :
    s.afterTicks config runner (n + 1) = ((s.afterTicks config runner n).beginTick config runner).2 := by
  rw [afterTicks, List.replicate_succ', performAll_append]
  rfl

end Session

namespace Running

variable {start : Session}

/-- Ticks go on until the tool breaks. -/
theorem afterTicks (h : Running config runner target 0 start) (hanimation : config.animation ≠ 0)
    (hdurability : config.durability ≠ 0) {n : Nat} (hcount : n < UInt64.size)
    (hleft : config.left (n / config.durability.toNat) ≠ 0) :
    Running config runner target n (start.afterTicks config runner n) := by
  induction n with
  | zero => exact h
  | succ n ih =>
    have hbefore : config.left (n / config.durability.toNat) ≠ 0 := fun hzero =>
      hleft (Nat.le_zero.mp (hzero ▸ config.left_anti (Nat.div_le_div_right (Nat.le_succ n))))
    obtain ⟨after, hturn, hgoes, -⟩ :=
      (ih (Nat.lt_of_succ_lt hcount) hbefore).beginTick hanimation hdurability hcount
    rw [Session.afterTicks_succ, hturn]
    exact hgoes (decide_eq_false fun hbroke => hleft hbroke.2)

end Running

namespace Session.Broken

variable {s : Session}

theorem beginTick (h : s.Broken) (config : Config) (runner : RunnerId) :
    s.beginTick config runner = (.leave, s) := by
  rw [Session.beginTick, h.runner_eq]
  exact if_pos (Option.some_ne_none runner).symm

theorem afterTicks {n m : Nat} (h : (s.afterTicks config runner n).Broken) (hle : n ≤ m) :
    (s.afterTicks config runner m).Broken := by
  induction m, hle using Nat.le_induction with
  | base => exact h
  | succ m _ ih =>
    rw [afterTicks_succ, ih.beginTick]
    exact ih

end Session.Broken

/-! ### The whole activation -/

/-- The tick of a wear, told by the number of the wear. -/
theorem dvd_and_div_iff {interval : Nat} (hpos : 0 < interval) (tick : Nat) (p : Nat → Prop) :
    interval ∣ tick ∧ p (tick / interval) ↔ ∃ k, tick = k * interval ∧ p k := by
  constructor
  · exact fun ⟨hdvd, hp⟩ => ⟨tick / interval, (Nat.div_mul_cancel hdvd).symm, hp⟩
  · rintro ⟨k, rfl, hp⟩
    rw [Nat.mul_div_cancel k hpos]
    exact ⟨Nat.dvd_mul_left .., hp⟩

namespace Config

variable {c : Config}

theorem durability_planAt_eq_some_iff (hpos : 0 < c.durability.toNat) (target : Block) (tick : Nat)
    (d : UInt8) :
    (c.planAt target tick).durability = some d ↔
      ∃ k, tick = k * c.durability.toNat ∧ d.toNat = c.left k := by
  have hvalue (k : Nat) : UInt8.ofNat (c.left k) = d ↔ d.toNat = c.left k := by
    constructor
    · rintro rfl
      exact UInt8.toNat_ofNat_of_lt' (Nat.lt_of_le_of_lt (c.left_le k) (by decide))
    · exact fun h => h ▸ UInt8.ofNat_toNat
  rw [planAt, Option.ite_none_right_eq_some, Option.some_inj, hvalue,
    dvd_and_div_iff hpos tick fun k => d.toNat = c.left k]

theorem start_planAt_eq_some_iff (hpos : 0 < c.durability.toNat) (target : Block) (tick : Nat)
    (block : Block) :
    (c.planAt target tick).start = some block ↔
      block = target ∧ ∃ k, tick = k * c.durability.toNat ∧ c.left k ≠ 0 := by
  rw [planAt, Option.ite_none_right_eq_some, Option.some_inj, dvd_and_div_iff hpos tick fun k => c.left k ≠ 0,
    and_comm, eq_comm]

theorem broke_planAt_iff (hpos : 0 < c.durability.toNat) (target : Block) (tick : Nat) :
    (c.planAt target tick).broke = true ↔ ∃ k, tick = k * c.durability.toNat ∧ c.left k = 0 := by
  rw [planAt, decide_eq_true_iff, dvd_and_div_iff hpos tick fun k => c.left k = 0]

/-- A dig that is held for an interval of wear at the most ends as many ticks after its start. -/
theorem finishAt_eq_some_iff {last tick : Nat} (hholds : 1 ≤ c.hold.toNat)
    (hbrief : c.hold.toNat ≤ c.durability.toNat) (hcount : last * c.durability.toNat < UInt64.size)
    (hfirst : 1 ≤ tick) (hlast : tick ≤ last * c.durability.toNat) (target block : Block) :
    c.finishAt target tick = some block ↔
      block = target ∧ ∃ k, 1 ≤ k ∧ k < last ∧ tick = k * c.durability.toNat + c.hold.toNat := by
  have hpos : 0 < c.durability.toNat := Nat.lt_of_lt_of_le hholds hbrief
  have hwear : (tick - 1) / c.durability.toNat < last :=
    (Nat.div_lt_iff_lt_mul hpos).mpr (Nat.lt_of_lt_of_le (Nat.sub_one_lt_of_lt hfirst) hlast)
  have hfits : c.lastWear (tick - 1) + c.hold.toNat ≤ last * c.durability.toNat := calc
    c.lastWear (tick - 1) + c.hold.toNat
      ≤ c.durability.toNat * ((tick - 1) / c.durability.toNat) + c.durability.toNat :=
        Nat.add_le_add_left hbrief _
    _ = c.durability.toNat * ((tick - 1) / c.durability.toNat + 1) := (Nat.mul_succ ..).symm
    _ ≤ c.durability.toNat * last := Nat.mul_le_mul_left _ hwear
    _ = last * c.durability.toNat := Nat.mul_comm ..
  rw [finishAt, ends_eq hholds (Nat.lt_of_le_of_lt hfits hcount), Option.ite_none_right_eq_some,
    Option.some_inj, and_comm, eq_comm]
  refine and_congr_right fun _ => ⟨?_, ?_⟩
  · rintro ⟨hstart, htick⟩
    refine ⟨(tick - 1) / c.durability.toNat, Nat.one_le_iff_ne_zero.mpr fun hzero => ?_, hwear, ?_⟩
    · exact hstart (by rw [lastWear, hzero, Nat.mul_zero])
    · rw [Nat.mul_comm]
      exact htick
  · rintro ⟨k, hk, -, rfl⟩
    have hdiv : (k * c.durability.toNat + c.hold.toNat - 1) / c.durability.toNat = k := by
      rw [Nat.add_sub_assoc hholds, Nat.add_comm, Nat.add_mul_div_right _ _ hpos,
        Nat.div_eq_of_lt (Nat.lt_of_lt_of_le (Nat.sub_one_lt_of_lt hholds) hbrief), Nat.zero_add]
    rw [lastWear, hdiv, Nat.mul_comm]
    exact ⟨Nat.mul_ne_zero (Nat.one_le_iff_ne_zero.mp hk) (Nat.ne_of_gt hpos), rfl⟩

end Config

namespace Session

/-- **The whole activation.** Let the attached runner be the only one to call a session that has been
activated, let no setting of its cadence be zero and 64 bits count the ticks until the tool breaks. Up to
this, each tick is numbered, swings on the multiples of the one interval and wears the tool on the multiples
of the other, down to zero and not below. All wears but the last start a dig, and the last breaks the tool. A
dig that is held for an interval of wear at the most ends as many ticks after its start, that of the last but
one wear perhaps on the tick of the break. Later ticks do nothing. -/
theorem activation_trace (config : Config) (hanimation : config.animation ≠ 0)
    (hdurability : config.durability ≠ 0) (hstep : config.step ≠ 0)
    (hcount : (100 ⌈/⌉ config.step.toNat) * config.durability.toNat < UInt64.size)
    (s : Session) (target : Block) :
    let start := (s.activate target).2
    let interval := config.durability.toNat
    let wears := 100 ⌈/⌉ config.step.toNat
    ∃ runner, start.runner = some runner ∧
      (∀ i, 1 ≤ i → i ≤ wears * interval → ∃ plan,
        ((start.afterTicks config runner (i - 1)).beginTick config runner).1 = .tick plan ∧
        plan.tick.toNat = i ∧
        (plan.swing = true ↔ config.animation.toNat ∣ i) ∧
        (∀ d, plan.durability = some d ↔ ∃ k, i = k * interval ∧ d.toNat = 100 - config.step.toNat * k) ∧
        (∀ block, plan.start = some block ↔ block = target ∧ ∃ k, i = k * interval ∧ k < wears) ∧
        (plan.broke = true ↔ i = wears * interval) ∧
        (1 ≤ config.hold.toNat → config.hold.toNat ≤ interval → ∀ block, plan.finish = some block ↔
          block = target ∧ ∃ k, 1 ≤ k ∧ k < wears ∧ i = k * interval + config.hold.toNat)) ∧
      ∀ i, wears * interval ≤ i →
        ((start.afterTicks config runner i).beginTick config runner).1 = .leave ∧
        (start.afterTicks config runner i).state = .exhausted ∧
        (start.afterTicks config runner i).durability = 0 := by
  intro start interval wears
  obtain ⟨runner, hstart⟩ := s.running_of_activate config target
  have hpos : 0 < interval := UInt64.lt_iff_toNat_lt.mp (UInt64.pos_iff_ne_zero.mpr hdurability)
  have hgone (k : Nat) : config.left k = 0 ↔ wears ≤ k := Config.left_eq_zero_iff hstep
  have hwhole (k : Nat) : config.left k ≠ 0 ↔ k < wears := (not_congr (hgone k)).trans Nat.not_le
  have hturn (i : Nat) (hi : i < wears * interval) :=
    have hleft : config.left (i / interval) ≠ 0 := (hwhole _).mpr ((Nat.div_lt_iff_lt_mul hpos).mpr hi)
    (hstart.afterTicks hanimation hdurability (Nat.lt_trans hi hcount) hleft).beginTick hanimation
      hdurability (Nat.lt_of_le_of_lt hi hcount)
  have hbreaks (i : Nat) (hi : i ≤ wears * interval) :
      (config.planAt target i).broke = true ↔ i = wears * interval := by
    rw [Config.broke_planAt_iff hpos]
    constructor
    · rintro ⟨k, rfl, hk⟩
      exact Nat.le_antisymm hi (Nat.mul_le_mul_right _ ((hgone k).mp hk))
    · exact fun h => ⟨wears, h, (hgone wears).mpr (Nat.le_refl _)⟩
  refine ⟨runner, hstart.runner_eq, ?_, ?_⟩
  · intro i hfirst hlast
    obtain ⟨i, rfl⟩ := Nat.exists_eq_add_of_le' hfirst
    obtain ⟨after, hplan, -, -⟩ := hturn i hlast
    refine ⟨config.planAt target (i + 1), congrArg Prod.fst hplan,
      UInt64.toNat_ofNat_of_lt' (Nat.lt_of_le_of_lt hlast hcount), decide_eq_true_iff,
      Config.durability_planAt_eq_some_iff hpos target _, ?_, hbreaks _ hlast, ?_⟩
    · intro block
      rw [Config.start_planAt_eq_some_iff hpos]
      exact and_congr_right fun _ => exists_congr fun k => and_congr_right fun _ => hwhole k
    · exact fun hholds hbrief => Config.finishAt_eq_some_iff hholds hbrief hcount hfirst hlast target
  · have hsome : 0 < wears := (hwhole 0).mp nofun
    obtain ⟨last, hlast⟩ := Nat.exists_eq_add_of_le' (Nat.mul_pos hsome hpos)
    have hover : (start.afterTicks config runner (wears * interval)).Broken := by
      obtain ⟨after, hplan, -, hbroken⟩ := hturn last (hlast ▸ Nat.lt_succ_self last)
      rw [hlast, afterTicks_succ, hplan]
      exact hbroken (hlast ▸ (hbreaks _ (Nat.le_refl _)).mpr rfl)
    intro i hi
    have hbroken := hover.afterTicks hi
    exact ⟨congrArg Prod.fst (hbroken.beginTick config runner), hbroken.state_eq, hbroken.durability_eq⟩

/-- The tool of the standard settings breaks on tick 800, and the last dig ends on tick 770. -/
theorem activation_trace_standard :
    let config := Config.standard
    let start := (Session.new.activate ⟨0, 64, 0⟩).2
    (config.animation ≠ 0 ∧ config.durability ≠ 0 ∧ config.step ≠ 0 ∧
      (100 ⌈/⌉ config.step.toNat) * config.durability.toNat < UInt64.size) ∧
    ∃ runner, start.runner = some runner ∧
      (∃ plan, ((start.afterTicks config runner 769).beginTick config runner).1 = .tick plan ∧
        plan.finish = some ⟨0, 64, 0⟩ ∧ plan.broke = false) ∧
      (∃ plan, ((start.afterTicks config runner 799).beginTick config runner).1 = .tick plan ∧
        plan.durability = some 0 ∧ plan.broke = true) ∧
      (start.afterTicks config runner 1000).state = .exhausted := by
  intro config start
  have hcount : (100 ⌈/⌉ config.step.toNat) * config.durability.toNat < UInt64.size := by decide
  obtain ⟨runner, hrunner, htick, hover⟩ :=
    activation_trace config (by decide) (by decide) (by decide) hcount .new ⟨0, 64, 0⟩
  refine ⟨⟨by decide, by decide, by decide, hcount⟩, runner, hrunner, ?_, ?_, (hover 1000 (by decide)).2.1⟩
  · obtain ⟨plan, hturn, -, -, -, -, hbroke, hfinish⟩ := htick 770 (by decide) (by decide)
    refine ⟨plan, hturn, (hfinish (by decide) (by decide) _).mpr ⟨rfl, 19, by decide⟩, ?_⟩
    exact Bool.eq_false_iff.mpr (mt hbroke.mp (by decide))
  · obtain ⟨plan, hturn, -, -, hdurability, -, hbroke, -⟩ := htick 800 (by decide) (by decide)
    exact ⟨plan, hturn, (hdurability 0).mpr ⟨20, by decide⟩, hbroke.mpr (by decide)⟩

end Session

end Pickaxe.Mining
