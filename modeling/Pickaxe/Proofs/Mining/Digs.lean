import Pickaxe.Proofs.Mining.Trace

/-! Which digs end.

Whatever is called, the plans since the latest activation are the first ones that the closed form of an
activation gives (`exists_planned`). A session holds one dig at most, and every wear starts one, so that
a dig that is still held by the next wear is dropped. `dig_ended_iff` says which plan ends a dig, and that it
is one on the tick the settings promise exactly if they hold digs for a tick at least and an interval of wear
at most. Nothing sees to this (`dig_dropped`). -/
namespace Pickaxe.Mining

open World (Block)

variable {config : Config} {target : Block} {n : Nat}

/-! ### Plans, whatever is called -/

/-- These are the plans of `n` ticks at the target, and the session after them goes on or takes no more
ticks. -/
structure Planned (config : Config) (target : Block) (n : Nat) (plans : List Plan) (s : Session) : Prop where
  plans_eq : plans = (List.range' 1 n).map (config.planAt target)
  counted : n < UInt64.size
  /-- Every tick has found some of the tool left. -/
  left_ne_zero : ∀ tick < n, config.left (tick / config.durability.toNat) ≠ 0
  running : ∀ runner, s.runner = some runner → s.stopRequested = false →
    Running config runner target n s

namespace Planned

variable {plans : List Plan} {plan : Plan} {s after : Session}

theorem nil (hrunning : ∀ runner, s.runner = some runner → s.stopRequested = false →
    Running config runner target 0 s) : Planned config target 0 [] s :=
  ⟨rfl, by decide, nofun, hrunning⟩

/-- Nobody ticks any more. -/
theorem left (h : Planned config target n plans s)
    (hleft : after.runner = none ∨ after.stopRequested = true) :
    Planned config target n plans after where
  plans_eq := h.plans_eq
  counted := h.counted
  left_ne_zero := h.left_ne_zero
  running := fun runner hrunner hwanted => by
    rcases hleft with hnone | hstop
    · rw [hnone] at hrunner
      cases hrunner
    · rw [hstop] at hwanted
      cases hwanted

/-- One more tick. -/
theorem worked (h : Planned config target n plans s) {runner : RunnerId}
    (hrunning : Running config runner target n s) (hcount : n + 1 < UInt64.size)
    (hworked : Session.Worked config s.counted plan after) :
    Planned config target (n + 1) (plans ++ [plan]) after := by
  obtain ⟨rfl, hgoes, hbreaks⟩ := hrunning.worked hcount hworked
  refine ⟨?_, hcount, ?_, ?_⟩
  · rw [h.plans_eq, List.range'_concat, List.map_append, Nat.one_mul, Nat.add_comm 1 n]
    rfl
  · intro tick htick
    rcases Nat.lt_succ_iff_lt_or_eq.mp htick with hlt | rfl
    · exact h.left_ne_zero tick hlt
    · exact hrunning.left_ne_zero
  · intro other hother _
    cases hbroke : (config.planAt target (n + 1)).broke with
    | true =>
      rw [(hbreaks hbroke).runner_eq] at hother
      cases hother
    | false =>
      obtain rfl := Option.some.inj ((hgoes hbroke).runner_eq.symm.trans hother)
      exact hgoes hbroke

theorem follows {further : List Plan} (h : Planned config target n plans s)
    (hfollows : Session.Follows config plans s further after) :
    ∃ target m, Planned config target m further after := by
  cases hfollows with
  | activated target =>
    obtain ⟨runner, hrunning⟩ := s.running_of_activate config target
    refine ⟨target, 0, .nil fun other hother _ => ?_⟩
    obtain rfl := Option.some.inj (hrunning.runner_eq.symm.trans hother)
    exact hrunning
  | planned hrunner hwanted hcount hworked =>
    have hrunning := h.running _ hrunner hwanted
    rw [hrunning.tickCount_eq, UInt64.toNat_ofNat_of_lt' h.counted] at hcount
    exact ⟨target, n + 1, h.worked hrunning hcount hworked⟩
  | kept => exact ⟨target, n, h⟩
  | left _ _ hleft => exact ⟨target, n, h.left (hleft.imp_right And.right)⟩

theorem mem_iff (h : Planned config target n plans s) :
    plan ∈ plans ↔ ∃ tick, 1 ≤ tick ∧ tick ≤ n ∧ config.planAt target tick = plan := by
  rw [h.plans_eq, List.mem_map]
  refine exists_congr fun tick => ?_
  rw [List.mem_range'_1, and_assoc, Nat.add_comm 1 n, Nat.lt_succ_iff]

theorem toNat_tick (h : Planned config target n plans s) {tick : Nat} (hle : tick ≤ n) :
    (config.planAt target tick).tick.toNat = tick :=
  UInt64.toNat_ofNat_of_lt' (Nat.lt_of_le_of_lt hle h.counted)

end Planned

theorem exists_planned (config : Config) (calls : List Call) :
    ∃ target n after, Planned config target n (Session.plansSince config calls .new []) after := by
  have hnew : Planned config ⟨0, 0, 0⟩ 0 [] .new := .nil nofun
  obtain ⟨after, target, n, h⟩ := Session.plansSince_induction
    (P := fun plans s => ∃ target n, Planned config target n plans s)
    (fun ⟨_, _, h⟩ hfollows => h.follows hfollows) calls ⟨⟨0, 0, 0⟩, 0, hnew⟩
  exact ⟨target, n, after, h⟩

/-! ### Ends of digs -/

/-- A plan of the list ends the dig that another one has started: it is later, it finishes at the same block,
and no plan between them starts a dig. -/
def Ends (plans : List Plan) (q r : Plan) : Prop :=
  r ∈ plans ∧ q.tick < r.tick ∧ r.finish = q.start ∧
    ∀ p ∈ plans, q.tick < p.tick → p.tick < r.tick → p.start = none

namespace Config

variable {c : Config} {start tick : Nat}

theorem le_lastWear (hwear : c.durability.toNat ∣ start) (hle : start ≤ tick) : start ≤ c.lastWear tick := by
  rw [← Nat.mul_div_cancel' hwear]
  exact Nat.mul_le_mul_left _ (Nat.div_le_div_right hle)

theorem lt_lastWear_add (hpos : 0 < c.durability.toNat) (tick : Nat) :
    tick < c.lastWear tick + c.durability.toNat := Nat.lt_mul_div_succ tick hpos

theorem lastWear_eq (hwear : c.durability.toNat ∣ start) (hle : start ≤ tick)
    (hlt : tick < start + c.durability.toNat) : c.lastWear tick = start := by
  refine Nat.le_antisymm (Nat.le_of_not_lt fun hlater => ?_) (le_lastWear hwear hle)
  -- Two multiples of the interval are an interval apart at least.
  have hapart : c.durability.toNat ≤ c.lastWear tick - start :=
    Nat.le_of_dvd (Nat.sub_pos_of_lt hlater) (Nat.dvd_sub (Nat.dvd_mul_right ..) hwear)
  have hlast := c.lastWear_le tick
  omega

end Config

namespace Planned

variable {plans : List Plan} {s : Session} {start tick : Nat}

/-- The dig of a wear ends when it is due, unless another wear comes before. -/
theorem ends_iff (h : Planned config target n plans s) (hfirst : 1 ≤ start) (hstart : start ≤ n)
    (hwear : config.durability.toNat ∣ start) (hleft : config.left (start / config.durability.toNat) ≠ 0)
    (hpos : 1 ≤ tick) (htick : tick ≤ n) :
    Ends plans (config.planAt target start) (config.planAt target tick) ↔
      tick = config.ends start ∧ tick ≤ start + config.durability.toNat := by
  have hinterval : 0 < config.durability.toNat := Nat.pos_of_dvd_of_pos hwear hfirst
  have hq : (config.planAt target start).start = some target := by
    rw [Config.planAt_of_wear target hwear hleft]
  constructor
  · rintro ⟨-, hlater, hfinish, hbetween⟩
    rw [UInt64.lt_iff_toNat_lt, h.toNat_tick hstart, h.toNat_tick htick] at hlater
    have hle : start ≤ tick - 1 := Nat.le_sub_one_of_lt hlater
    obtain ⟨⟨hsome, hends⟩, -⟩ := Option.ite_none_right_eq_some.mp (hfinish.trans hq)
    -- The dig that ends is that of the latest wear, and no wear is left out.
    have hlatest : config.lastWear (tick - 1) = start := by
      refine Nat.le_antisymm (Nat.le_of_not_lt fun hmissed => ?_) (Config.le_lastWear hwear hle)
      have hlast := config.lastWear_le (tick - 1)
      have hn : config.lastWear (tick - 1) ≤ n := by omega
      have hpoints : config.left (config.lastWear (tick - 1) / config.durability.toNat) ≠ 0 := by
        rw [Config.lastWear, Nat.mul_div_cancel_left _ hinterval]
        exact h.left_ne_zero (tick - 1) (by omega)
      have hwears : config.durability.toNat ∣ config.lastWear (tick - 1) := Nat.dvd_mul_right ..
      have hstarts : (config.planAt target (config.lastWear (tick - 1))).start = some target := by
        rw [Config.planAt_of_wear target hwears hpoints]
      have hnone := hbetween _ (h.mem_iff.mpr ⟨_, Nat.one_le_iff_ne_zero.mpr hsome, hn, rfl⟩)
        (by rwa [UInt64.lt_iff_toNat_lt, h.toNat_tick hstart, h.toNat_tick hn])
        (by rw [UInt64.lt_iff_toNat_lt, h.toNat_tick hn, h.toNat_tick htick]; omega)
      rw [hstarts] at hnone
      cases hnone
    have hnear := Config.lt_lastWear_add hinterval (tick - 1)
    rw [hlatest] at hends hnear
    exact ⟨hends, by omega⟩
  · rintro ⟨hends, hnear⟩
    have hlater : start < tick := hends ▸ Nat.lt_of_lt_of_le (Nat.lt_succ_self _) (Nat.le_max_left ..)
    have hlatest : config.lastWear (tick - 1) = start :=
      Config.lastWear_eq hwear (Nat.le_sub_one_of_lt hlater) (by omega)
    refine ⟨h.mem_iff.mpr ⟨tick, hpos, htick, rfl⟩, ?_, ?_, ?_⟩
    · rwa [UInt64.lt_iff_toNat_lt, h.toNat_tick hstart, h.toNat_tick htick]
    · rw [hq]
      show config.finishAt target tick = some target
      rw [Config.finishAt, hlatest]
      exact if_pos ⟨Nat.one_le_iff_ne_zero.mp hfirst, hends⟩
    · intro p hp hafter hbefore
      obtain ⟨i, -, hi, rfl⟩ := h.mem_iff.mp hp
      rw [UInt64.lt_iff_toNat_lt, h.toNat_tick hstart, h.toNat_tick hi] at hafter
      rw [UInt64.lt_iff_toNat_lt, h.toNat_tick hi, h.toNat_tick htick] at hbefore
      have hspared : ¬ config.durability.toNat ∣ i := fun hdvd => by
        have hwhole := Config.lastWear_eq hwear (Nat.le_of_lt hafter) (by omega)
        rw [Config.lastWear, Nat.mul_div_cancel' hdvd] at hwhole
        omega
      rw [Config.planAt_of_not_dvd target hspared]

end Planned

/-- **Which plan ends a dig.** Of the plans since the latest activation, whatever was called before, a dig is
ended by the one on the first later tick that is not before the end of the hold, as 64 bits count it, if this
tick is not behind the next wear. Let there be a plan as many ticks after the start as digs are held. Then one
plan ends the dig, and it is that one, if and only if digs are held for a tick at least and an interval of
wear at most. -/
theorem dig_ended_iff (config : Config) (calls : List Call) :
    let plans := Session.plansSince config calls .new []
    ∀ q ∈ plans, ∀ block, q.start = some block →
      (∀ r ∈ plans, Ends plans q r ↔ r.tick.toNat = config.ends q.tick.toNat ∧
        r.tick.toNat ≤ q.tick.toNat + config.durability.toNat) ∧
      ((∃ p ∈ plans, p.tick.toNat = q.tick.toNat + config.hold.toNat) →
        ((∃ r, r.tick.toNat = q.tick.toNat + config.hold.toNat ∧ ∀ other, Ends plans q other ↔ other = r) ↔
          1 ≤ config.hold.toNat ∧ config.hold.toNat ≤ config.durability.toNat)) := by
  intro plans q hq block hblock
  obtain ⟨target, n, s, h⟩ := exists_planned config calls
  obtain ⟨start, hfirst, hstart, rfl⟩ := h.mem_iff.mp hq
  obtain ⟨⟨hwear, hleft⟩, -⟩ := Option.ite_none_right_eq_some.mp hblock
  rw [h.toNat_tick hstart]
  refine ⟨fun r hr => ?_, ?_⟩
  · obtain ⟨tick, hpos, htick, rfl⟩ := h.mem_iff.mp hr
    rw [h.toNat_tick htick]
    exact h.ends_iff hfirst hstart hwear hleft hpos htick
  · rintro ⟨p, hp, hdue⟩
    obtain ⟨due, hpos, hlast, rfl⟩ := h.mem_iff.mp hp
    rw [h.toNat_tick hlast] at hdue
    constructor
    · rintro ⟨r, hr, hone⟩
      have hended := (hone r).mpr rfl
      obtain ⟨tick, hpos, htick, rfl⟩ := h.mem_iff.mp hended.1
      obtain ⟨hends, hnear⟩ := (h.ends_iff hfirst hstart hwear hleft hpos htick).mp hended
      rw [h.toNat_tick htick] at hr
      have hlater : start + 1 ≤ config.ends start := Nat.le_max_left ..
      omega
    · rintro ⟨hholds, hbrief⟩
      have hends : due = config.ends start := by
        rw [Config.ends_eq hholds (Nat.lt_of_le_of_lt (hdue ▸ hlast) h.counted)]
        exact hdue
      refine ⟨config.planAt target due, (h.toNat_tick hlast).trans hdue, fun other => ⟨fun hended => ?_, ?_⟩⟩
      · obtain ⟨tick, hpos, htick, rfl⟩ := h.mem_iff.mp hended.1
        rw [((h.ends_iff hfirst hstart hwear hleft hpos htick).mp hended).1, hends]
      · rintro rfl
        exact (h.ends_iff hfirst hstart hwear hleft hpos hlast).mpr ⟨hends, by omega⟩

/-- A dig that is held for three ticks while the tool wears every second one. -/
theorem dig_ended_iff_overtaken :
    let config := { Config.standard with animation := 2, durability := 2, step := 40, hold := 3 }
    let calls := .activate ⟨0, 64, 0⟩ :: List.replicate 7 (.beginTick 1)
    let plans := Session.plansSince config calls .new []
    ∃ q ∈ plans, q.start = some ⟨0, 64, 0⟩ ∧
      (∃ p ∈ plans, p.tick.toNat = q.tick.toNat + config.hold.toNat) ∧
      (∀ r ∈ plans, ¬ Ends plans q r) ∧
      ¬ ∃ r, r.tick.toNat = q.tick.toNat + config.hold.toNat ∧ ∀ other, Ends plans q other ↔ other = r := by
  intro config calls plans
  let q : Plan := ⟨2, true, none, some ⟨0, 64, 0⟩, some 60, false⟩
  have hq : q ∈ plans := by decide
  have hdue : ∃ p ∈ plans, p.tick.toNat = q.tick.toNat + config.hold.toNat := by decide
  obtain ⟨hended, honce⟩ := dig_ended_iff config calls q hq ⟨0, 64, 0⟩ rfl
  refine ⟨q, hq, rfl, hdue, fun r hr => ?_, mt (honce hdue).mp (by decide)⟩
  rw [hended r hr]
  rintro ⟨hends, hnear⟩
  rw [hends] at hnear
  exact absurd hnear (by decide)

/-- Settings that have been validated do not see to it that digs end: the dig of tick 2 should end on tick 5
and is forgotten on tick 4. -/
theorem dig_dropped :
    ¬ ∀ (config : Config) (target : Block) (runner : RunnerId) (n : Nat),
      let plans := Session.plansSince config.validated
        (.activate target :: List.replicate n (.beginTick runner)) .new []
      ∀ q ∈ plans, ∀ block, q.start = some block →
        (∃ p ∈ plans, p.tick.toNat = q.tick.toNat + config.validated.hold.toNat) →
        ∃ r ∈ plans, r.tick.toNat = q.tick.toNat + config.validated.hold.toNat ∧ r.finish = some block := by
  intro h
  have hends := h { Config.standard with animation := 2, durability := 2, step := 40, hold := 3 }
    ⟨0, 64, 0⟩ 1 7 ⟨2, true, none, some ⟨0, 64, 0⟩, some 60, false⟩ (by decide) ⟨0, 64, 0⟩ rfl (by decide)
  exact absurd hends (by decide)

end Pickaxe.Mining
