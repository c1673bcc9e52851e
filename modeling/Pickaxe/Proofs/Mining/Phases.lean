import Pickaxe.Proofs.Mining.Moves

/-! The phases of digs.

The plans since the latest activation are collected call by call (`plansSince`), in one of four ways
(`Follows`). What a session holds of a dig is told by these plans (`Phased`): it is the dig of the latest
start, and no plan has ended it since. Every call keeps this, so that in `digs_alternate` each end of a dig
belongs to the start before it. -/
namespace Pickaxe.Mining

open World (Block)
open Session (Turn Worked)

variable {config : Config}

/-! ### Plans since the latest activation -/

def Session.Turn.isFault : Turn → Bool
  | .fault _ => true
  | .leave | .tick _ => false

namespace Call

/-- Whether it breaks off. -/
def breaksOff (config : Config) : Call → Session → Bool
  | .beginTick runner, s => (s.beginTick config runner).1.isFault
  | .activate _, _ | .requestStop, _ | .detach _, _ => false

/-- The plans of the activation after it, of `plans` before. -/
def plans (config : Config) : Call → Session → (plans : List Plan) → List Plan
  | .activate _, _, _ => []
  | .beginTick runner, s, plans => plans ++ (s.beginTick config runner).1.plan?.toList
  | .requestStop, _, plans | .detach _, _, plans => plans

end Call

namespace Session

/-- The plans of the activation after calls, of `plans` before. Nothing is called after a tick that breaks
off. -/
def plansSince (config : Config) : List Call → Session → (plans : List Plan) → List Plan
  | [], _, plans => plans
  | x :: rest, s, plans =>
    if x.breaksOff config s then plans
    else plansSince config rest (x.perform config s) (x.plans config s plans)

end Session

/-! ### Digs in a list of plans -/

/-- A dig at the block has been started, and no later plan starts or ends one. -/
def Pending (plans : List Plan) (block : Block) : Prop :=
  ∃ earlier p between, plans = earlier ++ p :: between ∧ p.start = some block ∧
    ∀ r ∈ between, r.start = none ∧ r.finish = none

/-- A plan behind these ends the dig that is pending, if any, and on a later tick than the one that started
it. -/
def Answers (before : List Plan) (q : Plan) : Prop :=
  ∀ block, q.finish = some block → ∃ earlier p between, before = earlier ++ p :: between ∧
    p.start = some block ∧ (∀ r ∈ between, r.start = none ∧ r.finish = none) ∧ p.tick < q.tick

section Lists

variable {plans before after : List Plan} {plan q : Plan} {block : Block}

/-- A plan in a list with one more at its end is that one, or stands before it. -/
theorem concat_eq_append_cons (h : plans ++ [plan] = before ++ q :: after) :
    (before = plans ∧ q = plan ∧ after = []) ∨
      ∃ rest, after = rest ++ [plan] ∧ plans = before ++ q :: rest := by
  rcases List.eq_nil_or_concat after with rfl | ⟨rest, last, rfl⟩
  · obtain ⟨hplans, hlast⟩ := List.append_inj' h rfl
    cases hlast
    exact .inl ⟨hplans.symm, rfl, rfl⟩
  · rw [List.concat_eq_append, ← List.cons_append, ← List.append_assoc] at h
    obtain ⟨hplans, hlast⟩ := List.append_inj' h rfl
    cases hlast
    exact .inr ⟨rest, List.concat_eq_append, hplans⟩

theorem Pending.of_start (h : plan.start = some block) : Pending (plans ++ [plan]) block :=
  ⟨plans, plan, [], rfl, h, List.forall_mem_nil _⟩

/-- A plan that neither starts nor ends a dig leaves it pending. -/
theorem Pending.concat (h : Pending plans block) (hstart : plan.start = none) (hfinish : plan.finish = none) :
    Pending (plans ++ [plan]) block := by
  obtain ⟨earlier, p, between, rfl, hp, hbetween⟩ := h
  refine ⟨earlier, p, between ++ [plan], List.append_assoc .., hp, ?_⟩
  exact List.forall_mem_append.mpr ⟨hbetween, List.forall_mem_singleton.mpr ⟨hstart, hfinish⟩⟩

end Lists

/-! ### What a session holds -/

namespace Session

variable {s : Session}

theorem exists_held_of_finished {block : Block} (h : s.finished = some block) :
    ∃ held, s.held = some held ∧ held.block = block := by
  unfold finished at h
  split at h
  · rename_i held hheld
    split at h
    · exact ⟨held, hheld, Option.some.inj h⟩
    · cases h
  · cases h

/-- What is still held has been held, and no dig ends. -/
theorem released_held {held : Held} (h : s.released.held = some held) :
    s.held = some held ∧ s.finished = none := by
  unfold released at h
  split at h
  · cases h
  · exact ⟨h, Option.not_isSome_iff_eq_none.mp ‹_›⟩

theorem startDig_of_some {block : Block} (config : Config) (h : s.target = some block) :
    s.startDig config = { s with held := some ⟨s.tickCount + config.hold, block⟩ } := by
  unfold startDig
  rw [h]

theorem startDig_of_none (config : Config) (h : s.target = none) : s.startDig config = s := by
  unfold startDig
  rw [h]

/-- The count has not wrapped around on a tick that leaves all fields in their ranges. -/
theorem tickCount_lt_of_ranges {plan : Plan} {after : Session} (hworked : Worked config s.counted plan after)
    (hranges : after.checkInvariants s.tickCount = .ok ()) : s.tickCount.toNat + 1 < UInt64.size := by
  obtain ⟨durability, held, rfl⟩ := hworked.frame
  have hle : s.tickCount ≤ s.tickCount + 1 := (checkInvariants_eq_ok_iff.mp hranges).2
  have hlt := s.tickCount.toNat_lt_size
  rw [UInt64.le_iff_toNat_le, UInt64.toNat_add, UInt64.toNat_one] at hle
  rw [UInt64.size] at hlt ⊢
  omega

/-- What becomes of the plans since the latest activation, and of the session, with a call that does not
break off. -/
inductive Follows (config : Config) (plans : List Plan) (s : Session) : List Plan → Session → Prop
  | activated (target : Block) : Follows config plans s [] (s.activate target).2
  | planned {runner : RunnerId} {plan : Plan} {after : Session} (hrunner : s.runner = some runner)
      (hwanted : s.stopRequested = false) (hcount : s.tickCount.toNat + 1 < UInt64.size)
      (hworked : Worked config s.counted plan after) : Follows config plans s (plans ++ [plan]) after
  | kept : Follows config plans s plans s
  /-- Nothing is planned, and nobody is left who could tick. -/
  | left {after : Session} (hcount : after.tickCount = s.tickCount) (hheld : after.held = s.held)
      (hleft : after.runner = none ∨ after.runner = s.runner ∧ after.stopRequested = true) :
      Follows config plans s plans after

theorem follows_perform {x : Call} (plans : List Plan) (hreturns : x.breaksOff config s = false) :
    Follows config plans s (x.plans config s plans) (x.perform config s) := by
  cases x with
  | activate target => exact .activated target
  | requestStop => exact .left rfl rfl (.inr ⟨rfl, rfl⟩)
  | beginTick runner =>
    have hticked := s.beginTick_ticked config runner
    rw [Call.breaksOff] at hreturns
    rw [Call.plans, Call.perform]
    generalize s.beginTick config runner = turn at hticked hreturns ⊢
    obtain ⟨turn, after⟩ := turn
    cases hticked with
    | foreign => exact (List.append_nil plans).symm ▸ .kept
    | stopped | ended => exact (List.append_nil plans).symm ▸ .left rfl rfl (.inl rfl)
    | zeroInterval | corrupted => cases hreturns
    | planned hrunner hwanted _ hwork hranges =>
      have hworked := worked_of_work hwork
      exact .planned hrunner hwanted (tickCount_lt_of_ranges hworked hranges) hworked
  | detach runner =>
    rw [Call.plans, Call.perform, detach]
    split
    · exact .kept
    · split <;> exact .left rfl rfl (.inl rfl)

/-- What every such step keeps holds of all plans since the latest activation. -/
theorem plansSince_induction {P : List Plan → Session → Prop}
    (step : ∀ {plans s further after}, P plans s → Follows config plans s further after → P further after)
    (calls : List Call) {plans : List Plan} (h : P plans s) :
    ∃ after, P (plansSince config calls s plans) after := by
  induction calls generalizing s plans with
  | nil => exact ⟨s, h⟩
  | cons x rest ih =>
    rw [plansSince]
    split
    · exact ⟨s, h⟩
    · exact ih (step h (follows_perform plans (Bool.eq_false_iff.mpr ‹_›)))

end Session

/-- The plans of an activation and the session after them fit one another. -/
structure Phased (plans : List Plan) (s : Session) : Prop where
  answers : ∀ before q after, plans = before ++ q :: after → Answers before q
  /-- Nothing is planned after a break. -/
  broken_last : ∀ before q after, plans = before ++ q :: after → q.broke = true → after = []
  tick_le : ∀ q ∈ plans, q.tick ≤ s.tickCount
  pending : ∀ h, s.held = some h → Pending plans h.block
  broken_over : ∀ q ∈ plans, q.broke = true → s.runner = none

namespace Phased

variable {plans : List Plan} {plan : Plan} {s after : Session}

theorem nil (h : s.held = none) : Phased [] s where
  answers := fun before q after hplans => by cases before <;> cases hplans
  broken_last := fun before q after hplans => by cases before <;> cases hplans
  tick_le := List.forall_mem_nil _
  pending := fun held hheld => by
    rw [h] at hheld
    cases hheld
  broken_over := List.forall_mem_nil _

/-- Calls that plan nothing keep the count and what is held, and attach nobody. -/
theorem congr (h : Phased plans s) (hcount : after.tickCount = s.tickCount) (hheld : after.held = s.held)
    (hrunner : after.runner = s.runner ∨ after.runner = none) : Phased plans after where
  answers := h.answers
  broken_last := h.broken_last
  tick_le := hcount ▸ h.tick_le
  pending := hheld ▸ h.pending
  broken_over := fun q hq hbroke => hrunner.elim (fun hsame => hsame.trans (h.broken_over q hq hbroke)) id

/-- The dig that is held after a tick is the one it starts, or was held before and goes on. -/
theorem pending_worked (h : Phased plans s) (hworked : Worked config s.counted plan after) {held : Held}
    (hheld : after.held = some held) : Pending (plans ++ [plan]) held.block := by
  cases hworked with
  | spared =>
    obtain ⟨hkept, hnone⟩ := Session.released_held hheld
    exact (h.pending held hkept).concat rfl hnone
  | worn =>
    have hsame : { s.counted.released with durability := s.counted.worn config }.target = s.target := by
      obtain ⟨kept, hkept⟩ := s.counted.released_eq
      rw [hkept]
      rfl
    cases htarget : s.target with
    | some block =>
      rw [Session.startDig_of_some config (hsame.trans htarget)] at hheld
      cases hheld
      exact .of_start htarget
    | none =>
      rw [Session.startDig_of_none config (hsame.trans htarget)] at hheld
      obtain ⟨hkept, hnone⟩ := Session.released_held hheld
      exact (h.pending held hkept).concat htarget hnone
  | broken => cases hheld

/-- What a tick that is counted plans follows on the plans before it. -/
theorem worked (h : Phased plans s) {runner : RunnerId} (hrunner : s.runner = some runner)
    (hcount : s.tickCount.toNat + 1 < UInt64.size) (hworked : Worked config s.counted plan after) :
    Phased (plans ++ [plan]) after := by
  have htick : plan.tick = s.tickCount + 1 := by cases hworked <;> rfl
  have hfinish : plan.finish = s.counted.finished := by cases hworked <;> rfl
  have hafter : after.tickCount = s.tickCount + 1 := by
    obtain ⟨durability, held, rfl⟩ := hworked.frame
    rfl
  have hwhole : ∀ q ∈ plans, q.broke ≠ true := fun q hq hbroke => by
    rw [h.broken_over q hq hbroke] at hrunner
    cases hrunner
  have hearlier : ∀ q ∈ plans, q.tick < plan.tick := fun q hq => by
    rw [htick, UInt64.lt_iff_toNat_lt, UInt64.toNat_add, UInt64.toNat_one, Nat.mod_eq_of_lt hcount]
    exact Nat.lt_succ_of_le (UInt64.le_iff_toNat_le.mp (h.tick_le q hq))
  refine ⟨?_, ?_, ?_, fun _ => h.pending_worked hworked, ?_⟩
  · intro before q rest hplans
    rcases concat_eq_append_cons hplans with ⟨rfl, rfl, -⟩ | ⟨rest, -, hplans⟩
    · intro block hblock
      obtain ⟨held, hheld, rfl⟩ := Session.exists_held_of_finished (hfinish ▸ hblock)
      obtain ⟨earlier, p, between, rfl, hp, hbetween⟩ := h.pending held hheld
      have htick := hearlier p (List.mem_append_right earlier (List.mem_cons_self ..))
      exact ⟨earlier, p, between, rfl, hp, hbetween, htick⟩
    · exact h.answers before q rest hplans
  · intro before q rest hplans hbroke
    rcases concat_eq_append_cons hplans with ⟨-, -, hnil⟩ | ⟨rest, -, hplans⟩
    · exact hnil
    · have hq : q ∈ plans := hplans ▸ List.mem_append_right before (List.mem_cons_self ..)
      exact absurd hbroke (hwhole q hq)
  · rw [hafter, ← htick]
    refine List.forall_mem_append.mpr ⟨fun q hq => UInt64.le_of_lt (hearlier q hq), ?_⟩
    exact List.forall_mem_singleton.mpr (UInt64.le_refl _)
  · refine List.forall_mem_append.mpr ⟨fun q hq hbroke => absurd hbroke (hwhole q hq), ?_⟩
    rw [List.forall_mem_singleton]
    intro hbroke
    obtain ⟨durability, held, rfl⟩ := hworked.frame
    exact if_pos hbroke

theorem follows {further : List Plan} (h : Phased plans s)
    (hfollows : Session.Follows config plans s further after) :
    Phased further after := by
  cases hfollows with
  | activated target =>
    refine .nil ?_
    rw [Session.activate]
    split <;> rfl
  | planned hrunner _ hcount hworked => exact h.worked hrunner hcount hworked
  | kept => exact h
  | left hcount hheld hleft => exact h.congr hcount hheld (hleft.symm.imp_left And.left)

/-- Of two ends of digs, a start stands before the second and not before the first. -/
theorem exists_start_between (h : Phased plans s) {before between rest : List Plan} {q r : Plan}
    (hplans : plans = before ++ q :: between ++ r :: rest) (hq : q.finish.isSome = true)
    (hr : r.finish.isSome = true) : ∃ p ∈ q :: between, p.start.isSome = true := by
  obtain ⟨block, hblock⟩ := Option.isSome_iff_exists.mp hr
  obtain ⟨earlier, p, later, hbefore, hp, hlater, -⟩ := h.answers _ r rest hplans block hblock
  rcases List.append_eq_append_iff.mp hbefore with ⟨gap, rfl, hgap⟩ | ⟨gap, rfl, hgap⟩
  · -- The start is behind the first end, or on its tick.
    have hmem : p ∈ q :: between := hgap ▸ List.mem_append_right gap (List.mem_cons_self ..)
    exact ⟨p, hmem, Option.isSome_iff_exists.mpr ⟨block, hp⟩⟩
  · -- No dig ends between the start and the second end.
    cases gap with
    | nil =>
      obtain ⟨hsame, -⟩ := List.cons.inj hgap
      exact ⟨p, hsame ▸ List.mem_cons_self .., Option.isSome_iff_exists.mpr ⟨block, hp⟩⟩
    | cons _ gap =>
      obtain ⟨-, rfl⟩ := List.cons.inj hgap
      have hnone := (hlater q (List.mem_append_right gap (List.mem_cons_self ..))).2
      rw [hnone] at hq
      cases hq

theorem countP_broke_le_one (h : Phased plans s) : plans.countP (·.broke) ≤ 1 := by
  rcases hfind : plans.find? (·.broke) with _ | q
  · rw [List.countP_eq_zero.mpr (List.find?_eq_none.mp hfind)]
    exact Nat.zero_le 1
  · obtain ⟨hbroke, before, rest, rfl, hbefore⟩ := List.find?_eq_some_iff_append.mp hfind
    obtain rfl := h.broken_last before q rest rfl hbroke
    have hnone : before.countP (·.broke) = 0 := List.countP_eq_zero.mpr fun p hp hbroke => by
      have := hbefore p hp
      rw [hbroke] at this
      cases this
    rw [List.countP_append, hnone, Nat.zero_add]
    exact List.countP_le_length

end Phased

/-- **Starts and ends of digs alternate.** Of the plans since the latest activation, whatever was called
before and whoever called it:

* a plan that ends a dig is behind one that started a dig, and the latest of these started that dig, on an
  earlier tick;
* from one plan that ends a dig to the next, a dig is started;
* one plan at the most is a break, and nothing is planned after it. -/
theorem digs_alternate (config : Config) (calls : List Call) :
    let plans := Session.plansSince config calls .new []
    (∀ before q rest, plans = before ++ q :: rest → ∀ block, q.finish = some block →
      ∃ earlier p between, before = earlier ++ p :: between ∧ p.start = some block ∧
        (∀ r ∈ between, r.start = none) ∧ p.tick < q.tick) ∧
    (∀ before q between r rest, plans = before ++ q :: between ++ r :: rest →
      q.finish.isSome = true → r.finish.isSome = true → ∃ p ∈ q :: between, p.start.isSome = true) ∧
    plans.countP (·.broke) ≤ 1 ∧
    ∀ before q rest, plans = before ++ q :: rest → q.broke = true → rest = [] := by
  intro plans
  obtain ⟨s, h⟩ : ∃ s, Phased plans s := Session.plansSince_induction Phased.follows calls (.nil rfl)
  refine ⟨?_, fun before q between r rest hplans => h.exists_start_between hplans,
    h.countP_broke_le_one, h.broken_last⟩
  intro before q rest hplans block hblock
  obtain ⟨earlier, p, between, hbefore, hp, hbetween, hlater⟩ :=
    h.answers before q rest hplans block hblock
  exact ⟨earlier, p, between, hbefore, hp, fun r hr => (hbetween r hr).1, hlater⟩

/-- The dig of the first activation is never ended, and those of the second are in turn. -/
example :
    let config := { Config.standard with animation := 1, durability := 2, step := 40, hold := 1 }
    let tick := Call.beginTick 1
    let calls := [.activate ⟨0, 64, 0⟩, tick, tick, .detach 4, .activate ⟨0, 63, 0⟩, tick, tick, tick, tick]
    (Session.plansSince config calls .new []).map (fun p => (p.tick, p.finish, p.start)) =
      [(1, none, none), (2, none, some ⟨0, 63, 0⟩), (3, some ⟨0, 63, 0⟩, none),
        (4, none, some ⟨0, 63, 0⟩)] := by
  decide

end Pickaxe.Mining
