import Mathlib.Order.Monotone.Basic
import Mathlib.Tactic.Ring
import Pickaxe.Clock

/-! The schedule of a clock.

A clock that nobody stops gives a tick to every wait (`wait_none`), and what one tick leaves behind says all
about the next: how many ticks there were, and when the next one is due (`Scheduled`). From this comes the
schedule of all ticks, whenever they are waited for, and what is counted of them (`ticks_on_schedule`). A
clock that has been stopped stays as it is (`waitAll_stop`). -/
namespace Pickaxe.Clock

variable {settings : Settings} {start now last : Instant} {n : Nat} {c : Clock}

/-! ### One tick -/

theorem validated_period_pos (settings : Settings) : 0 < settings.validated.period := by
  have hperiod : settings.validated.period =
    if settings.period = 0 then Settings.standardPeriod else settings.period := rfl
  rw [hperiod]
  split
  · decide
  · exact Nat.pos_of_ne_zero ‹_›

/-- A tick is an overrun if it is late by more than a tenth of a period. -/
theorem overrun_iff (now : Instant) (c : Clock) :
    (c.tick now).overrun = true ↔ c.period < 10 * (now - c.due) := by
  rw [Nat.mul_comm, ← Nat.div_lt_iff_lt_mul (by decide)]
  exact decide_eq_true_iff

theorem skipped_of_drop (hpolicy : c.settings.policy = .drop) (now : Instant) :
    (c.tick now).skipped = 0 := by
  simp [tick, hpolicy]

/-- A tick that is hardly late is not late by a whole period, so that all ticks skip the whole periods that
they are late. -/
theorem skipped_of_skip (hpolicy : c.settings.policy = .skip) (hpos : 0 < c.period) (now : Instant) :
    (c.tick now).skipped = (now - c.due) / c.period := by
  by_cases hlate : now - c.due > c.period / 10
  · simp [tick, hpolicy, hlate]
  · have hbrief : now - c.due < c.period :=
      Nat.lt_of_le_of_lt (Nat.not_lt.mp hlate) (Nat.div_lt_self hpos (by decide))
    simp [tick, hlate, Nat.div_eq_of_lt hbrief]

/-- No more periods are skipped than have gone by. -/
theorem skipped_mul_le (now : Instant) (c : Clock) :
    (c.tick now).skipped * c.period ≤ now - c.due := by
  simp only [tick]
  split
  · exact Nat.div_mul_le_self _ _
  · rw [Nat.zero_mul]
    exact Nat.zero_le _

theorem due_deliver_of_skip (hpolicy : c.settings.policy = .skip) (now : Instant) :
    (c.deliver now).2.due = now + c.period := by
  simp only [deliver, hpolicy]

theorem due_deliver_of_drop (hpolicy : c.settings.policy = .drop) (now : Instant) :
    (c.deliver now).2.due = c.due + c.period := by
  simp only [deliver, hpolicy]

/-! ### One wait -/

theorem wait_none (hrunning : c.stopped = false) (now : Instant) :
    c.wait now none =
      (some (c.tick (max now c.due)), max now c.due, (c.deliver (max now c.due)).2) := by
  simp [wait, hrunning, deliver]

/-- A stop that comes later than the tick does not keep it back. -/
theorem wait_of_lt {stopping : Instant} (h : max now c.due < stopping) :
    c.wait now (some stopping) = c.wait now none := by
  simp [wait, h]

/-- One that comes earlier, or at the same moment, does. -/
theorem wait_of_le (hrunning : c.stopped = false) {stopping : Instant} (h : stopping ≤ max now c.due) :
    c.wait now (some stopping) = (none, max now stopping, c.stop) := by
  simp [wait, hrunning, Nat.not_lt.mpr h]

/-! ### Tick after tick -/

/-- When the tick behind the `n`-th is due, which came at `last`. -/
def dueBehind (settings : Settings) (start : Instant) (n : Nat) (last : Instant) : Instant :=
  match settings.policy with
  | .drop => start + (n + 1) * settings.validated.period
  | .skip => last + settings.validated.period

/-- A clock made at `start` that has given out `n` ticks, the latest of them at `last`. -/
structure Scheduled (settings : Settings) (start : Instant) (n : Nat) (last : Instant) (c : Clock) : Prop where
  settings_eq : c.settings = settings.validated
  running : c.stopped = false
  count_eq : c.count = n
  ticks_eq : c.metrics.ticks = n
  due_eq : c.due = dueBehind settings start n last
  /-- A period has gone by for each tick, and for each that was skipped. -/
  spent : start + (n + c.metrics.skipped) * settings.validated.period ≤ last
  /-- So it has for the next one when it is due. -/
  ahead : start + (n + c.metrics.skipped + 1) * settings.validated.period ≤ c.due

theorem new_scheduled (settings : Settings) (start : Instant) :
    Scheduled settings start 0 start (new settings start) where
  settings_eq := rfl
  running := rfl
  count_eq := rfl
  ticks_eq := rfl
  due_eq := by
    rw [dueBehind]
    cases settings.policy with
    | skip => rfl
    | drop => rw [Nat.zero_add, Nat.one_mul]; rfl
  spent := by simp [new]
  ahead := by simp [new]

namespace Scheduled

theorem period_eq (h : Scheduled settings start n last c) : c.period = settings.validated.period :=
  congrArg Settings.period h.settings_eq

theorem policy_eq (h : Scheduled settings start n last c) : c.settings.policy = settings.policy := by
  rw [h.settings_eq]
  rfl

/-- **A tick leaves the clock on its schedule**, however late it is. -/
theorem deliver (h : Scheduled settings start n last c) (hnow : c.due ≤ now) :
    Scheduled settings start (n + 1) now (c.deliver now).2 := by
  have hperiod := h.period_eq
  have hahead := hperiod ▸ h.ahead
  have hspent : start + (n + 1 + (c.deliver now).2.metrics.skipped) * c.period ≤ now := calc
    start + (n + 1 + (c.metrics.skipped + (c.tick now).skipped)) * c.period
      = start + (n + c.metrics.skipped + 1) * c.period + (c.tick now).skipped * c.period := by ring
    _ ≤ c.due + (now - c.due) := Nat.add_le_add hahead (skipped_mul_le now c)
    _ = now := Nat.add_sub_cancel' hnow
  -- When the next tick is due hangs on the policy, and so does how far this is ahead of all that is counted.
  have hnext : (c.deliver now).2.due = dueBehind settings start (n + 1) now ∧
      start + (n + 1 + (c.deliver now).2.metrics.skipped + 1) * c.period ≤ (c.deliver now).2.due := by
    have hdue := h.due_eq
    rw [dueBehind] at hdue ⊢
    cases hpolicy : settings.policy with
    | skip =>
      rw [due_deliver_of_skip (h.policy_eq.trans hpolicy), hperiod]
      refine ⟨rfl, ?_⟩
      rw [← hperiod, Nat.succ_mul, ← Nat.add_assoc]
      exact Nat.add_le_add_right hspent _
    | drop =>
      have hnone : (c.deliver now).2.metrics.skipped = c.metrics.skipped :=
        congrArg (c.metrics.skipped + ·) (skipped_of_drop (h.policy_eq.trans hpolicy) now)
      rw [due_deliver_of_drop (h.policy_eq.trans hpolicy), hnone]
      simp only [hpolicy] at hdue
      refine ⟨?_, ?_⟩
      · rw [hperiod, hdue]
        ring
      · rw [Nat.add_right_comm n 1, Nat.succ_mul, ← Nat.add_assoc]
        exact Nat.add_le_add_right hahead _
  exact ⟨h.settings_eq, h.running, congrArg Nat.succ h.count_eq, congrArg Nat.succ h.ticks_eq, hnext.1,
    hperiod ▸ hspent, hperiod ▸ hnext.2⟩

end Scheduled

/-! ### Wait after wait -/

/-- The clock after `n` waits that nobody disturbs. The `k`-th of them begins at `calls k`. -/
def afterWaits (calls : Nat → Instant) (c : Clock) : (n : Nat) → Clock
  | 0 => c
  | n + 1 => ((c.afterWaits calls n).wait (calls (n + 1)) none).2.2

/-- When the `n`-th tick comes, of a clock made at `start`. -/
def cameAt (calls : Nat → Instant) (start : Instant) (c : Clock) : (n : Nat) → Instant
  | 0 => start
  | n + 1 => max (calls (n + 1)) (c.afterWaits calls n).due

/-- The `n`-th tick. -/
def nthTick (calls : Nat → Instant) (start : Instant) (c : Clock) (n : Nat) : Tick :=
  (c.afterWaits calls (n - 1)).tick (c.cameAt calls start n)

section

variable (settings : Settings) (start : Instant) (calls : Nat → Instant)

theorem scheduled_afterWaits (n : Nat) :
    Scheduled settings start n ((new settings start).cameAt calls start n)
      ((new settings start).afterWaits calls n) := by
  induction n with
  | zero => exact new_scheduled settings start
  | succ n ih =>
    rw [afterWaits, wait_none ih.running]
    exact ih.deliver (Nat.le_max_right _ _)

/-- **Every wait comes to a tick.** -/
theorem wait_afterWaits (n : Nat) :
    let c := new settings start
    (c.afterWaits calls n).wait (calls (n + 1)) none =
      (some (c.nthTick calls start (n + 1)), c.cameAt calls start (n + 1), c.afterWaits calls (n + 1)) := by
  have hrunning := (scheduled_afterWaits settings start calls n).running
  simp only [afterWaits]
  rw [wait_none hrunning]
  rfl

theorem cameAt_succ (n : Nat) :
    (new settings start).cameAt calls start (n + 1) =
      max (dueBehind settings start n ((new settings start).cameAt calls start n)) (calls (n + 1)) := by
  rw [cameAt, (scheduled_afterWaits settings start calls n).due_eq, Nat.max_comm]

/-- Ticks that may be skipped are a period apart or more. -/
theorem cameAt_add_le (hpolicy : settings.policy = .skip) {m n : Nat} (h : m ≤ n) :
    (new settings start).cameAt calls start m + settings.validated.period ≤
      (new settings start).cameAt calls start (n + 1) := by
  have hstep (k : Nat) : (new settings start).cameAt calls start k + settings.validated.period ≤
      (new settings start).cameAt calls start (k + 1) := by
    rw [cameAt_succ, dueBehind, hpolicy]
    exact Nat.le_max_left _ _
  have hmono := monotone_nat_of_le_succ fun k => Nat.le_trans (Nat.le_add_right _ _) (hstep k)
  exact Nat.le_trans (Nat.add_le_add_right (hmono h) _) (hstep n)

/-- The counts of a clock are those of its ticks. -/
theorem metrics_afterWaits (n : Nat) :
    ((new settings start).afterWaits calls n).metrics =
      ⟨n, (List.range n).countP fun k => ((new settings start).nthTick calls start (k + 1)).overrun,
        ((List.range n).map fun k => ((new settings start).nthTick calls start (k + 1)).skipped).sum⟩ := by
  induction n with
  | zero => rfl
  | succ n ih =>
    have hrunning := (scheduled_afterWaits settings start calls n).running
    have hlast : ((new settings start).afterWaits calls n).tick
        (max (calls (n + 1)) ((new settings start).afterWaits calls n).due) =
          (new settings start).nthTick calls start (n + 1) := rfl
    rw [afterWaits, wait_none hrunning]
    simp only [deliver, ih, hlast, List.range_succ, List.countP_append, List.map_append, List.sum_append]
    cases hover : ((new settings start).nthTick calls start (n + 1)).overrun <;> simp [hover]

end

/-! ### Stopped -/

/-- What waits come to, one after another, and the clock after them. Each may have somebody who stops the
clock. -/
def waitAll : List (Instant × Option Instant) → Clock → List (Option Tick) × Clock
  | [], c => ([], c)
  | (now, stopping) :: rest, c =>
    let (tick, _, c) := c.wait now stopping
    let (ticks, c) := waitAll rest c
    (tick :: ticks, c)

/-- **A clock that has been stopped** gives out nothing and stays as it is. -/
theorem waitAll_stop (waits : List (Instant × Option Instant)) (c : Clock) :
    waitAll waits c.stop = (List.replicate waits.length none, c.stop) := by
  induction waits with
  | nil => rfl
  | cons first rest ih =>
    have hwait : c.stop.wait first.1 first.2 = (none, first.1, c.stop) := if_pos rfl
    simp only [waitAll, hwait, ih]
    rfl

/-! ### The schedule -/

/-- **The ticks keep to the schedule.** Let a clock be made at `t 0` and its ticks be waited for again and
again, whenever each wait begins, and let `P` be its period.

* Every wait comes to a tick, and the ticks are numbered from 1. The `n`-th comes when it is due, or at once
  if it is waited for later than that. Where ticks are not skipped, it is due `n` periods after the clock was
  made, and otherwise one period after the tick before it.
* Under the one policy nothing counts as skipped. Under the other a tick skips the whole periods that it is
  late, and any two ticks are a period apart or more.
* The clock counts the ticks, those that are late by more than a tenth of a period, and what they have
  skipped. Ticks and skipped periods are no more than the periods that have gone by, so that 64 bits count
  them as long as fewer than 2 ^ 64 periods have.
* A stop that comes before the next tick, or at the same moment, keeps it back, and a later one does not.
  From a stop on nothing comes of any wait, and all counts stay as they are. -/
theorem ticks_on_schedule (settings : Settings) (start : Instant) (calls : Nat → Instant) :
    let P := (new settings start).period
    ∃ (tick : Nat → Tick) (t : Nat → Instant) (clock : Nat → Clock),
      let due n := match settings.policy with
        | .drop => start + (n + 1) * P
        | .skip => t n + P
      let late n := t (n + 1) - due n
      (0 < P ∧ P = if settings.period = 0 then Settings.standardPeriod else settings.period) ∧
      (clock 0 = new settings start ∧ t 0 = start ∧
        ∀ n, (clock n).wait (calls (n + 1)) none = (some (tick (n + 1)), t (n + 1), clock (n + 1))) ∧
      (∀ n, (tick (n + 1)).number = n + 1 ∧ (tick (n + 1)).period = P ∧
        t (n + 1) = max (due n) (calls (n + 1)) ∧ ((tick (n + 1)).overrun = true ↔ P < 10 * late n)) ∧
      (match settings.policy with
        | .drop => ∀ n, (tick (n + 1)).skipped = 0
        | .skip => ∀ n, (tick (n + 1)).skipped = late n / P ∧ ∀ m ≤ n, t m + P ≤ t (n + 1)) ∧
      (∀ n, (clock n).count = n ∧ (clock n).metrics.ticks = n ∧
        (clock n).metrics.overruns = (List.range n).countP (fun k => P < 10 * late k) ∧
        (clock n).metrics.skipped = ((List.range n).map fun k => (tick (k + 1)).skipped).sum ∧
        (clock n).metrics.ticks + (clock n).metrics.skipped ≤ (t n - start) / P) ∧
      ∀ n,
        (∀ s, t (n + 1) < s → (clock n).wait (calls (n + 1)) (some s) =
          (some (tick (n + 1)), t (n + 1), clock (n + 1))) ∧
        (∀ s ≤ t (n + 1), (clock n).wait (calls (n + 1)) (some s) =
          (none, max (calls (n + 1)) s, (clock n).stop)) ∧
        (∀ waits, waitAll waits (clock n).stop = (List.replicate waits.length none, (clock n).stop)) ∧
        (clock n).stop.count = (clock n).count ∧ (clock n).stop.metrics = (clock n).metrics := by
  intro P
  refine ⟨(new settings start).nthTick calls start, (new settings start).cameAt calls start,
    (new settings start).afterWaits calls, ?_⟩
  intro due late
  have hschedule := scheduled_afterWaits settings start calls
  have hmetrics := metrics_afterWaits settings start calls
  have hpos : 0 < P := validated_period_pos settings
  have hdue (n : Nat) : ((new settings start).afterWaits calls n).due = due n := (hschedule n).due_eq
  have hover (n : Nat) :
      ((new settings start).nthTick calls start (n + 1)).overrun = true ↔ P < 10 * late n := by
    rw [nthTick, overrun_iff, Nat.add_sub_cancel, (hschedule n).period_eq, hdue]
    rfl
  refine ⟨⟨hpos, rfl⟩, ⟨rfl, rfl, wait_afterWaits settings start calls⟩, fun n => ⟨?_, ?_, ?_, hover n⟩, ?_,
    fun n => ⟨(hschedule n).count_eq, (hschedule n).ticks_eq, ?_, ?_, ?_⟩,
    fun n => ⟨?_, fun s => wait_of_le (hschedule n).running, fun waits => waitAll_stop waits _, rfl, rfl⟩⟩
  · exact congrArg Nat.succ (hschedule n).count_eq
  · exact (hschedule n).period_eq
  · exact cameAt_succ settings start calls n
  · cases hpolicy : settings.policy with
    | drop => exact fun n => skipped_of_drop ((hschedule n).policy_eq.trans hpolicy) _
    | skip =>
      refine fun n => ⟨?_, fun m => cameAt_add_le settings start calls hpolicy⟩
      have hskipped := skipped_of_skip ((hschedule n).policy_eq.trans hpolicy)
        ((hschedule n).period_eq ▸ hpos) ((new settings start).cameAt calls start (n + 1))
      rw [(hschedule n).period_eq, hdue] at hskipped
      exact hskipped
  · rw [hmetrics]
    exact List.countP_congr fun k _ => by rw [hover k, decide_eq_true_iff]
  · rw [hmetrics]
  · rw [(hschedule n).ticks_eq, Nat.le_div_iff_mul_le hpos]
    exact Nat.le_sub_of_add_le' (hschedule n).spent
  · intro s hs
    rw [wait_of_lt hs]
    exact wait_afterWaits settings start calls n

/-- A consumer that comes two and a half periods late for its second tick. -/
example : ((new .standard 0).afterWaits (fun n => if n = 2 then 225000000 else 0) 3).metrics = ⟨3, 1, 2⟩ := by
  decide

end Pickaxe.Clock
