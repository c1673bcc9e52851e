import Pickaxe.Proofs.Mining.Stopping

/-! How a mining machine comes to rest.

A machine that has been stopped for good is `Dismissed`: its session is to stop and no task has a
clock any more. In every turn a task then comes closer to the end (`Dismissed.turn`), at most six
turns from it, and when all have left no turn does anything (`turn_of_isQuiet`). A stop dismisses
the machine if every task is on its list, and until it is released every task is. -/
namespace Pickaxe.Mining

/-- The turns that a task without a clock takes before it has left. -/
def Stage.remaining : Stage → Nat
  | .waiting | .woken => 2
  | .acting _ _ left _ => left.length + 3
  | .leaving => 1
  | .gone => 0

theorem Stage.remaining_after_le (now : Instant) (last : Bool) (actions : List World.Action) :
    (Stage.after now last actions).remaining ≤ actions.length + 2 := by
  cases actions with
  | nil =>
    cases last with
    | true => exact Nat.le_succ 1
    | false => exact Nat.le_refl 2
  | cons => exact Nat.le_refl _

theorem Stage.remaining_eq_zero {stage : Stage} (h : stage.remaining = 0) : stage = .gone := by
  cases stage <;> first | rfl | cases h

namespace Machine

/-- A stop reaches every task. -/
def Listed (m : Machine) : Prop := ∀ t ∈ m.tasks, t.listed = true

/-- Mining is over, and every clock is stopped. -/
structure Dismissed (m : Machine) : Prop where
  stopRequested : m.session.stopRequested = true
  clocks : ∀ t ∈ m.tasks, t.clock.stopped = true

variable {m : Machine}

theorem mem_put_cases {t u : Task} {s : Session} (h : u ∈ (m.put t s).tasks) :
    u = t ∨ u ∈ m.tasks := by
  obtain ⟨v, hv, rfl⟩ := List.mem_map.mp h
  split
  · exact .inl rfl
  · exact .inr hv

theorem Listed.perform (h : m.Listed) {x : Move} (hx : x ≠ .release) : (x.perform m).Listed := by
  cases x with
  | activate now target =>
    rw [Move.perform]
    generalize hafter : m.activate now target = after
    cases activated_of_activate hafter with
    | kept => exact h
    | hired =>
      intro t ht
      rcases List.mem_append.mp ht with ht | ht
      · exact h t (List.mem_of_mem_filter ht)
      · rw [List.mem_singleton.mp ht]
  | requestStop =>
    intro t ht
    obtain ⟨u, hu, rfl⟩ := List.mem_map.mp ht
    split <;> exact h u hu
  | release => exact absurd rfl hx
  | turn now runner =>
    rw [Move.perform]
    rcases hstep : m.step now runner with ⟨action, after⟩
    cases turned_of_step hstep with
    | absent => exact h
    | advanced hfind _ hadvanced =>
      intro u hu
      rcases mem_put_cases hu with rfl | hold
      · have ht := h _ (List.mem_of_find?_eq_some hfind)
        cases hadvanced <;> exact ht
      · exact h u hold

theorem Listed.run (h : m.Listed) {moves : List Move} (hmoves : .release ∉ moves) :
    (Machine.run moves m).Listed := by
  induction moves generalizing m with
  | nil => exact h
  | cons x rest ih =>
    exact ih (h.perform fun hx => hmoves (hx ▸ List.mem_cons_self))
      fun hmem => hmoves (List.mem_cons_of_mem x hmem)

/-- A stop of the whole list leaves no clock. -/
theorem Listed.dismissed (h : m.Listed) : m.requestStop.release.Dismissed where
  stopRequested := rfl
  clocks := by
    intro t ht
    obtain ⟨u, hu, rfl⟩ := List.mem_map.mp ht
    obtain ⟨v, hv, rfl⟩ := List.mem_map.mp hu
    rw [if_pos (h v hv)]
    rfl

/-- **A turn in a dismissed machine brings its task closer to the end**, and no other away from it. -/
theorem Dismissed.turn (h : m.Dismissed) (now : Instant) (runner : RunnerId) :
    (m.step now runner).2.Dismissed ∧
      (∀ id, ((m.step now runner).2.stageOf id).remaining ≤ (m.stageOf id).remaining) ∧
      (m.stageOf runner ≠ .gone →
        ((m.step now runner).2.stageOf runner).remaining < (m.stageOf runner).remaining) := by
  rcases hstep : m.step now runner with ⟨action, after⟩
  cases turned_of_step hstep with
  | absent hnone => exact ⟨h, fun _ => Nat.le_refl _, fun hpresent => absurd (by rw [stageOf, hnone]) hpresent⟩
  | @advanced t after _ later hfind hrunner hadvanced =>
    have hclock := h.clocks t (List.mem_of_find?_eq_some hfind)
    have hstageOf : m.stageOf runner = t.stage := by rw [stageOf, hfind]
    have hafter : after.runner = runner := hadvanced.runner_eq.trans hrunner
    obtain ⟨hkept, hstopped, hcloser⟩ : later.stopRequested = true ∧ after.clock.stopped = true ∧
        (t.stage = .gone ∧ after.stage = .gone ∨ after.stage.remaining < t.stage.remaining) := by
      cases hadvanced with
      | halted hstage =>
        rw [hstage]
        exact ⟨h.stopRequested, hclock, .inr Nat.one_lt_two⟩
      | roused _ hrunning | early _ hrunning =>
        rw [hclock] at hrunning
        cases hrunning
      | @ticked turn _ hstage hturn =>
        obtain ⟨hleave, hsession⟩ :=
          m.session.beginTick_of_stopRequested m.config t.runner h.stopRequested
        rw [hturn] at hleave hsession
        obtain rfl : turn = .leave := hleave
        rw [hstage]
        refine ⟨?_, hclock, .inr Nat.one_lt_two⟩
        rcases hsession with hsame | hstop
        · rw [show later = m.session from hsame]
          exact h.stopRequested
        · rw [show later = m.session.stopped from hstop]
          exact h.stopRequested
      | @sent since action left last hstage =>
        rw [hstage]
        exact ⟨h.stopRequested, hclock, .inr (Nat.lt_succ_of_le (Stage.remaining_after_le _ _ _))⟩
      | left hstage =>
        rw [hstage]
        have hdetached := Call.perform_of_stopRequested m.config (x := .detach t.runner)
          (fun target heq => by cases heq) h.stopRequested
        exact ⟨hdetached.1, hclock, .inr Nat.one_pos⟩
      | gone hstage => exact ⟨h.stopRequested, hclock, .inl ⟨hstage, hstage⟩⟩
    refine ⟨⟨hkept, fun u hu => ?_⟩, fun id => ?_, fun hpresent => ?_⟩
    · rcases mem_put_cases hu with rfl | hold
      · exact hstopped
      · exact h.clocks u hold
    · rw [stageOf_put later id (by rw [hafter]; exact hfind), hafter]
      split
      · rw [‹id = runner›, hstageOf]
        rcases hcloser with ⟨hgone, hstays⟩ | hcloser
        · exact Nat.le_of_eq (by rw [hgone, hstays])
        · exact Nat.le_of_lt hcloser
      · exact Nat.le_refl _
    · rw [stageOf_put later runner (by rw [hafter]; exact hfind), if_pos hafter.symm, hstageOf]
      rw [hstageOf] at hpresent
      exact hcloser.resolve_left fun hgone => hpresent hgone.1

theorem Orderly.remaining_le (h : m.Orderly) (runner : RunnerId) :
    (m.stageOf runner).remaining ≤ 6 := by
  by_cases hgone : m.stageOf runner = .gone
  · rw [hgone]
    exact Nat.zero_le _
  · obtain ⟨t, ht, -, hstage⟩ := exists_of_stageOf_ne hgone
    have hbrief := h.brief t ht
    rw [← hstage]
    cases hwhat : t.stage with
    | acting since action left last =>
      rw [hwhat, Stage.left, List.length_cons] at hbrief
      exact Nat.add_le_add_right hbrief 2
    | waiting | woken | leaving | gone => exact (by decide)

theorem isQuiet_iff : m.isQuiet = true ↔ ∀ t ∈ m.tasks, t.stage = .gone := by
  rw [isQuiet, List.all_eq_true]
  refine forall₂_congr fun t _ => ?_
  rw [Task.isGone]
  cases t.stage <;> simp

theorem Orderly.isQuiet (h : m.Orderly) (hgone : ∀ runner, m.stageOf runner = .gone) :
    m.isQuiet = true := by
  rw [isQuiet_iff]
  intro t ht
  rw [← h.stageOf_eq ht]
  exact hgone t.runner

/-- **In a quiet machine no turn does anything.** -/
theorem turn_of_isQuiet (h : m.isQuiet = true) (now : Instant) (runner : RunnerId) :
    (m.step now runner).1 = none ∧ (m.step now runner).2.isQuiet = true := by
  rw [isQuiet_iff] at h ⊢
  rcases hstep : m.step now runner with ⟨action, after⟩
  cases turned_of_step hstep with
  | absent => exact ⟨rfl, h⟩
  | @advanced t after _ later hfind _ hadvanced =>
    have hgone := h t (List.mem_of_find?_eq_some hfind)
    cases hadvanced with
    | halted hstage | roused hstage | early hstage | ticked hstage | sent hstage | left hstage =>
      rw [hgone] at hstage
      cases hstage
    | gone =>
      refine ⟨rfl, fun u hu => ?_⟩
      rcases mem_put_cases hu with rfl | hold
      · exact hgone
      · exact h u hold

end Machine

end Pickaxe.Mining
