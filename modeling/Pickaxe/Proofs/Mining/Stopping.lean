import Pickaxe.Proofs.Mining.Moves

/-! What a stop does to a mining machine.

From a stop to the next activation no runner takes a plan, and the session counts no tick and wears
no tool, whatever the runners do meanwhile (`run_of_stopRequested`). A runner may have been in the
middle of a plan. `stop_silences` says how much of it is still sent: of the last plan that the
runner took, as far as the actions have not been sent before the stop, and no more. -/
namespace Pickaxe.Mining

open World (Action)

/-- A tick of a session that is to stop comes to nothing. -/
theorem Session.beginTick_of_stopRequested (config : Config) (runner : RunnerId) {s : Session}
    (hstop : s.stopRequested = true) :
    (s.beginTick config runner).1 = .leave ∧
      ((s.beginTick config runner).2 = s ∨ (s.beginTick config runner).2 = s.stopped) := by
  have hticked := s.beginTick_ticked config runner
  rcases hturn : s.beginTick config runner with ⟨turn, after⟩
  rw [hturn] at hticked
  cases hticked with
  | foreign => exact ⟨rfl, .inl rfl⟩
  | stopped => exact ⟨rfl, .inr rfl⟩
  | ended _ hwanted | zeroInterval _ hwanted | planned _ hwanted | corrupted _ hwanted =>
    rw [hstop] at hwanted
    cases hwanted

/-- What is left alone until an activation, in a session that is to stop. -/
theorem Call.perform_of_stopRequested (config : Config) {x : Call} {s : Session}
    (hx : ∀ target, x ≠ .activate target) (hstop : s.stopRequested = true) :
    (x.perform config s).stopRequested = true ∧
      (x.perform config s).tickCount = s.tickCount ∧
      (x.perform config s).durability = s.durability := by
  cases x with
  | activate target => exact absurd rfl (hx target)
  | requestStop => exact ⟨rfl, rfl, rfl⟩
  | beginTick runner =>
    rw [perform]
    rcases (Session.beginTick_of_stopRequested config runner hstop).2 with hsame | hstopped
    · rw [hsame]
      exact ⟨hstop, rfl, rfl⟩
    · rw [hstopped]
      exact ⟨hstop, rfl, rfl⟩
  | detach runner =>
    rw [perform, Session.detach, if_pos hstop]
    split <;> exact ⟨hstop, rfl, rfl⟩

theorem Session.performAll_of_stopRequested (config : Config) {calls : List Call} {s : Session}
    (hcalls : ∀ target, .activate target ∉ calls) (hstop : s.stopRequested = true) :
    (performAll config calls s).stopRequested = true ∧
      (performAll config calls s).tickCount = s.tickCount ∧
      (performAll config calls s).durability = s.durability := by
  induction calls generalizing s with
  | nil => exact ⟨hstop, rfl, rfl⟩
  | cons x rest ih =>
    obtain ⟨hstop, htick, hdurability⟩ := x.perform_of_stopRequested config
      (fun target hx => hcalls target (hx ▸ List.mem_cons_self)) hstop
    obtain ⟨hrest, hticks, hdurabilities⟩ :=
      ih (fun target hmem => hcalls target (List.mem_cons_of_mem x hmem)) hstop
    exact ⟨hrest, hticks.trans htick, hdurabilities.trans hdurability⟩

namespace Machine

theorem activate_mem_calls {moves : List Move} {m : Machine} {target : World.Block}
    (h : .activate target ∈ calls moves m) : ∃ now, .activate now target ∈ moves := by
  induction moves generalizing m with
  | nil => cases h
  | cons x rest ih =>
    rcases List.mem_append.mp h with hx | hrest
    · cases x with
      | activate now other =>
        cases List.mem_singleton.mp hx
        exact ⟨now, List.mem_cons_self⟩
      | requestStop | release => simp [Move.calls] at hx
      | turn now runner =>
        rw [Move.calls] at hx
        cases hstage : m.stageOf runner <;> simp [hstage] at hx
    · obtain ⟨now, hmem⟩ := ih hrest
      exact ⟨now, List.mem_cons_of_mem x hmem⟩

theorem plan?_of_stopRequested (x : Move) {m : Machine} (runner : RunnerId)
    (hstop : m.session.stopRequested = true) : x.plan? runner m = none := by
  cases x with
  | activate | requestStop | release => rfl
  | turn now other =>
    rw [Move.plan?, (m.session.beginTick_of_stopRequested m.config other hstop).1]
    split
    · exact ite_self _
    · rfl

theorem plans_of_stopRequested {moves : List Move} {m : Machine} (runner : RunnerId)
    (hmoves : ∀ now target, .activate now target ∉ moves)
    (hstop : m.session.stopRequested = true) : plans runner moves m = [] := by
  induction moves generalizing m with
  | nil => rfl
  | cons x rest ih =>
    have hcalls (target) : Call.activate target ∉ calls [x] m := fun h => by
      obtain ⟨now, hmem⟩ := activate_mem_calls h
      exact hmoves now target (List.mem_cons.mpr (.inl (List.mem_singleton.mp hmem)))
    have hafter := (Session.performAll_of_stopRequested m.config hcalls hstop).1
    rw [← run_session] at hafter
    rw [plans, plan?_of_stopRequested x runner hstop]
    exact ih (fun now target hmem => hmoves now target (List.mem_cons_of_mem x hmem)) hafter

/-- Until the next activation a machine that is to stop counts no tick, wears no tool and gives
out no plan. -/
theorem run_of_stopRequested {moves : List Move} {m : Machine}
    (hmoves : ∀ now target, .activate now target ∉ moves)
    (hstop : m.session.stopRequested = true) :
    (run moves m).session.tickCount = m.session.tickCount ∧
      (run moves m).session.durability = m.session.durability ∧
      ∀ runner, plans runner moves m = [] := by
  have hcalls (target) : Call.activate target ∉ calls moves m := fun h => by
    obtain ⟨now, hmem⟩ := activate_mem_calls h
    exact hmoves now target hmem
  have hkept := (Session.performAll_of_stopRequested m.config hcalls hstop).2
  rw [← run_session] at hkept
  exact ⟨hkept.1, hkept.2, fun runner => plans_of_stopRequested runner hmoves hstop⟩

theorem flatMap_eq_dropLast_append {α β : Type} (l : List α) (f : α → List β) :
    l.flatMap f = l.dropLast.flatMap f ++ l.getLast?.toList.flatMap f := by
  rw [← List.flatMap_append]
  cases hlast : l.getLast? with
  | none => simp [List.getLast?_eq_none_iff.mp hlast]
  | some a => rw [Option.toList_some, List.dropLast_append_getLast? a hlast]

/-- **A stop silences every runner**, until the next activation. -/
theorem stop_silences (config : Config) (before between : List Move)
    (hbetween : ∀ now target, .activate now target ∉ between) :
    let new := Machine.new config
    let m := run (before ++ [.requestStop]) new
    (run between m).session.tickCount = m.session.tickCount ∧
      (run between m).session.durability = m.session.durability ∧
      ∀ runner,
        plans runner between m = [] ∧
          ∃ done left,
            (plans runner before new).getLast?.toList.flatMap (·.actions new.config) =
              done ++ left ∧
            sent runner before new =
              (plans runner before new).dropLast.flatMap (·.actions new.config) ++ done ∧
            sent runner between m <+: left := by
  intro new m
  have hm : m = (run before new).requestStop := run_append before [.requestStop] new
  have hstop : m.session.stopRequested = true := by rw [hm]; rfl
  obtain ⟨htick, hdurability, hplans⟩ := run_of_stopRequested hbetween hstop
  refine ⟨htick, hdurability, fun runner => ⟨hplans runner, ?_⟩⟩
  have horderly : m.Orderly := (new_orderly config).run _
  have hstage : m.stageOf runner = (run before new).stageOf runner := by
    rw [hm, stageOf_requestStop]
  obtain ⟨done, hdone⟩ := (new_orderly config).left_suffix runner rfl before
  refine ⟨done, (m.stageOf runner).left, ?_, ?_, ?_⟩
  · rw [hstage]
    exact hdone.symm
  · -- What is left is the end of the last plan, so all that came before it has been sent.
    have haccount := (new_orderly config).run_account before runner
    rw [show (new.stageOf runner).left = [] from rfl, List.nil_append,
      flatMap_eq_dropLast_append, ← hdone, ← List.append_assoc] at haccount
    exact List.append_cancel_right haccount
  · have haccount := horderly.run_account between runner
    rw [hplans runner, List.flatMap_nil, List.append_nil] at haccount
    exact ⟨_, haccount⟩

/-- A stop comes between the two actions of a plan; the other one is still sent, and no third. -/
theorem stop_silences_halfway :
    let new := Machine.new { Config.standard with animation := 1, durability := 1 }
    let turn := Move.turn (Duration.milliseconds 50) 1
    let before := [.activate 0 ⟨0, 64, 0⟩, turn, turn, turn]
    let between := [turn, .turn (Duration.milliseconds 100) 1, turn]
    let m := run (before ++ [.requestStop]) new
    (∀ now target, .activate now target ∉ between) ∧
      sent 1 before new = [.swing] ∧
      sent 1 between m = [.dig .started ⟨0, 64, 0⟩ .up] ∧
      (run between m).session.state = .stopped ∧
      plans 1 between m = [] := by
  intro new turn before between m
  have hbetween (now target) : Move.activate now target ∉ between := by simp [between, turn]
  obtain ⟨-, -, hrunners⟩ := stop_silences
    { Config.standard with animation := 1, durability := 1 } before between hbetween
  exact ⟨hbetween, by decide, by decide, by decide, (hrunners 1).1⟩

end Machine

end Pickaxe.Mining
