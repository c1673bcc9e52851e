import Mathlib.Data.List.Induction
import Mathlib.Data.List.Nodup
import Pickaxe.Mining.Machine
import Pickaxe.Proofs.Mining.Session

/-! A mining machine over any moves.

Callers activate the machine, stop it, and take its tasks off the list to wait for them; each task
takes its steps one by one. Whatever the order is, a run is a list of such moves. All that one step
of a task can do is in `Advanced`. A machine is `Orderly` when it is new and stays so: every task
has an id of its own that was given out. From this follow two accounts of a run. Its session goes
through calls of the session and nothing else (`run_session`), and every runner sends, in their
order, the actions of the plans it took and has the others left (`run_account`). -/
namespace Pickaxe.Mining

open World (Action Block)

/-! ### A step of a task -/

/-- The actions that are left to send. -/
def Stage.left : Stage → List Action
  | .acting _ action left _ => action :: left
  | .waiting | .woken | .leaving | .gone => []

@[simp] theorem Stage.left_after (now : Instant) (last : Bool) (actions : List Action) :
    (Stage.after now last actions).left = actions := by
  cases actions with
  | nil => cases last <;> rfl
  | cons => rfl

/-- What a task goes on with after its tick. -/
def Session.Turn.stage (config : Config) (now : Instant) : Session.Turn → Stage
  | .leave => .leaving
  | .tick plan => .after now plan.last (plan.actions config)
  | .fault _ => .gone

/-- The plan that comes of a tick. -/
def Session.Turn.plan? : Session.Turn → Option Plan
  | .tick plan => some plan
  | .leave | .fault _ => none

theorem Session.Turn.left_stage (config : Config) (now : Instant) (turn : Session.Turn) :
    (turn.stage config now).left = turn.plan?.toList.flatMap (·.actions config) := by
  cases turn with
  | leave | fault => rfl
  | tick plan => simp [stage, plan?]

/-- What the next step of a task can do: the action it sends, the task and the session after it. -/
inductive Advanced (config : Config) (now : Instant) (t : Task) (s : Session) :
    Option Action → Task → Session → Prop where
  /-- The clock has been stopped. -/
  | halted (hstage : t.stage = .waiting) (hclock : t.clock.stopped = true) :
      Advanced config now t s none { t with stage := .leaving } s
  | roused (hstage : t.stage = .waiting) (hclock : t.clock.stopped = false)
      (hdue : t.clock.due ≤ now) :
      Advanced config now t s none { t with clock := (t.clock.deliver now).2, stage := .woken } s
  /-- The tick is not due. -/
  | early (hstage : t.stage = .waiting) (hclock : t.clock.stopped = false)
      (hdue : ¬ t.clock.due ≤ now) : Advanced config now t s none t s
  | ticked {turn : Session.Turn} {after : Session} (hstage : t.stage = .woken)
      (hturn : s.beginTick config t.runner = (turn, after)) :
      Advanced config now t s none { t with stage := turn.stage config now } after
  | sent {since : Instant} {action : Action} {left : List Action} {last : Bool}
      (hstage : t.stage = .acting since action left last) :
      Advanced config now t s (some action) { t with stage := .after now last left } s
  | left (hstage : t.stage = .leaving) :
      Advanced config now t s none { t with stage := .gone } (s.detach t.runner)
  | gone (hstage : t.stage = .gone) : Advanced config now t s none t s

theorem advance_advanced (config : Config) (now : Instant) (t : Task) (s : Session) :
    Advanced config now t s (Machine.advance config now t s).1
      (Machine.advance config now t s).2.1 (Machine.advance config now t s).2.2 := by
  unfold Machine.advance
  cases hstage : t.stage with
  | waiting =>
    by_cases hclock : t.clock.stopped = true
    · simp only [if_pos hclock]
      exact .halted hstage hclock
    · by_cases hdue : t.clock.due ≤ now
      · simp only [if_neg hclock, if_pos hdue]
        exact .roused hstage (Bool.eq_false_iff.mpr hclock) hdue
      · simp only [if_neg hclock, if_neg hdue]
        exact .early hstage (Bool.eq_false_iff.mpr hclock) hdue
  | woken =>
    rcases hturn : s.beginTick config t.runner with ⟨turn, after⟩
    have hticked : Advanced config now t s none { t with stage := turn.stage config now } after :=
      .ticked hstage hturn
    cases turn <;> exact hticked
  | acting => exact .sent hstage
  | leaving => exact .left hstage
  | gone => exact .gone hstage

theorem Advanced.runner_eq {config : Config} {now : Instant} {t after : Task} {s later : Session}
    {action : Option Action} (h : Advanced config now t s action after later) :
    after.runner = t.runner := by
  cases h <;> rfl

theorem Plan.length_actions_le (config : Config) (p : Plan) : (p.actions config).length ≤ 4 := by
  have honce (c : Prop) [Decidable c] (a : Action) : (if c then [a] else []).length ≤ 1 := by
    split <;> simp
  have hdig (block : Option Block) (f : Block → Action) : (block.map f).toList.length ≤ 1 := by
    cases block <;> simp
  have hswing := honce (p.swing = true) .swing
  have hfinish := hdig p.finish fun b => .dig .finished b .up
  have hstart := hdig p.start fun b => .dig .started b .up
  have hbroke := honce (p.broke = true) (.chat config.breakLine)
  simp only [Plan.actions, List.length_append]
  omega

theorem Advanced.frame {config : Config} {now : Instant} {t after : Task} {s later : Session}
    {action : Option Action} (h : Advanced config now t s action after later)
    (hbrief : t.stage.left.length ≤ 4) :
    after.stage.left.length ≤ 4 ∧ later.nextRunner = s.nextRunner := by
  cases h with
  | halted | roused => exact ⟨Nat.zero_le _, rfl⟩
  | early | gone => exact ⟨hbrief, rfl⟩
  | @ticked turn after hstage hturn =>
    have hframe := (s.beginTick_ticked config t.runner).frame.2.1
    rw [hturn] at hframe
    refine ⟨?_, hframe⟩
    rw [Session.Turn.left_stage]
    cases turn with
    | leave | fault => exact Nat.zero_le _
    | tick plan => simpa [Session.Turn.plan?] using plan.length_actions_le config
  | sent hstage =>
    rw [hstage, Stage.left, List.length_cons] at hbrief
    refine ⟨?_, rfl⟩
    rw [Stage.left_after]
    exact Nat.le_of_succ_le hbrief
  | left => exact ⟨Nat.zero_le _, (Call.detach_frame t.runner s).2.1⟩

namespace Machine

/-- The machine with this task in place of the one of its runner, and this session. -/
def put (t : Task) (s : Session) (m : Machine) : Machine :=
  { m with session := s, tasks := m.tasks.map fun u => if u.runner = t.runner then t else u }

/-- What the task of a runner does next. -/
def stageOf (runner : RunnerId) (m : Machine) : Stage :=
  match m.tasks.find? (·.runner = runner) with
  | some t => t.stage
  | none => .gone

/-- What a turn of a runner can do. -/
inductive Turned (now : Instant) (runner : RunnerId) (m : Machine) :
    Option Action → Machine → Prop where
  /-- It has no task. -/
  | absent (hnone : m.tasks.find? (·.runner = runner) = none) : Turned now runner m none m
  | advanced {t after : Task} {action : Option Action} {later : Session}
      (hfind : m.tasks.find? (·.runner = runner) = some t) (hrunner : t.runner = runner)
      (hadvanced : Advanced m.config now t m.session action after later) :
      Turned now runner m action (m.put after later)

theorem turned_of_step {now : Instant} {runner : RunnerId} {m after : Machine}
    {action : Option Action} (h : m.step now runner = (action, after)) :
    Turned now runner m action after := by
  unfold step at h
  cases hfind : m.tasks.find? (·.runner = runner) with
  | none =>
    rw [hfind] at h
    cases h
    exact .absent hfind
  | some t =>
    have hrunner : t.runner = runner := by simpa using List.find?_some hfind
    have hadvanced := advance_advanced m.config now t m.session
    have hput := Turned.advanced hfind hrunner hadvanced
    rw [put, hadvanced.runner_eq, hrunner] at hput
    rw [hfind] at h
    cases h
    exact hput

end Machine

/-! ### Moves -/

/-- What moves a machine. -/
inductive Move where
  | activate (now : Instant) (target : Block)
  | requestStop
  | release
  /-- A task takes its next step. -/
  | turn (now : Instant) (runner : RunnerId)
deriving DecidableEq, Repr

namespace Move

/-- The machine after it. -/
def perform : Move → Machine → Machine
  | .activate now target, m => m.activate now target
  | .requestStop, m => m.requestStop
  | .release, m => m.release
  | .turn now runner, m => (m.step now runner).2

/-- The action that the runner sends by it. -/
def sent? (runner : RunnerId) : Move → Machine → Option Action
  | .turn now other, m => if other = runner then (m.step now other).1 else none
  | .activate .., _ | .requestStop, _ | .release, _ => none

/-- The plan that the runner takes by it. -/
def plan? (runner : RunnerId) : Move → Machine → Option Plan
  | .turn _ other, m => match m.stageOf other with
    | .woken => if other = runner then (m.session.beginTick m.config other).1.plan? else none
    | _ => none
  | .activate .., _ | .requestStop, _ | .release, _ => none

end Move

namespace Machine

/-- The machine after moves, one after another. -/
def run : List Move → Machine → Machine
  | [], m => m
  | x :: rest, m => run rest (x.perform m)

/-- The actions that the runner sends by them. -/
def sent (runner : RunnerId) : List Move → Machine → List Action
  | [], _ => []
  | x :: rest, m => (x.sent? runner m).toList ++ sent runner rest (x.perform m)

/-- The plans that the runner takes by them. -/
def plans (runner : RunnerId) : List Move → Machine → List Plan
  | [], _ => []
  | x :: rest, m => (x.plan? runner m).toList ++ plans runner rest (x.perform m)

theorem run_append (first rest : List Move) (m : Machine) :
    run (first ++ rest) m = run rest (run first m) := by
  induction first generalizing m with
  | nil => rfl
  | cons x first ih => exact ih _

theorem plans_append (runner : RunnerId) (first rest : List Move) (m : Machine) :
    plans runner (first ++ rest) m = plans runner first m ++ plans runner rest (run first m) := by
  induction first generalizing m with
  | nil => rfl
  | cons x first ih => rw [List.cons_append, plans, ih, plans, run, List.append_assoc]

/-! ### An activation -/

end Machine

/-- The session at the beginning of an activation. -/
def Session.fresh (target : Block) (s : Session) : Session := { s with
  state := .activating
  tickCount := 0
  durability := fullDurability
  stopRequested := false
  target := some target
  held := none
  activations := s.activations + 1 }

namespace Machine

/-- What an activation can do. -/
inductive Activated (now : Instant) (target : Block) (m : Machine) : Machine → Prop where
  /-- The runner stays. -/
  | kept {runner : RunnerId} (hrunner : m.session.runner = some runner)
      (hstop : m.session.stopRequested = false) :
      Activated now target m { m with session := m.session.fresh target }
  | hired (hneeded : m.session.runner = none ∨ m.session.stopRequested = true) :
      Activated now target m { m with
        session := { m.session.fresh target with
          runner := some m.session.nextRunner, nextRunner := m.session.nextRunner + 1 }
        tasks := m.tasks.filter (!·.isGone) ++
          [⟨m.session.nextRunner, .new (.withPeriod m.config.period) now, .waiting, true⟩] }

theorem activated_of_activate {now : Instant} {target : Block} {m after : Machine}
    (h : m.activate now target = after) : Activated now target m after := by
  subst h
  unfold activate Session.activate
  cases hrunner : m.session.runner with
  | none => exact .hired (.inl hrunner)
  | some runner =>
    cases hstop : m.session.stopRequested with
    | true => exact .hired (.inr hstop)
    | false =>
      have hkept : Activated now target m { m with session := m.session.fresh target } :=
        .kept hrunner hstop
      rw [Session.fresh, hrunner] at hkept
      exact hkept

/-! ### Tasks and their ids -/

/-- Every task has an id of its own that was given out, and no more to send than one plan has. -/
structure Orderly (m : Machine) : Prop where
  distinct : (m.tasks.map Task.runner).Nodup
  issued : ∀ t ∈ m.tasks, t.runner < m.session.nextRunner
  brief : ∀ t ∈ m.tasks, t.stage.left.length ≤ 4

theorem new_orderly (config : Config) : (new config).Orderly :=
  ⟨.nil, List.forall_mem_nil _, List.forall_mem_nil _⟩

/-- What changes neither runners nor what is left to send keeps the order. -/
theorem Orderly.map {m : Machine} (h : m.Orderly) {s : Session} {f : Task → Task}
    (hrunner : ∀ t, (f t).runner = t.runner) (hnext : m.session.nextRunner ≤ s.nextRunner)
    (hbrief : ∀ t ∈ m.tasks, (f t).stage.left.length ≤ 4) :
    Orderly { m with session := s, tasks := m.tasks.map f } where
  distinct := by
    have hsame : Task.runner ∘ f = Task.runner := funext hrunner
    rw [List.map_map, hsame]
    exact h.distinct
  issued := by
    intro u hu
    obtain ⟨t, ht, rfl⟩ := List.mem_map.mp hu
    rw [hrunner t]
    exact Nat.lt_of_lt_of_le (h.issued t ht) hnext
  brief := by
    intro u hu
    obtain ⟨t, ht, rfl⟩ := List.mem_map.mp hu
    exact hbrief t ht

theorem Orderly.perform {m : Machine} (h : m.Orderly) (x : Move) : (x.perform m).Orderly := by
  cases x with
  | activate now target =>
    rw [Move.perform]
    generalize hafter : m.activate now target = after
    cases activated_of_activate hafter with
    | kept => exact ⟨h.distinct, h.issued, h.brief⟩
    | hired =>
      have hfilter : ((m.tasks.filter (!·.isGone)).map Task.runner).Sublist
          (m.tasks.map Task.runner) := List.filter_sublist.map Task.runner
      refine ⟨?_, ?_, ?_⟩
      · rw [List.map_append, List.nodup_append]
        refine ⟨h.distinct.sublist hfilter, List.nodup_singleton _, ?_⟩
        intro id hid new hnew
        obtain ⟨t, ht, rfl⟩ := List.mem_map.mp (hfilter.subset hid)
        rw [List.mem_singleton.mp hnew]
        exact Nat.ne_of_lt (h.issued t ht)
      · intro t ht
        rcases List.mem_append.mp ht with ht | ht
        · exact Nat.lt_succ_of_lt (h.issued t (List.mem_of_mem_filter ht))
        · rw [List.mem_singleton.mp ht]
          exact Nat.lt_succ_self _
      · intro t ht
        rcases List.mem_append.mp ht with ht | ht
        · exact h.brief t (List.mem_of_mem_filter ht)
        · rw [List.mem_singleton.mp ht]
          exact Nat.zero_le _
  | requestStop =>
    refine h.map (fun t => ?_) (Nat.le_refl _) fun t ht => ?_
    · split <;> rfl
    · split <;> exact h.brief t ht
  | release => exact h.map (fun _ => rfl) (Nat.le_refl _) h.brief
  | turn now runner =>
    rw [Move.perform]
    rcases hstep : m.step now runner with ⟨action, after⟩
    cases turned_of_step hstep with
    | absent => exact h
    | @advanced t later _ session hfind hrunner hadvanced =>
      obtain ⟨hbrief, hnext⟩ := hadvanced.frame (h.brief t (List.mem_of_find?_eq_some hfind))
      refine h.map (fun u => ?_) (Nat.le_of_eq hnext.symm) fun u hu => ?_
      · split
        · exact Eq.symm ‹_›
        · rfl
      · split
        · exact hbrief
        · exact h.brief u hu

theorem Orderly.run {m : Machine} (h : m.Orderly) (moves : List Move) :
    (Machine.run moves m).Orderly := by
  induction moves generalizing m with
  | nil => exact h
  | cons x rest ih => exact ih (h.perform x)

theorem Orderly.find?_eq {m : Machine} (h : m.Orderly) {t : Task} (ht : t ∈ m.tasks) :
    m.tasks.find? (·.runner = t.runner) = some t := by
  cases hfind : m.tasks.find? (·.runner = t.runner) with
  | none => exact absurd (decide_eq_true rfl) (List.find?_eq_none.mp hfind t ht)
  | some u =>
    have hrunner : u.runner = t.runner := by simpa using List.find?_some hfind
    rw [List.inj_on_of_nodup_map h.distinct (List.mem_of_find?_eq_some hfind) ht hrunner]

theorem Orderly.filter_eq {m : Machine} (h : m.Orderly) {t : Task} (ht : t ∈ m.tasks) :
    m.tasks.filter (·.runner = t.runner) = [t] := by
  obtain ⟨before, after, htasks⟩ := List.append_of_mem ht
  have hdistinct := h.distinct
  rw [htasks, List.map_append, List.map_cons, List.nodup_middle, List.nodup_cons,
    List.mem_append] at hdistinct
  have hother (l : List Task) (hl : t.runner ∉ l.map Task.runner) :
      l.filter (·.runner = t.runner) = [] := by
    refine List.filter_eq_nil_iff.mpr fun u hu hrunner => hl ?_
    exact List.mem_map.mpr ⟨u, hu, of_decide_eq_true hrunner⟩
  rw [htasks, List.filter_append, hother before fun hmem => hdistinct.1 (.inl hmem),
    List.filter_cons, hother after fun hmem => hdistinct.1 (.inr hmem)]
  simp

theorem Orderly.stageOf_eq {m : Machine} (h : m.Orderly) {t : Task} (ht : t ∈ m.tasks) :
    m.stageOf t.runner = t.stage := by
  rw [stageOf, h.find?_eq ht]

theorem exists_of_stageOf_ne {m : Machine} {runner : RunnerId} (h : m.stageOf runner ≠ .gone) :
    ∃ t ∈ m.tasks, t.runner = runner ∧ t.stage = m.stageOf runner := by
  unfold stageOf at h ⊢
  cases hfind : m.tasks.find? (·.runner = runner) with
  | none => exact absurd (by rw [hfind]) h
  | some t => exact ⟨t, List.mem_of_find?_eq_some hfind, by simpa using List.find?_some hfind, rfl⟩

/-- What a runner does next hangs on its tasks that are not gone. -/
theorem Orderly.stageOf_congr {m n : Machine} (hm : m.Orderly) (hn : n.Orderly)
    {runner : RunnerId}
    (h : ∀ t, t.runner = runner → t.stage ≠ .gone → (t ∈ m.tasks ↔ t ∈ n.tasks)) :
    m.stageOf runner = n.stageOf runner := by
  by_cases hgone : m.stageOf runner = .gone
  · by_cases hother : n.stageOf runner = .gone
    · rw [hgone, hother]
    · obtain ⟨t, ht, hrunner, hstage⟩ := exists_of_stageOf_ne hother
      rw [← hrunner, hm.stageOf_eq ((h t hrunner (hstage ▸ hother)).mpr ht), hn.stageOf_eq ht]
  · obtain ⟨t, ht, hrunner, hstage⟩ := exists_of_stageOf_ne hgone
    rw [← hrunner, hm.stageOf_eq ht, hn.stageOf_eq ((h t hrunner (hstage ▸ hgone)).mp ht)]

/-- Changes of the tasks that leave the stages alone. -/
theorem stageOf_map (m : Machine) {s : Session} {f : Task → Task}
    (hrunner : ∀ t, (f t).runner = t.runner) (hstage : ∀ t, (f t).stage = t.stage)
    (runner : RunnerId) :
    stageOf runner { m with session := s, tasks := m.tasks.map f } = m.stageOf runner := by
  have hsame : (fun t : Task => decide (t.runner = runner)) ∘ f =
      fun t => decide (t.runner = runner) := funext fun t => by simp [hrunner t]
  simp only [stageOf, List.find?_map, hsame]
  cases m.tasks.find? (·.runner = runner) with
  | none => rfl
  | some t => exact hstage t

theorem stageOf_requestStop (m : Machine) (runner : RunnerId) :
    m.requestStop.stageOf runner = m.stageOf runner :=
  m.stageOf_map (fun t => by split <;> rfl) (fun t => by split <;> rfl) runner

theorem stageOf_release (m : Machine) (runner : RunnerId) :
    m.release.stageOf runner = m.stageOf runner :=
  m.stageOf_map (s := m.session) (f := fun t => { t with listed := false })
    (fun _ => rfl) (fun _ => rfl) runner

theorem stageOf_put {m : Machine} {t u : Task} (s : Session) (runner : RunnerId)
    (hfind : m.tasks.find? (·.runner = t.runner) = some u) :
    (m.put t s).stageOf runner = if runner = t.runner then t.stage else m.stageOf runner := by
  have hsame : (fun v : Task => decide (v.runner = runner)) ∘
      (fun v => if v.runner = t.runner then t else v) = fun v => decide (v.runner = runner) := by
    funext v
    by_cases hv : v.runner = t.runner <;> simp [hv]
  simp only [stageOf, put, List.find?_map, hsame]
  by_cases hrunner : runner = t.runner
  · have hu : u.runner = t.runner := by simpa using List.find?_some hfind
    subst hrunner
    simp [hfind, hu]
  · rw [if_neg hrunner]
    cases hother : m.tasks.find? (·.runner = runner) with
    | none => rfl
    | some v =>
      have hv : v.runner = runner := by simpa using List.find?_some hother
      simp [hv, hrunner]

/-- An activation lets every runner go on, but for a new one. -/
theorem Orderly.stageOf_activate {m : Machine} (h : m.Orderly) (now : Instant) (target : Block)
    (runner : RunnerId) :
    (m.activate now target).stageOf runner = m.stageOf runner ∨
      m.stageOf runner = .gone ∧ (m.activate now target).stageOf runner = .waiting := by
  have horderly : (m.activate now target).Orderly := h.perform (.activate now target)
  generalize hafter : m.activate now target = after at horderly ⊢
  cases activated_of_activate hafter with
  | kept => exact .inl rfl
  | hired =>
    by_cases hnew : runner = m.session.nextRunner
    · refine .inr ⟨?_, ?_⟩
      · by_contra hpresent
        obtain ⟨t, ht, hrunner, -⟩ := exists_of_stageOf_ne hpresent
        exact Nat.ne_of_lt (h.issued t ht) (hrunner.trans hnew)
      · subst hnew
        exact horderly.stageOf_eq (List.mem_append_right _ (List.mem_singleton_self _))
    · refine .inl (horderly.stageOf_congr h fun t hrunner hpresent => ?_)
      have hother : t.runner ≠ m.session.nextRunner := hrunner ▸ hnew
      have hkept : t.isGone = false := by
        unfold Task.isGone
        split
        · exact absurd ‹_› hpresent
        · rfl
      rw [List.mem_append, List.mem_filter, List.mem_singleton]
      constructor
      · rintro (⟨ht, -⟩ | rfl)
        · exact ht
        · exact absurd rfl hother
      · exact fun ht => .inl ⟨ht, by rw [hkept]; rfl⟩

/-! ### Accounts of a run -/

end Machine

namespace Move

/-- The calls of the session that it makes. -/
def calls : Move → Machine → List Call
  | .activate _ target, _ => [.activate target]
  | .requestStop, _ => [.requestStop]
  | .release, _ => []
  | .turn _ runner, m => match m.stageOf runner with
    | .woken => [.beginTick runner]
    | .leaving => [.detach runner]
    | .waiting | .acting .. | .gone => []

theorem perform_config (x : Move) (m : Machine) : (x.perform m).config = m.config := by
  cases x with
  | activate now target =>
    rw [perform]
    generalize hafter : m.activate now target = after
    cases Machine.activated_of_activate hafter <;> rfl
  | requestStop | release => rfl
  | turn now runner =>
    rw [perform]
    rcases hstep : m.step now runner with ⟨action, after⟩
    cases Machine.turned_of_step hstep <;> rfl

theorem perform_session (x : Move) (m : Machine) :
    (x.perform m).session = Session.performAll m.config (x.calls m) m.session := by
  cases x with
  | activate now target =>
    unfold perform Machine.activate
    rcases h : m.session.activate target with ⟨_ | runner, s⟩ <;>
      simp [calls, Session.performAll, Call.perform, h]
  | requestStop | release => rfl
  | turn now runner =>
    rw [perform]
    rcases hstep : m.step now runner with ⟨action, after⟩
    cases Machine.turned_of_step hstep with
    | absent hnone => simp [calls, Machine.stageOf, hnone, Session.performAll]
    | @advanced t later _ session hfind hrunner hadvanced =>
      have hstageOf : m.stageOf runner = t.stage := by rw [Machine.stageOf, hfind]
      subst hrunner
      rw [calls, hstageOf]
      cases hadvanced with
      | halted hstage | roused hstage | early hstage | sent hstage | gone hstage | left hstage =>
        rw [hstage]
        rfl
      | ticked hstage hturn =>
        rw [hstage]
        exact (congrArg Prod.snd hturn).symm

end Move

namespace Machine

/-- The account of a move: what a runner sends by it and what it has left then is what it had left
before and what its new plan brings. -/
theorem Orderly.account {m : Machine} (h : m.Orderly) (x : Move) (runner : RunnerId) :
    (x.sent? runner m).toList ++ ((x.perform m).stageOf runner).left =
      (m.stageOf runner).left ++ (x.plan? runner m).toList.flatMap (·.actions m.config) := by
  cases x with
  | activate now target =>
    rcases h.stageOf_activate now target runner with hsame | ⟨hgone, hwaiting⟩
    · simp [Move.sent?, Move.plan?, Move.perform, hsame]
    · simp [Move.sent?, Move.plan?, Move.perform, hgone, hwaiting, Stage.left]
  | requestStop => simp [Move.sent?, Move.plan?, Move.perform, stageOf_requestStop]
  | release => simp [Move.sent?, Move.plan?, Move.perform, stageOf_release]
  | turn now other =>
    rw [Move.sent?, Move.perform, Move.plan?]
    rcases hstep : m.step now other with ⟨action, after⟩
    cases turned_of_step hstep with
    | absent hnone => simp [stageOf, hnone]
    | @advanced t later _ session hfind hrunner hadvanced =>
      have hlater : later.runner = other := hadvanced.runner_eq.trans hrunner
      have hstageOf : m.stageOf other = t.stage := by rw [stageOf, hfind]
      rw [stageOf_put session runner (by rw [hlater]; exact hfind), hlater, hstageOf]
      by_cases hown : runner = other
      · subst hown
        rw [if_pos rfl, if_pos rfl, hstageOf]
        cases hadvanced with
        | halted hstage | roused hstage | early hstage | left hstage | gone hstage =>
          rw [hstage]
          rfl
        | sent hstage =>
          rw [hstage, Stage.left_after]
          simp [Stage.left]
        | @ticked turn _ hstage hturn =>
          rw [hrunner] at hturn
          rw [hstage, Session.Turn.left_stage]
          simp [hturn, Stage.left]
      · rw [if_neg hown, if_neg (Ne.symm hown)]
        cases t.stage <;> simp [Ne.symm hown]

/-- The calls of the session that moves make. -/
def calls : List Move → Machine → List Call
  | [], _ => []
  | x :: rest, m => x.calls m ++ calls rest (x.perform m)

theorem run_config (moves : List Move) (m : Machine) : (run moves m).config = m.config := by
  induction moves generalizing m with
  | nil => rfl
  | cons x rest ih => rw [run, ih, x.perform_config]

/-- **The session of a run has gone through calls, one after another.** -/
theorem run_session (moves : List Move) (m : Machine) :
    (run moves m).session = Session.performAll m.config (calls moves m) m.session := by
  induction moves generalizing m with
  | nil => rfl
  | cons x rest ih =>
    rw [run, ih, x.perform_config, x.perform_session, calls, Session.performAll_append]

theorem run_sound {m : Machine} (h : m.session.Sound) (moves : List Move) :
    (run moves m).session.Sound := by
  rw [run_session]
  exact Session.performAll_sound _ h

/-- **The account of a run.** A runner has sent, in their order, the actions that it had left and
those of its plans, but for the last of them, which it has left now. -/
theorem Orderly.run_account {m : Machine} (h : m.Orderly) (moves : List Move) (runner : RunnerId) :
    sent runner moves m ++ ((Machine.run moves m).stageOf runner).left =
      (m.stageOf runner).left ++ (plans runner moves m).flatMap (·.actions m.config) := by
  induction moves generalizing m with
  | nil => simp [sent, plans, Machine.run]
  | cons x rest ih =>
    have hrest := ih (h.perform x)
    rw [x.perform_config] at hrest
    rw [sent, plans, Machine.run, List.append_assoc, hrest, ← List.append_assoc,
      h.account x runner, List.flatMap_append, List.append_assoc]

theorem stage_of_plan? {x : Move} {m : Machine} {runner : RunnerId} {p : Plan}
    (h : x.plan? runner m = some p) : m.stageOf runner = .woken := by
  cases x with
  | activate | requestStop | release => cases h
  | turn now other =>
    rw [Move.plan?] at h
    cases hstage : m.stageOf other with
    | woken =>
      rw [hstage] at h
      by_cases hown : other = runner
      · rw [← hown, hstage]
      · simp [hown] at h
    | waiting | acting | leaving | gone =>
      rw [hstage] at h
      cases h

/-- What a runner has left is the rest of the last plan that it took. -/
theorem Orderly.left_suffix {m : Machine} (h : m.Orderly) (runner : RunnerId)
    (hidle : (m.stageOf runner).left = []) (moves : List Move) :
    ((Machine.run moves m).stageOf runner).left <:+
      (plans runner moves m).getLast?.toList.flatMap (·.actions m.config) := by
  induction moves using List.reverseRecOn with
  | nil =>
    rw [Machine.run, hidle]
    exact List.nil_suffix
  | append_singleton first x ih =>
    have haccount := (h.run first).account x runner
    rw [run_config] at haccount
    rw [run_append, plans_append, plans, plans, List.append_nil, Machine.run, Machine.run]
    cases hplan : x.plan? runner (Machine.run first m) with
    | none =>
      rw [hplan] at haccount
      have hsuffix : ((x.perform (Machine.run first m)).stageOf runner).left <:+
          ((Machine.run first m).stageOf runner).left := ⟨_, by simpa using haccount⟩
      simpa using hsuffix.trans ih
    | some p =>
      rw [hplan, stage_of_plan? hplan] at haccount
      exact ⟨_, by simpa [Stage.left] using haccount⟩

/-! ### What tasks send -/

/-- What every plan brings is all that a task ever has left to send. -/
theorem forall_left_perform {m : Machine} {P : Action → Prop}
    (hplan : ∀ p : Plan, ∀ a ∈ p.actions m.config, P a)
    (h : ∀ t ∈ m.tasks, ∀ a ∈ t.stage.left, P a) (x : Move) :
    ∀ t ∈ (x.perform m).tasks, ∀ a ∈ t.stage.left, P a := by
  cases x with
  | activate now target =>
    rw [Move.perform]
    generalize hafter : m.activate now target = after
    cases activated_of_activate hafter with
    | kept => exact h
    | hired =>
      refine List.forall_mem_append.mpr ⟨fun t ht => h t (List.mem_of_mem_filter ht), ?_⟩
      exact List.forall_mem_singleton.mpr (List.forall_mem_nil _)
  | requestStop =>
    refine List.forall_mem_map.mpr fun t ht => ?_
    split <;> exact h t ht
  | release => exact List.forall_mem_map.mpr h
  | turn now runner =>
    rw [Move.perform]
    rcases hstep : m.step now runner with ⟨action, after⟩
    cases turned_of_step hstep with
    | absent => exact h
    | @advanced t later _ session hfind _ hadvanced =>
      have ht := h t (List.mem_of_find?_eq_some hfind)
      refine List.forall_mem_map.mpr fun u hu => ?_
      split
      · cases hadvanced with
        | halted | roused | left => exact List.forall_mem_nil _
        | early | gone => exact ht
        | @ticked turn =>
          rw [Session.Turn.left_stage]
          exact List.forall_mem_flatMap.mpr fun p _ => hplan p
        | sent hstage =>
          rw [hstage] at ht
          rw [Stage.left_after]
          exact (List.forall_mem_cons.mp ht).2
      · exact h u hu

theorem forall_left_run {m : Machine} {P : Action → Prop}
    (hplan : ∀ p : Plan, ∀ a ∈ p.actions m.config, P a)
    (h : ∀ t ∈ m.tasks, ∀ a ∈ t.stage.left, P a) (moves : List Move) :
    ∀ t ∈ (run moves m).tasks, ∀ a ∈ t.stage.left, P a := by
  induction moves generalizing m with
  | nil => exact h
  | cons x rest ih =>
    refine ih ?_ (forall_left_perform hplan h x)
    rw [x.perform_config]
    exact hplan

/-- What a turn sends was left to send. -/
theorem mem_left_of_step {m : Machine} {now : Instant} {runner : RunnerId} {a : Action}
    (h : (m.step now runner).1 = some a) : ∃ t ∈ m.tasks, a ∈ t.stage.left := by
  rcases hstep : m.step now runner with ⟨action, after⟩
  rw [hstep] at h
  cases turned_of_step hstep with
  | absent => cases h
  | @advanced t _ _ _ hfind _ hadvanced =>
    cases hadvanced with
    | sent hstage =>
      cases h
      exact ⟨t, List.mem_of_find?_eq_some hfind, by rw [hstage]; exact List.mem_cons_self⟩
    | halted | roused | early | ticked | left | gone => cases h

end Machine

end Pickaxe.Mining
