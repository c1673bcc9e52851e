import Mathlib.Data.List.Perm.Subperm
import Pickaxe.Proofs.Play.History
import Pickaxe.Proofs.Play.Starts

/-! What a session does for its events.

For each teleport and each death it sends one answer (`answers_eq`), whether that gets through or not. For
each chat line that is a command it starts this command, and if mining starts by itself it starts one more
for the first join, however often the game is joined (`started_eq`). Every command activates mining once at
the most (`nodup_activators`). `events_handled` puts these together with the order of the events. -/
namespace Pickaxe.World

/-- Whether it answers an event. -/
def Action.isAnswer : Action → Bool
  | .confirmTeleport _ | .respawn => true
  | .chat _ | .swing | .dig .. => false

/-- The teleport that it confirms. -/
def Action.confirmed? : Action → Option Int32
  | .confirmTeleport id => some id
  | .chat _ | .swing | .dig .. | .respawn => none

namespace Event

/-- The answer that it asks for. -/
def answer? : Event → Option Action
  | .teleport _ id => some (.confirmTeleport id)
  | .death _ => some .respawn
  | .joined _ | .chat _ | .health .. | .disconnected _ => none

/-- The teleport that it tells of. -/
def teleport? : Event → Option Int32
  | .teleport _ id => some id
  | .joined _ | .chat _ | .health .. | .death _ | .disconnected _ => none

def isDeath : Event → Bool
  | .death _ => true
  | .joined _ | .chat _ | .teleport .. | .health .. | .disconnected _ => false

def isJoin : Event → Bool
  | .joined _ => true
  | .chat _ | .teleport .. | .health .. | .death _ | .disconnected _ => false

end Event

end Pickaxe.World

namespace Pickaxe.Mining

def Move.isActivate : Move → Bool
  | .activate .. => true
  | .requestStop | .release | .turn .. => false

end Pickaxe.Mining

namespace Pickaxe.Play

open World (Action ActionKind Event)

/-! ### What events order -/

namespace Settings

/-- The command that an event starts, `auto` saying whether a join still does. -/
def order? (settings : Settings) (auto : Bool) : Event → Option (List Op)
  | .joined _ => if auto then some (.settle settings.worldLoad :: settings.startOps) else none
  | .chat line => (Command.classify line).map (·.ops settings)
  | .teleport .. | .health .. | .death _ | .disconnected _ => none

/-- The commands that events start: one for each chat line that is a command, and if mining starts by
itself, one for the first join. -/
def orders (settings : Settings) : (auto : Bool) → List Event → List (List Op)
  | _, [] => []
  | auto, e :: rest => (settings.order? auto e).toList ++ settings.orders (auto && !e.isJoin) rest

end Settings

/-! ### What moves start and send -/

namespace Move

/-- The commands that it starts. -/
def started (x : Move) (s : Session) : List (List Op) :=
  ((x.perform s).tasks.drop s.tasks.length).map (·.left)

/-- The command that it starts for a join, by its place among the commands. -/
def joiner? (x : Move) (s : Session) : Option Nat := match x.handled? s with
  | some (.joined _) => if x.started s = [] then none else some s.tasks.length
  | _ => none

/-- The command that starts mining by it, by its place among the commands. -/
def activator? : Move → Session → Option Nat
  | .turn _ (.command index), s => if s.op? index = some .startMining then some index else none
  | .turn _ .loop, _ | .turn _ (.miner _), _ | .deliver _, _ | .endStream, _ | .trigger _, _
  | .pass _, _ | .loaded .., _ => none

end Move

namespace Session

/-- The actions that are sent, whether they get through or not. -/
def sentIn (history : List (Move × Session)) : List Action :=
  history.flatMap fun p => (p.1.sent? p.2).toList

theorem sentIn_cons (x : Move) (s : Session) (rest : List (Move × Session)) :
    sentIn ((x, s) :: rest) = (x.sent? s).toList ++ sentIn rest := rfl

/-- The actions that get through, each past the kinds that fail when it is sent. -/
def arrivedIn (history : List (Move × Session)) : List Action :=
  history.flatMap fun p => (p.1.sent? p.2).toList.filter (·.kind ∉ p.2.site.sink.failing)

/-- The commands that are started. -/
def startedIn (history : List (Move × Session)) : List (List Op) :=
  history.flatMap fun p => p.1.started p.2

/-- The commands that are started for a join, by their places. -/
def joinersIn (history : List (Move × Session)) : List Nat :=
  history.flatMap fun p => (p.1.joiner? p.2).toList

/-- The commands that start mining, by their places. -/
def activatorsIn (history : List (Move × Session)) : List Nat :=
  history.flatMap fun p => (p.1.activator? p.2).toList

variable {s : Session}

/-- **The server gets what gets through**, in the order in which it is sent. -/
theorem sent_runUnder (moves : List (List ActionKind × Move)) (s : Session) :
    (runUnder moves s).site.sink.sent.map Prod.snd =
      s.site.sink.sent.map Prod.snd ++ arrivedIn (history moves s) := by
  induction moves generalizing s with
  | nil => exact (List.append_nil _).symm
  | cons step rest ih =>
    obtain ⟨failing, x⟩ := step
    rw [runUnder, ih, x.perform_sent, history, arrivedIn, arrivedIn, List.flatMap_cons, List.append_assoc]
    rfl

/-! ### Answers -/

/-- The miners have no answers to send. -/
def Dutiful (s : Session) : Prop := ∀ t ∈ s.site.machine.tasks, ∀ a ∈ t.stage.left, a.isAnswer = false

theorem isAnswer_of_mem_actions (config : Mining.Config) (p : Mining.Plan) :
    ∀ a ∈ p.actions config, a.isAnswer = false := by
  intro a ha
  simp only [Mining.Plan.actions, List.mem_append, Option.mem_toList, Option.map_eq_some_iff] at ha
  rcases ha with ((hswing | ⟨b, -, rfl⟩) | ⟨b, -, rfl⟩) | hbroke
  · split at hswing <;> simp_all [Action.isAnswer]
  · rfl
  · rfl
  · split at hbroke <;> simp_all [Action.isAnswer]

theorem Dutiful.perform (h : s.Dutiful) (x : Move) : (x.perform s).Dutiful := by
  rw [Dutiful, x.perform_machine]
  exact Mining.Machine.forall_left_run (fun p => isAnswer_of_mem_actions _ p) h _

/-- Only the loop sends answers. -/
theorem Dutiful.isAnswer_of_sent? (h : s.Dutiful) {x : Move} (hx : ∀ moment, x ≠ .turn moment .loop)
    {a : Action} (hsent : x.sent? s = some a) : a.isAnswer = false := by
  cases x with
  | turn moment agent =>
    cases agent with
    | loop => exact absurd rfl (hx moment)
    | command index =>
      obtain ⟨op, -, hop⟩ := Option.bind_eq_some_iff.mp hsent
      cases op <;> cases hop <;> rfl
    | miner runner =>
      obtain ⟨t, ht, ha⟩ := Mining.Machine.mem_left_of_step hsent
      exact h t ht a ha
  | deliver | endStream | trigger | pass | loaded => cases hsent

theorem handle_answer? (e : Event) {s : Session} (h : s.stage = .listening) :
    (s.handle e).answer? = e.answer? := by
  cases e with
  | joined =>
    rw [handle]
    split <;> rw [answer?] <;> simp [spawn, h, Event.answer?]
  | chat line =>
    rw [handle]
    split <;> rw [answer?] <;> simp [spawn, h, Event.answer?]
  | teleport | death => rfl
  | health | disconnected => simp [handle, answer?, trigger, h, Event.answer?]

/-- The loop has an answer to send exactly behind an event that asks for it. -/
theorem loopStep_answer? (s : Session) : s.loopStep.answer? = s.handled?.bind Event.answer? := by
  generalize hafter : s.loopStep = after
  cases heard_of_loopStep hafter with
  | @handled e rest hhandled =>
    rw [handle_answer? e rfl, hhandled]
    rfl
  | unheard hnone _ hanswer =>
    rw [hnone, hanswer]
    rfl

theorem filter_answer? (e : Option Event) :
    (e.bind Event.answer?).toList.filter Action.isAnswer = (e.bind Event.answer?).toList := by
  cases e with
  | none => rfl
  | some e => cases e <;> rfl

/-- What a move sends and has the loop answer is what the loop had to answer and what the event asks
for. -/
theorem Dutiful.answers_perform (h : s.Dutiful) (x : Move) :
    ((x.sent? s).toList ++ (x.perform s).answer?.toList).filter Action.isAnswer =
      s.answer?.toList.filter Action.isAnswer ++ ((x.handled? s).bind Event.answer?).toList := by
  rw [List.filter_append]
  rcases x.loop_or with ⟨moment, rfl⟩ | hother
  · change _ ++ List.filter _ (s.since moment).loopStep.answer?.toList = _
    rw [loopStep_answer?, filter_answer?]
    rfl
  · have hsame : (x.perform s).answer? = s.answer? := by
      rw [answer?, Move.perform_stage hother, answer?]
    have hsent : (x.sent? s).toList.filter Action.isAnswer = [] := by
      cases hsent : x.sent? s with
      | none => rfl
      | some a => simp [h.isAnswer_of_sent? hother hsent]
    rw [hsame, Move.handled?_of_ne hother, hsent, List.nil_append]
    exact (List.append_nil _).symm

/-- **Every answer is sent once, in the order of the events**, the last of them perhaps on its way. -/
theorem Dutiful.answers_eq (h : s.Dutiful) (moves : List (List ActionKind × Move)) :
    (sentIn (history moves s) ++ (runUnder moves s).answer?.toList).filter Action.isAnswer =
      s.answer?.toList.filter Action.isAnswer ++ (handledIn (history moves s)).filterMap Event.answer? := by
  induction moves generalizing s with
  | nil => exact (List.append_nil _).symm
  | cons step rest ih =>
    obtain ⟨failing, x⟩ := step
    have hunder : (s.under failing).Dutiful := h
    have hstep := hunder.answers_perform x
    have hhead : (x.handled? (s.under failing)).toList.filterMap Event.answer? =
        ((x.handled? (s.under failing)).bind Event.answer?).toList := by
      cases x.handled? (s.under failing) with
      | none => rfl
      | some e => cases hanswer : e.answer? <;> simp [hanswer]
    rw [history, sentIn_cons, handledIn_cons, runUnder, List.filterMap_append, hhead, List.append_assoc,
      List.filter_append, ih (hunder.perform x), ← List.append_assoc, ← List.filter_append, hstep]
    exact List.append_assoc ..

/-- The confirmations are found among the answers. -/
theorem filterMap_confirmed? (actions : List Action) :
    actions.filterMap Action.confirmed? =
      (actions.filter Action.isAnswer).filterMap Action.confirmed? := by
  rw [List.filterMap_filter]
  exact congrArg (List.filterMap · actions) (funext fun a => by cases a <;> rfl)

theorem filterMap_teleport? (events : List Event) :
    (events.filterMap Event.answer?).filterMap Action.confirmed? = events.filterMap Event.teleport? := by
  rw [List.filterMap_filterMap]
  exact congrArg (List.filterMap · events) (funext fun e => by cases e <;> rfl)

theorem count_respawn (events : List Event) :
    (events.filterMap Event.answer?).count .respawn = events.countP Event.isDeath := by
  induction events with
  | nil => rfl
  | cons e rest ih => cases e <;> simp [List.filterMap_cons, List.countP_cons, Event.answer?, Event.isDeath, ih]

/-! ### Commands -/

/-- Whether the next join starts mining. -/
def awaits (s : Session) : Bool := s.settings.autoMine && !s.autoStarted

theorem ordered?_eq (e : Event) (s : Session) : s.ordered? e = s.settings.order? s.awaits e := by
  cases e <;> rfl

theorem handle_awaits (e : Event) (s : Session) : (s.handle e).awaits = (s.awaits && !e.isJoin) := by
  cases e with
  | joined =>
    rw [handle]
    split
    · simp [awaits, spawn, Event.isJoin]
    · simp_all [awaits, Event.isJoin]
  | chat line =>
    rw [handle]
    split <;> simp [awaits, spawn, Event.isJoin]
  | teleport | health | death | disconnected => simp [awaits, handle, answer, trigger, Event.isJoin]

end Session

/-- What an event orders is taken up at the end of the commands. -/
inductive Tasked (x : Move) (s : Session) : List Task → Prop where
  | appended (now : Instant) :
    Tasked x s (s.tasks ++ ((x.handled? s).bind s.ordered?).toList.map (Task.mk now))
  /-- A command has done an op, or has been cut off. -/
  | advanced {index : Nat} {t after : Task} (hnone : x.handled? s = none)
      (htask : s.tasks[index]? = some t) (hleft : after.left = [] ∨ after.left = t.left.tail) :
      Tasked x s (s.tasks.set index after)
  | dropped (hnone : x.handled? s = none) (hdeaf : (x.perform s).Deaf) : Tasked x s []

namespace Move

variable {x : Move} {s : Session}

theorem tasked_of_eq (hnone : x.handled? s = none) (h : (x.perform s).tasks = s.tasks) :
    Tasked x s (x.perform s).tasks := by
  have happended := Tasked.appended (x := x) (s := s) 0
  rw [hnone, Option.bind_none, Option.toList_none, List.map_nil, List.append_nil] at happended
  rwa [h]

theorem tasked (x : Move) (s : Session) : Tasked x s (x.perform s).tasks := by
  cases x with
  | deliver e =>
    obtain ⟨events, hframe⟩ := s.deliver_frame e
    exact tasked_of_eq rfl (by rw [perform, hframe])
  | endStream | trigger | pass => exact tasked_of_eq rfl rfl
  | loaded moment index =>
    by_cases hloaded : ∃ since d left, s.tasks[index]? = some ⟨since, .settle d :: left⟩
    · obtain ⟨since, d, left, htask⟩ := hloaded
      have hperform : (perform (.loaded moment index) s).tasks = s.tasks.set index ⟨moment, left⟩ := by
        rw [perform, Session.loaded, show (s.since moment).tasks[index]? = _ from htask]
        rfl
      rw [hperform]
      exact .advanced rfl htask (.inr rfl)
    · refine tasked_of_eq rfl ?_
      rw [perform, Session.loaded]
      split
      · exact absurd ⟨_, _, _, ‹_›⟩ hloaded
      · rfl
  | turn moment agent =>
    cases agent with
    | miner => exact tasked_of_eq rfl rfl
    | command index =>
      generalize hafter : (s.since moment).commandStep index = after
      have hperform : perform (.turn moment (.command index)) s = after := hafter
      cases Session.commanded_of_commandStep hafter with
      | absent => exact tasked_of_eq rfl (by rw [hperform]; rfl)
      | @performed t op htask =>
        have htasks : (perform (.turn moment (.command index)) s).tasks =
            s.tasks.set index (Session.Task.rest s.shutdown moment t) := by
          rw [hperform]
          cases op <;> rfl
        rw [htasks]
        exact .advanced rfl htask (Session.Task.left_rest s.shutdown moment t)
    | loop =>
      generalize hafter : (s.since moment).loopStep = after
      have hperform : perform (.turn moment .loop) s = after := hafter
      cases Session.heard_of_loopStep hafter with
      | @handled e rest hhandled =>
        have happended := Tasked.appended (x := .turn moment .loop) (s := s) (s.since moment).site.now
        rw [show handled? (.turn moment .loop) s = some e from hhandled] at happended
        rw [hperform, Session.handle_tasks, Option.toList_map]
        exact happended
      | unheard hnone _ _ _ htasks =>
        rcases htasks with hsame | ⟨hnil, e, hstage⟩
        · exact tasked_of_eq hnone (by rw [hperform]; exact hsame)
        · have hdropped := Tasked.dropped (x := .turn moment .loop) hnone
            (hperform ▸ .ending (e := e) (by rw [hstage]; rfl))
          rwa [hperform, hnil]

/-- A move starts the command that its event orders, and no other. -/
theorem started_eq_order? (x : Move) (s : Session) :
    x.started s = ((x.handled? s).bind (s.settings.order? s.awaits)).toList := by
  have horder : (x.handled? s).bind s.ordered? = (x.handled? s).bind (s.settings.order? s.awaits) :=
    congrArg _ (funext fun e => Session.ordered?_eq e s)
  have htasked := x.tasked s
  rw [started, ← horder]
  generalize (x.perform s).tasks = after at htasked ⊢
  cases htasked with
  | appended now =>
    rw [List.drop_left, List.map_map]
    exact List.map_id _
  | advanced hnone =>
    rw [hnone, List.drop_of_length_le (Nat.le_of_eq List.length_set)]
    rfl
  | dropped hnone =>
    rw [hnone, List.drop_nil]
    rfl

theorem perform_awaits (x : Move) (s : Session) :
    (x.perform s).awaits = (s.awaits && !(x.handled? s).any Event.isJoin) := by
  rcases x.loop_or with ⟨moment, rfl⟩ | hother
  · change (s.since moment).loopStep.awaits =
      ((s.since moment).awaits && !(s.since moment).handled?.any Event.isJoin)
    have hsettings := (s.since moment).loopStep_settings
    generalize hafter : (s.since moment).loopStep = after at hsettings ⊢
    cases Session.heard_of_loopStep hafter with
    | handled hhandled =>
      rw [hhandled]
      exact Session.handle_awaits ..
    | unheard hnone _ _ hstarted =>
      rw [hnone, Session.awaits, Session.awaits, hsettings, hstarted]
      exact (Bool.and_true _).symm
  · obtain ⟨site, shutdown, tasks, streamEnded, hframe⟩ := perform_frame hother s
    rw [handled?_of_ne hother, hframe]
    exact (Bool.and_true _).symm

end Move

namespace Session

variable {s : Session}

theorem startedIn_cons (x : Move) (s : Session) (rest : List (Move × Session)) :
    startedIn ((x, s) :: rest) = x.started s ++ startedIn rest := rfl

/-- **The commands that are started are those that the events order**, one for each order. -/
theorem started_eq (moves : List (List ActionKind × Move)) (s : Session) :
    startedIn (history moves s) = s.settings.orders s.awaits (handledIn (history moves s)) := by
  induction moves generalizing s with
  | nil => rfl
  | cons step rest ih =>
    obtain ⟨failing, x⟩ := step
    rw [history, startedIn_cons, handledIn_cons, ih, x.started_eq_order?, x.perform_settings, x.perform_awaits]
    cases x.handled? (s.under failing) with
    | none =>
      rw [Option.any_none, Bool.not_false, Bool.and_true]
      rfl
    | some e => rfl

/-- **Mining is started for one join at the most.** -/
theorem length_joiners_le (moves : List (List ActionKind × Move)) (s : Session) :
    (joinersIn (history moves s)).length ≤ s.awaits.toNat := by
  induction moves generalizing s with
  | nil => exact Nat.zero_le _
  | cons step rest ih =>
    obtain ⟨failing, x⟩ := step
    have hrest := ih (x.perform (s.under failing))
    have hstep : (x.joiner? (s.under failing)).toList.length +
        (x.perform (s.under failing)).awaits.toNat ≤ s.awaits.toNat := by
      change _ ≤ (s.under failing).awaits.toNat
      rw [x.perform_awaits, Move.joiner?, x.started_eq_order?]
      cases x.handled? (s.under failing) with
      | none => simp
      | some e =>
        cases e with
        | joined => cases (s.under failing).awaits <;> simp [Settings.order?, Event.isJoin]
        | chat | teleport | health | death | disconnected => simp [Event.isJoin]
    rw [history, joinersIn, List.flatMap_cons, List.length_append]
    exact Nat.le_trans (Nat.add_le_add_left hrest _) hstep

/-! ### Activations -/

theorem exists_of_activator? {x : Move} {index : Nat} (h : x.activator? s = some index) :
    ∃ moment t left, x = .turn moment (.command index) ∧ s.tasks[index]? = some t ∧
      t.left = .startMining :: left := by
  cases x with
  | turn moment agent =>
    cases agent with
    | command other =>
      rw [Move.activator?] at h
      split at h
      · rename_i hop
        cases h
        obtain ⟨t, htask, hhead⟩ := Option.bind_eq_some_iff.mp hop
        obtain ⟨left, hleft⟩ := List.head?_eq_some_iff.mp hhead
        exact ⟨moment, t, left, rfl, htask, hleft⟩
      · cases h
    | loop | miner => cases h
  | deliver | endStream | trigger | pass | loaded => cases h

/-- The commands were dropped, and no event starts another. -/
theorem Deaf.activatorsIn_eq (h : s.Deaf) (htasks : s.tasks = []) (moves : List (List ActionKind × Move)) :
    activatorsIn (history moves s) = [] := by
  induction moves generalizing s with
  | nil => rfl
  | cons step rest ih =>
    obtain ⟨failing, x⟩ := step
    have hunder := h.under failing
    have hnone : x.activator? (s.under failing) = none := by
      cases hactivator : x.activator? (s.under failing) with
      | none => rfl
      | some index =>
        obtain ⟨-, t, -, -, htask, -⟩ := exists_of_activator? hactivator
        rw [show (s.under failing).tasks = [] from htasks] at htask
        cases htask
    have hafter : (x.perform (s.under failing)).tasks = [] := by
      refine List.eq_nil_iff_forall_not_mem.mpr fun t ht => ?_
      rcases Move.mem_tasks_perform ht with hold | ⟨e, hhandled, -⟩ | ⟨u, hu, -⟩
      · exact List.not_mem_nil (htasks ▸ hold)
      · rw [x.handled?_eq_none hunder.stage_ne] at hhandled
        cases hhandled
      · exact List.not_mem_nil (htasks ▸ hu)
    rw [history, activatorsIn, List.flatMap_cons, hnone]
    exact ih (hunder.perform x) hafter

/-- A command that starts mining is behind its only start then. -/
theorem startMining_not_mem {settings : Settings} {t : Task} (h : t.Ordered settings) {left : List Op}
    (hleft : t.left = .startMining :: left) : .startMining ∉ left := by
  obtain ⟨line, hannounce | hstart | ⟨d, hsettle⟩⟩ := h.cases_of_starts (by rw [Task.starts, hleft]; rfl)
  · cases hleft.symm.trans hannounce
  · cases hleft.symm.trans hstart
    simp
  · cases hleft.symm.trans hsettle

/-- A start that a command has left after a move was left before it, unless the commands are dropped. -/
theorem startMining_mem_of_perform {x : Move} {index : Nat} {t : Task} (htask : s.tasks[index]? = some t)
    (h : ∀ u, (x.perform s).tasks[index]? = some u → .startMining ∈ u.left) :
    .startMining ∈ t.left ∨ (x.perform s).tasks = [] ∧ (x.perform s).Deaf := by
  have htasked := x.tasked s
  generalize (x.perform s).tasks = after at htasked h ⊢
  cases htasked with
  | appended =>
    have hindex := (List.getElem?_eq_some_iff.mp htask).1
    exact .inl (h t ((List.getElem?_append_left hindex).trans htask))
  | @advanced other u done _ hu hleft =>
    refine .inl ?_
    by_cases hother : index = other
    · subst hother
      obtain rfl : u = t := Option.some.inj (hu.symm.trans htask)
      have hdone := h done (List.getElem?_set_self (List.getElem?_eq_some_iff.mp hu).1)
      rcases hleft with hnil | htail
      · rw [hnil] at hdone
        cases hdone
      · rw [htail] at hdone
        exact List.mem_of_mem_tail hdone
    · exact h t ((List.getElem?_set_ne (Ne.symm hother)).trans htask)
  | dropped _ hdeaf => exact .inr ⟨rfl, hdeaf⟩

/-- **Every command starts mining once at the most**, and only one that has the start left. -/
theorem nodup_activators (h : ∀ t ∈ s.tasks, t.Ordered s.settings)
    (moves : List (List ActionKind × Move)) : (activatorsIn (history moves s)).Nodup ∧
      ∀ index ∈ activatorsIn (history moves s), ∀ t, s.tasks[index]? = some t →
        .startMining ∈ t.left := by
  -- The induction needs the second part: a command that has started mining has no start left.
  induction moves generalizing s with
  | nil => exact ⟨List.nodup_nil, List.forall_mem_nil _⟩
  | cons step rest ih =>
    obtain ⟨failing, x⟩ := step
    have hordered : ∀ t ∈ (s.under failing).tasks, t.Ordered (s.under failing).settings := h
    obtain ⟨hnodup, hrest⟩ := ih (run_ordered [x] hordered)
    rw [run, run] at hnodup hrest
    have hkept : ∀ index ∈ activatorsIn (history rest (x.perform (s.under failing))),
        ∀ t, s.tasks[index]? = some t → .startMining ∈ t.left := by
      intro index hindex t htask
      have hbefore : (s.under failing).tasks[index]? = some t := htask
      rcases startMining_mem_of_perform hbefore (hrest index hindex) with hmem | ⟨hnil, hdeaf⟩
      · exact hmem
      · rw [hdeaf.activatorsIn_eq hnil rest] at hindex
        cases hindex
    rw [history, activatorsIn, List.flatMap_cons]
    cases hactivator : x.activator? (s.under failing) with
    | none => exact ⟨hnodup, hkept⟩
    | some index =>
      obtain ⟨moment, t, left, rfl, htask, hleft⟩ := exists_of_activator? hactivator
      have hdone := commandStep_startMining (s := (s.under failing).since moment) htask hleft
      have hnot := startMining_not_mem (h t (List.mem_of_getElem? htask)) hleft
      refine ⟨List.nodup_cons.mpr ⟨fun hagain => hnot (hrest index hagain _ hdone), hnodup⟩,
        List.forall_mem_cons.mpr ⟨fun u hu => ?_, hkept⟩⟩
      obtain rfl : t = u := Option.some.inj (htask.symm.trans hu)
      rw [hleft]
      exact List.mem_cons_self

theorem any_isActivate (x : Move) (s : Session) :
    (x.machineMoves s).any Mining.Move.isActivate = (x.activator? s).isSome := by
  cases x with
  | turn moment agent =>
    cases agent with
    | command index =>
      rw [Move.machineMoves, Move.activator?]
      cases hop : s.op? index with
      | none => rfl
      | some op => cases op <;> simp [opMoves, Mining.Move.isActivate]
    | loop =>
      change s.dismissal.any _ = false
      rw [dismissal]
      split <;> rfl
    | miner => rfl
  | deliver | endStream | trigger | pass | loaded => rfl

/-- Mining is activated by the commands that start it. -/
theorem countP_activate (history : List (Move × Session)) :
    history.countP (fun p => (p.1.machineMoves p.2).any Mining.Move.isActivate) =
      (activatorsIn history).length := by
  induction history with
  | nil => rfl
  | cons p rest ih =>
    obtain ⟨x, s⟩ := p
    rw [List.countP_cons, ih, any_isActivate, activatorsIn, activatorsIn, List.flatMap_cons,
      List.length_append, Nat.add_comm]
    cases x.activator? s <;> rfl

/-! ### A whole session -/

/-- **Every event of a session is handled once.** Whatever moves a new session makes, and whatever fails
to get through during each of them:

* The events that were handled are the first of those that were handed over, in their order; while the
  session is not closed, the others wait. None is handled after a disconnection.
* The teleports that were confirmed, with the one whose confirmation is on its way, are those of the events
  that were handled, in their order, each once. There are as many respawns as deaths.
* What was sent has reached the server in this order, but for the kinds that failed at the time.
* Each chat line that is a command has started this command, the first join has started the delayed
  start if mining starts by itself, and no other event has started anything.
* Of the commands that activated mining, each did so once, and at most one was started by a join. -/
theorem events_handled (settings : Settings) (sink : Sink) (interrupt : Option Instant)
    (moves : List (List ActionKind × Move)) :
    let s := new settings sink interrupt
    let after := runUnder moves s
    let history := history moves s
    let delivered := moves.filterMap (·.2.delivered?)
    let handled := handledIn history
    let attempted := sentIn history ++ after.answer?.toList
    (handled <+: delivered ∧ (after.isClosed = false → handled ++ after.events = delivered) ∧
      ∀ before reason later, handled = before ++ .disconnected reason :: later → later = []) ∧
    attempted.filterMap Action.confirmed? = handled.filterMap Event.teleport? ∧
    attempted.count .respawn = handled.countP Event.isDeath ∧
    after.site.sink.sent.map Prod.snd = sink.sent.map Prod.snd ++ arrivedIn history ∧
    startedIn history = settings.orders settings.autoMine handled ∧
    (history.countP (fun p => (p.1.machineMoves p.2).any Mining.Move.isActivate) =
        (activatorsIn history).length ∧ (activatorsIn history).Nodup ∧
      ((activatorsIn history).filter (· ∈ joinersIn history)).length ≤ 1) := by
  intro s after history delivered handled attempted
  have hdutiful : s.Dutiful := List.forall_mem_nil _
  have hanswers : attempted.filter Action.isAnswer = handled.filterMap Event.answer? :=
    hdutiful.answers_eq moves
  obtain ⟨late, hevents, hlate⟩ := handled_eq moves s
  have hdelivered : handled ++ after.events ++ late = delivered :=
    hevents.trans (List.filterMap_eq_flatMap_toList ..).symm
  obtain ⟨hnodup, -⟩ := nodup_activators (s := s) (List.forall_mem_nil _) moves
  have hjoiners : (joinersIn history).length ≤ 1 :=
    Nat.le_trans (length_joiners_le moves s) (Bool.toNat_le _)
  refine ⟨⟨?_, fun hopen => ?_, fun before reason later h => handled_disconnected h⟩, ?_, ?_,
    sent_runUnder moves s, ?_, countP_activate history, hnodup, ?_⟩
  · rw [← hdelivered, List.append_assoc]
    exact List.prefix_append ..
  · rw [← hdelivered, hlate hopen, List.append_nil]
  · rw [filterMap_confirmed?, hanswers, filterMap_teleport?]
  · rw [← List.count_filter (p := Action.isAnswer) rfl, hanswers, count_respawn]
  · exact (started_eq moves s).trans (congrArg (fun auto => settings.orders auto handled) (Bool.and_true _))
  · have hsubset : (activatorsIn history).filter (· ∈ joinersIn history) ⊆ joinersIn history :=
      fun index hindex => of_decide_eq_true (List.mem_filter.mp hindex).2
    exact Nat.le_trans (List.subperm_of_subset (hnodup.filter _) hsubset).length_le hjoiners

/-- A respawn that does not get through is an answer all the same. -/
example (settings : Settings) :
    let moves := [([], .deliver (.death "fell")), ([], .turn 0 .loop), ([], .turn 0 .loop),
      ([.respawn], .turn 0 .loop)]
    sentIn (history moves (new settings (.new 0 []) none)) = [.respawn] ∧
      (runUnder moves (new settings (.new 0 []) none)).site.sink.sent = [] := ⟨rfl, rfl⟩

end Session

end Pickaxe.Play
