import Pickaxe.Proofs.Negotiation.Agreement
import Pickaxe.Proofs.Negotiation.Authority
import Pickaxe.Proofs.Negotiation.Walk

/-! How long trials take, and what an answer is worth in time.

A trial waits from moment to moment for the answer, and gives up at the moment of its limit if the answer is
not there by then (`Waited`). There is one end to that, and it is the one that `Trial.elapsed` and
`Trial.outcome` tell (`waited_iff`). A run spends time in trials only, so it takes what they take
(`Spends`), and it confirms and records what was accepted in time (`run_in_time`). -/
namespace Pickaxe.Negotiation

open Packet (Version)
open Server (Endpoint)

/-! ### One trial -/

/-- The answer that is there at a moment and was not before. -/
def Reply.at? (now : Duration) : Reply → Option (Except ConnectError Unit)
  | .answered after result => if after = now then some result else none
  | .silent => none

namespace Trial

/-- A trial that has waited until `now` waits until `ended` and then counts as `o`. At every moment it looks for
the answer before it looks at the limit. -/
inductive Waited (limit : Duration) (reply : Reply) (ended : Duration) (o : TrialOutcome) : Duration → Prop
  | answered {result : Except ConnectError Unit} (hthere : reply.at? ended = some result)
    (hcounts : classify result = o) : Waited limit reply ended o ended
  | expired (hnothing : reply.at? ended = none) (hlimit : limit ≤ ended) (hcounts : .unknown = o) :
    Waited limit reply ended o ended
  | passes {now : Duration} (hnothing : reply.at? now = none) (hlimit : now < limit)
    (hrest : Waited limit reply ended o (now + 1)) : Waited limit reply ended o now

variable {limit now ended : Duration} {reply : Reply} {o : TrialOutcome}

theorem elapsed_le (limit : Duration) (reply : Reply) : elapsed limit reply ≤ limit := by
  cases reply with
  | answered after result => exact Nat.min_le_right after limit
  | silent => exact Nat.le_refl limit

/-- No answer comes before the end. -/
theorem at?_of_lt (h : now < elapsed limit reply) : reply.at? now = none := by
  cases reply with
  | answered after result => exact if_neg (Nat.ne_of_gt (Nat.lt_of_lt_of_le h (Nat.min_le_left after limit)))
  | silent => rfl

/-- At the end there is an answer, which counts, or the limit. -/
theorem at_elapsed (limit : Duration) (reply : Reply) :
    (∃ result, reply.at? (elapsed limit reply) = some result ∧ classify result = outcome limit reply) ∨
      (reply.at? (elapsed limit reply) = none ∧ elapsed limit reply = limit ∧ .unknown = outcome limit reply) := by
  cases reply with
  | silent => exact .inr ⟨rfl, rfl, rfl⟩
  | answered after result =>
    by_cases hin : after ≤ limit
    · refine .inl ⟨result, if_pos (Nat.min_eq_left hin).symm, (if_pos hin).symm⟩
    · have hend : min after limit = limit := Nat.min_eq_right (Nat.le_of_not_le hin)
      have hne : after ≠ min after limit := fun heq => hin (Nat.le_of_eq (heq.trans hend))
      exact .inr ⟨if_neg hne, hend, (if_neg hin).symm⟩

theorem Waited.ends (h : Waited limit reply ended o now) (hnow : now ≤ elapsed limit reply) :
    ended = elapsed limit reply ∧ o = outcome limit reply := by
  induction h with
  | answered hthere hcounts =>
    have hend : ended = elapsed limit reply := by
      refine Nat.le_antisymm hnow (Nat.le_of_not_lt fun hlt => ?_)
      rw [at?_of_lt hlt] at hthere
      cases hthere
    refine ⟨hend, ?_⟩
    subst hend
    obtain ⟨result, hresult, hcounts'⟩ | ⟨hnothing, -⟩ := at_elapsed limit reply
    · rw [hthere, Option.some.injEq] at hresult
      rw [← hcounts, hresult, hcounts']
    · rw [hthere] at hnothing
      cases hnothing
  | expired hnothing hlimit hcounts =>
    have hend : ended = elapsed limit reply :=
      Nat.le_antisymm hnow (Nat.le_trans (elapsed_le limit reply) hlimit)
    refine ⟨hend, ?_⟩
    subst hend
    obtain ⟨result, hresult, -⟩ | ⟨-, -, hcounts'⟩ := at_elapsed limit reply
    · rw [hnothing] at hresult
      cases hresult
    · exact hcounts.symm.trans hcounts'
  | @passes now hnothing hlimit hrest ih =>
    refine ih (Nat.lt_of_le_of_ne hnow fun hend => ?_)
    subst hend
    obtain ⟨result, hresult, -⟩ | ⟨-, hend, -⟩ := at_elapsed limit reply
    · rw [hnothing] at hresult
      cases hresult
    · exact absurd hlimit (Nat.not_lt.mpr (Nat.le_of_eq hend.symm))

theorem waited_elapsed (hnow : now ≤ elapsed limit reply) :
    Waited limit reply (elapsed limit reply) (outcome limit reply) now := by
  induction hleft : elapsed limit reply - now generalizing now with
  | zero =>
    obtain rfl : now = elapsed limit reply := Nat.le_antisymm hnow (Nat.le_of_sub_eq_zero hleft)
    obtain ⟨result, hthere, hcounts⟩ | ⟨hnothing, hlimit, hcounts⟩ := at_elapsed limit reply
    · exact .answered hthere hcounts
    · exact .expired hnothing (Nat.le_of_eq hlimit.symm) hcounts
  | succ left ih =>
    have hlt : now < elapsed limit reply := Nat.lt_of_sub_eq_succ hleft
    have hrest : elapsed limit reply - (now + 1) = left := by rw [Nat.sub_add_eq, hleft, Nat.succ_sub_one]
    exact .passes (at?_of_lt hlt) (Nat.lt_of_lt_of_le hlt (elapsed_le limit reply)) (ih hlt hrest)

/-- **A trial ends once**, with the answer or at its limit, whichever is first. -/
theorem waited_iff (limit : Duration) (reply : Reply) (ended : Duration) (o : TrialOutcome) :
    Waited limit reply ended o 0 ↔ ended = elapsed limit reply ∧ o = outcome limit reply := by
  constructor
  · intro h
    exact h.ends (Nat.zero_le _)
  · rintro ⟨rfl, rfl⟩
    exact waited_elapsed (Nat.zero_le _)

/-- A success is an acceptance in time. -/
theorem outcome_eq_success_iff :
    outcome limit reply = .success ↔ ∃ after ≤ limit, reply = .answered after (.ok ()) := by
  cases reply with
  | silent => simp [outcome]
  | answered after result =>
    by_cases hin : after ≤ limit
    · cases result with
      | ok => simp [outcome, hin, classify]
      | error e => cases e <;> simp [outcome, hin, classify]
    · rw [outcome, if_neg hin]
      refine ⟨nofun, fun ⟨later, hlater, heq⟩ => ?_⟩
      cases heq
      exact absurd hlater hin

/-- What has not been answered in time is unknown. -/
theorem outcome_of_late (h : ∀ after ≤ limit, ∀ result, reply ≠ .answered after result) :
    outcome limit reply = .unknown := by
  cases reply with
  | silent => rfl
  | answered after result => exact if_neg fun hin => h after hin result rfl

/-- What a trial with this limit and this reply comes to: the time that it takes and how it counts. -/
structure InTime (limit : Duration) (reply : Reply) (time : Duration) (o : TrialOutcome) : Prop where
  ends_once : ∀ ended counted, Waited limit reply ended counted 0 ↔ ended = time ∧ counted = o
  answered : ∀ after result, reply = .answered after result → time = min after limit
  silent : reply = .silent → time = limit
  success_iff : o = .success ↔ ∃ after ≤ limit, reply = .answered after (.ok ())
  late : (∀ after ≤ limit, ∀ result, reply ≠ .answered after result) → o = .unknown

theorem inTime (limit : Duration) (reply : Reply) :
    InTime limit reply (elapsed limit reply) (outcome limit reply) where
  ends_once := waited_iff limit reply
  answered := fun after result h => by rw [h, elapsed]
  silent := fun h => by rw [h, elapsed]
  success_iff := outcome_eq_success_iff
  late := outcome_of_late

end Trial

/-! ### The trials that were heard -/

/-- The trials, and what became of each. -/
def trials : List Exchange → List (Version × Reply)
  | [] => []
  | .ping .. :: rest => trials rest
  | .connect _ version reply :: rest => (version, reply) :: trials rest

theorem map_fst_trials (heard : List Exchange) : (trials heard).map Prod.fst = tried heard := by
  induction heard with
  | nil => rfl
  | cons x rest ih =>
    cases x with
    | ping e answer => exact ih
    | connect e v reply => exact congrArg (v :: ·) ih

/-- The time that the trials take, one after another. -/
def timeIn (limit : Duration) : List (Version × Reply) → Duration
  | [] => 0
  | (_, reply) :: rest => Trial.elapsed limit reply + timeIn limit rest

theorem timeIn_le (limit : Duration) (ts : List (Version × Reply)) : timeIn limit ts ≤ ts.length * limit := by
  induction ts with
  | nil => exact Nat.zero_le _
  | cons t rest ih =>
    have hone := Trial.elapsed_le limit t.2
    rw [timeIn, List.length_cons, Nat.succ_mul, Nat.add_comm]
    exact Nat.add_le_add ih hone

variable {σ ν : Type} [Store σ]

/-- The lines that the ledger is asked for. -/
def linesOf : List Change → List Attempt
  | [] => []
  | .append a :: rest => a :: linesOf rest
  | .saveRecord _ :: rest | .deleteRecord :: rest | .clearLedger :: rest => linesOf rest

section
variable {e : Endpoint} {limit : Duration} {now : UInt64} {heard : List Exchange}
  {changes : List Change} {result : Except Error Outcome}

/-- The lines that tell of trials. -/
def told (limit : Duration) (heard : List Exchange) : List Attempt :=
  (trials heard).map fun t => ⟨t.1, Trial.outcome limit t.2⟩

theorem Walked.linesOf {left : List Version} {s : σ} (h : Walked e limit now left s heard changes result) :
    linesOf changes = told limit heard := by
  induction h with
  | exhausted | unforgotten | unwritten => rfl
  | failed v reply _ _ _ ih => exact congrArg (⟨v, Trial.outcome limit reply⟩ :: ·) ih
  | unsaved v left s reply fault hsuccess => simp [Negotiation.linesOf, told, trials, hsuccess]
  | accepted v left s reply _ hsuccess => simp [Negotiation.linesOf, told, trials, hsuccess]

theorem Discovered.linesOf {s : σ} (h : Discovered e limit now s heard changes result) :
    linesOf changes = told limit heard := by
  cases h with
  | unlisted => rfl
  | walked _ _ _ _ _ hwalk => exact hwalk.linesOf

/-- Every trial of a run is told in a line of the ledger. -/
theorem Ran.linesOf {force : Bool} {s : σ} (h : Ran e limit now force s heard changes result) :
    linesOf changes = told limit heard := by
  cases h with
  | unread | recorded | uncleared => rfl
  | unrecorded _ hrest | forced _ hrest => exact hrest.linesOf

end

namespace Controller

/-! ### Where time is spent -/

/-- Between the two nothing was asked and no time spent. -/
structure Rests (c d : Controller σ ν) : Prop where
  network : d.network = c.network
  endpoint : d.endpoint = c.endpoint
  config : d.config = c.config
  spent : d.spent = c.spent

theorem exhaust_rests (original : Version) (reported : Option Version) (tried : List Version)
    (c : Controller σ ν) : Rests c (exhaust original reported tried c).2 := by
  unfold exhaust
  cases Store.clearLedger c.store with
  | mk result s => cases result <;> exact ⟨rfl, rfl, rfl, rfl⟩

theorem confirm_rests (original : Version) (now : UInt64) (version : Version) (trials : Nat)
    (c : Controller σ ν) : Rests c (confirm original now version trials c).2 := by
  unfold confirm
  cases Store.saveRecord ⟨version, now, some c.endpoint.text⟩ c.store with
  | mk result s => cases result <;> exact ⟨rfl, rfl, rfl, rfl⟩

theorem settle_rests (original : Version) (now : UInt64) (candidate : Version) (outcome : TrialOutcome)
    (trials : Nat) (c : Controller σ ν) : Rests c (settle original now candidate outcome trials c).2 := by
  unfold settle
  cases Store.append ⟨candidate, outcome⟩ c.store with
  | mk result s =>
    cases result with
    | error fault => exact ⟨rfl, rfl, rfl, rfl⟩
    | ok =>
      by_cases hsuccess : outcome = .success
      · simp only [if_pos hsuccess]
        have hconfirm := confirm_rests original now candidate trials { c with store := s }
        exact ⟨hconfirm.network, hconfirm.endpoint, hconfirm.config, hconfirm.spent⟩
      · simp only [if_neg hsuccess]
        exact ⟨rfl, rfl, rfl, rfl⟩

theorem consult_rests (force : Bool) (c : Controller σ ν) : Rests c (consult force c).2 := by
  cases force with
  | true =>
    simp only [consult, if_true]
    cases Store.clearLedger c.store with
    | mk result s => cases result <;> exact ⟨rfl, rfl, rfl, rfl⟩
  | false =>
    simp only [consult, Bool.false_eq_true, if_false]
    cases Store.loadRecord c.store with
    | error fault => exact ⟨rfl, rfl, rfl, rfl⟩
    | ok record => cases record <;> exact ⟨rfl, rfl, rfl, rfl⟩

variable [Network ν]

/-- Between the two, versions of the list were tried in its order, and the time of these trials was spent. -/
def Spends (list : List Version) (c d : Controller σ (Watched ν)) : Prop :=
  ∃ heard, d.network.heard = c.network.heard ++ heard ∧ (tried heard).Sublist list ∧
    d.spent = c.spent + timeIn c.config.trialTimeout (trials heard)

omit [Store σ] [Network ν] in
theorem Rests.spends {c d : Controller σ (Watched ν)} (h : Rests c d) (list : List Version) :
    Spends list c d :=
  ⟨[], by rw [h.network, List.append_nil], List.nil_sublist list, h.spent⟩

theorem walk_spends (original : Version) (now : UInt64) (reported : Option Version)
    (all left : List Version) (trials : Nat) (c : Controller σ (Watched ν)) :
    Spends left c (walk original now reported all left trials c).2 := by
  induction left generalizing trials c with
  | nil => exact (exhaust_rests original reported all c).spends []
  | cons v left ih =>
    let reply := (Network.connect c.endpoint v c.network.inner).1
    have hrests := settle_rests original now v (attempt v c).1 (trials + 1) (attempt v c).2
    simp only [walk]
    cases hcase : settle original now v (attempt v c).1 (trials + 1) (attempt v c).2 with
    | mk result after =>
      rw [hcase] at hrests
      have hheard : after.network.heard = c.network.heard ++ [.connect c.endpoint v reply] :=
        congrArg Watched.heard hrests.network
      have hspent : after.spent = c.spent + Trial.elapsed c.config.trialTimeout reply := hrests.spent
      have hconfig : after.config = c.config := hrests.config
      cases result with
      | some result => exact ⟨_, hheard, .cons_cons v (List.nil_sublist left), hspent⟩
      | none =>
        obtain ⟨heard, hrest, hsub, htime⟩ := ih (trials + 1) after
        refine ⟨.connect c.endpoint v reply :: heard, ?_, .cons_cons v hsub, ?_⟩
        · rw [hrest, hheard, List.append_assoc, List.singleton_append]
        · rw [htime, hspent, hconfig, Negotiation.trials, timeIn, Nat.add_assoc]

omit [Store σ] in
theorem Rests.listed_eq {c d : Controller σ ν} (h : Rests c d) : d.listed = c.listed := by
  unfold listed reported probe
  rw [h.network, h.endpoint, h.config]

theorem discover_spends (now : UInt64) (c : Controller σ (Watched ν)) :
    Spends c.listed c (discover now c).2 := by
  let answer := (Network.ping c.endpoint c.network.inner).1
  have hload : Store.loadLedger (probe c).2.store = Store.loadLedger c.store := rfl
  simp only [discover, survey, hload]
  cases Store.loadLedger c.store with
  | error fault => exact ⟨[.ping c.endpoint answer], rfl, List.nil_sublist _, rfl⟩
  | ok ledger =>
    obtain ⟨heard, hheard, hsub, htime⟩ := walk_spends (probe c).2.active now (probe c).1 c.listed
      (c.listed.filter (· ∉ ruledOut ledger)) 0 (probe c).2
    exact ⟨.ping c.endpoint answer :: heard, hheard.trans (List.append_assoc ..),
      hsub.trans List.filter_sublist, htime⟩

theorem run_spends (force : Bool) (now : UInt64) (c : Controller σ (Watched ν)) :
    Spends c.listed c (run force now c).2 := by
  have hrests := consult_rests force c
  unfold run
  cases hcase : consult force c with
  | mk result after =>
    rw [hcase] at hrests
    cases result with
    | some result => exact hrests.spends c.listed
    | none =>
      obtain ⟨heard, hheard, hsub, htime⟩ := discover_spends now after
      rw [hrests.listed_eq] at hsub
      rw [hrests.network] at hheard
      rw [hrests.spent, hrests.config] at htime
      exact ⟨heard, hheard, hsub, htime⟩

/-- A run takes the time of the trials that are heard of it. -/
theorem run_spent (force : Bool) (now : UInt64) (c : Controller σ ν) :
    (tried (c.heard (.run force) now)).Sublist c.listed ∧
      (run force now c).2.spent = c.spent + timeIn c.config.trialTimeout (trials (c.heard (.run force) now)) := by
  obtain ⟨heard, hheard, hsub, htime⟩ := run_spends force now c.watched
  obtain ⟨-, hafter⟩ := run_alike Watched.echoes c.alike_watched
    ((Simulation.log c.store).mirrors now) force fun _ => onRecord_alike (Simulation.log c.store)
  have hall : c.heard (.run force) now = heard := hheard
  rw [hall, hafter.spent, Nat.zero_add]
  exact ⟨hsub, htime⟩

/-! ### What is confirmed -/

/-- What is confirmed is what was returned. -/
def Confirms (x : Except Error Outcome × Controller σ ν) : Prop :=
  ∀ v, x.2.stage = .confirmed v → ∃ o, x.1 = .ok o ∧ o.version = v

/-- Nothing is confirmed yet. -/
def Unconfirmed (c : Controller σ ν) : Prop := ∀ v, c.stage ≠ .confirmed v

/-- A run that is over confirms what it returned, and one that goes on has confirmed nothing. -/
def ConfirmsSoFar : Option (Except Error Outcome) × Controller σ ν → Prop
  | (some result, c) => Confirms (result, c)
  | (none, c) => c.Unconfirmed

omit [Store σ] [Network ν] in
theorem Unconfirmed.confirms {c : Controller σ ν} (h : c.Unconfirmed) (result : Except Error Outcome) :
    Confirms (result, c) := fun v hv => absurd hv (h v)

section
variable {c : Controller σ ν} (h : c.Unconfirmed)
include h

omit [Network ν] in
theorem exhaust_confirms (original : Version) (reported : Option Version) (tried : List Version) :
    Confirms (exhaust original reported tried c) := by
  unfold exhaust
  cases Store.clearLedger c.store with
  | mk result s =>
    cases result with
    | error fault => exact Unconfirmed.confirms (c := { c with store := s, active := original }) h _
    | ok =>
      intro v hv
      cases hv

omit [Network ν] in
theorem confirm_confirms (original : Version) (now : UInt64) (version : Version) (trials : Nat) :
    Confirms (confirm original now version trials c) := by
  unfold confirm
  cases Store.saveRecord ⟨version, now, some c.endpoint.text⟩ c.store with
  | mk result s =>
    cases result with
    | error fault => exact Unconfirmed.confirms (c := { c with store := s, active := original }) h _
    | ok =>
      intro v hv
      cases hv
      exact ⟨_, rfl, rfl⟩

omit [Network ν] in
theorem settle_confirms (original : Version) (now : UInt64) (candidate : Version) (outcome : TrialOutcome)
    (trials : Nat) : ConfirmsSoFar (settle original now candidate outcome trials c) := by
  unfold settle
  cases Store.append ⟨candidate, outcome⟩ c.store with
  | mk result s =>
    cases result with
    | error fault => exact Unconfirmed.confirms (c := { c with store := s, active := original }) h _
    | ok =>
      by_cases hsuccess : outcome = .success
      · simp only [if_pos hsuccess]
        exact confirm_confirms (c := { c with store := s }) h original now candidate trials
      · simp only [if_neg hsuccess]
        exact h

theorem walk_confirms (original : Version) (now : UInt64) (reported : Option Version)
    (all left : List Version) (trials : Nat) : Confirms (walk original now reported all left trials c) := by
  induction left generalizing trials c with
  | nil => exact exhaust_confirms h original reported all
  | cons v left ih =>
    have htrying : (attempt v c).2.Unconfirmed := nofun
    have hsettle := settle_confirms htrying original now v (attempt v c).1 (trials + 1)
    simp only [walk]
    cases hcase : settle original now v (attempt v c).1 (trials + 1) (attempt v c).2 with
    | mk result after =>
      rw [hcase] at hsettle
      cases result with
      | some result => exact hsettle
      | none => exact ih hsettle (trials + 1)

theorem discover_confirms (now : UInt64) : Confirms (discover now c) := by
  have hprobed : (probe c).2.Unconfirmed := h
  simp only [discover]
  cases survey (probe c).1 (probe c).2 with
  | error e => exact hprobed.confirms _
  | ok lists => exact walk_confirms hprobed c.active now _ lists.1 lists.2 0

end

omit [Network ν] in
theorem consult_confirms (force : Bool) (c : Controller σ ν) : ConfirmsSoFar (consult force c) := by
  cases force with
  | true =>
    simp only [consult, if_true]
    cases Store.clearLedger c.store with
    | mk result s =>
      cases result <;>
      · intro v hv
        cases hv
  | false =>
    simp only [consult, Bool.false_eq_true, if_false]
    cases Store.loadRecord c.store with
    | error fault =>
      intro v hv
      cases hv
    | ok record =>
      cases record with
      | none =>
        intro v hv
        cases hv
      | some r =>
        intro v hv
        cases hv
        exact ⟨_, rfl, rfl⟩

theorem run_confirms (force : Bool) (now : UInt64) (c : Controller σ ν) : Confirms (run force now c) := by
  have hconsult := consult_confirms force c
  unfold run
  cases hcase : consult force c with
  | mk result after =>
    rw [hcase] at hconsult
    cases result with
    | some result => exact hconsult
    | none => exact discover_confirms hconsult now

/-- **A run ends in time, and nothing late is a success.** Whatever the network answers and when, and whatever
the store does, for every limit and all candidates:

* each trial ends once, with the answer or at the limit, and is a success only with an acceptance by then;
* the versions that are tried are candidates, in their order, and the run takes as long as their trials take
  together, so that it ends;
* the ledger is asked for a line of each trial;
* a version that is confirmed was accepted in time, or it was on record and nothing was asked; and one that is
  put on record was accepted in time. -/
theorem run_in_time (force : Bool) (now : UInt64) (c : Controller σ ν) :
    let limit := c.config.trialTimeout
    let heard := c.heard (.run force) now
    let writes := c.writes (.run force) now
    let x := run force now c
    (∀ t ∈ trials heard, Trial.InTime limit t.2 (Trial.elapsed limit t.2) (Trial.outcome limit t.2)) ∧
    ((trials heard).map Prod.fst).Sublist c.listed ∧
    x.2.spent = c.spent + timeIn limit (trials heard) ∧
    x.2.spent ≤ c.spent + c.listed.length * limit ∧
    linesOf writes = (trials heard).map (fun t => ⟨t.1, Trial.outcome limit t.2⟩) ∧
    (∀ v, x.2.stage = .confirmed v → ∃ o, x.1 = .ok o ∧ o.version = v ∧
      ((o.source = .persisted ∧ heard = [] ∧ writes = []) ∨
        ∃ after ≤ limit, .connect c.endpoint v (.answered after (.ok ())) ∈ heard)) ∧
    ∀ r, .saveRecord r ∈ writes →
      ∃ after ≤ limit, .connect c.endpoint r.version (.answered after (.ok ())) ∈ heard := by
  intro limit heard writes x
  have hran := run_ran force now c
  obtain ⟨hsub, hspent⟩ := c.run_spent force now
  have htrials : ((trials heard).map Prod.fst).Sublist c.listed := by
    rw [map_fst_trials]
    exact hsub
  refine ⟨fun t _ => Trial.inTime limit t.2, htrials, hspent, ?_, hran.linesOf, ?_, ?_⟩
  · have hlength : (trials heard).length ≤ c.listed.length := by
      have hle := htrials.length_le
      rwa [List.length_map] at hle
    have hall : timeIn limit (trials heard) ≤ c.listed.length * limit :=
      Nat.le_trans (timeIn_le limit _) (Nat.mul_le_mul_right limit hlength)
    rw [hspent]
    exact Nat.add_le_add_left hall c.spent
  · intro v hv
    obtain ⟨o, ho, rfl⟩ := c.run_confirms force now v hv
    rw [ho] at hran
    refine ⟨o, ho, rfl, ?_⟩
    obtain hpersisted | ⟨-, earlier, reply, hlast, hsuccess⟩ := hran.returned
    · exact .inl hpersisted
    · obtain ⟨after, hin, rfl⟩ := Trial.outcome_eq_success_iff.mp hsuccess
      have hmem : .connect c.endpoint o.version (.answered after (.ok ())) ∈ heard :=
        List.mem_of_getLast? (congrArg List.getLast? hlast |>.trans List.getLast?_concat)
      exact .inr ⟨after, hin, hmem⟩
  · intro r hr
    obtain ⟨v, reply, hmem, hsuccess, rfl⟩ := hran.backed _ hr
    obtain ⟨after, hin, rfl⟩ := Trial.outcome_eq_success_iff.mp hsuccess
    exact ⟨after, hin, hmem⟩

/-- A server that hangs costs a run the limit for each candidate. -/
example :
    let hanging : Servers := ⟨fun _ => .error (.unreachable "no answer"), fun _ _ => .silent, [], []⟩
    let config : Config := { Config.standard with defaults := [767, 768] }
    (run false 0 (new MemoryStore.empty hanging ⟨"localhost", 25565⟩ 767 config)).2.spent =
      Duration.seconds 20 := by decide

end Controller

end Pickaxe.Negotiation
