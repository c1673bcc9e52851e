import Pickaxe.Proofs.Negotiation.Candidates
import Pickaxe.Proofs.Negotiation.Run
import Pickaxe.Proofs.Negotiation.Trials

/-! What a run comes to when no call of the store fails.

A run that is forced, or that finds no record, is a series of trials of the candidates that the
ledger leaves (`run_eq`). With servers that answer in a fixed way it tries exactly these, in
their order, up to the first that is accepted; it writes one line of the ledger for each trial,
and then either the record or nothing at all. -/
namespace Pickaxe.Negotiation

open Packet (Version)
open Server (Endpoint)

variable {σ ν : Type}

/-! ### The trials of a run -/

namespace Controller

section
variable [Network ν]

/-- The version that the server reports. -/
def reported (c : Controller σ ν) : Option Version := (probe c).1

/-- All versions that a run may try. -/
def listed (c : Controller σ ν) : List Version :=
  candidates c.reported c.config.defaults c.config.window

/-- The versions that a ledger leaves to try. -/
def remaining (ledger : List Attempt) (c : Controller σ ν) : List Version :=
  c.listed.filter (· ∉ ruledOut ledger)

/-- The trials of a run that finds the ledger. -/
def series (ledger : List Attempt) (c : Controller σ ν) : Series ν :=
  tryAll c.endpoint c.config.trialTimeout (c.remaining ledger) (probe c).2.network

end

/-- Whether a trial of the version would succeed. -/
def accepts (c : Controller σ Servers) (v : Version) : Bool :=
  c.network.accepts c.config.trialTimeout c.endpoint v

/-- What the ledger would say of a trial of the version. -/
def entry (c : Controller σ Servers) (v : Version) : Attempt :=
  c.network.entry c.config.trialTimeout c.endpoint v

theorem series_eq (ledger : List Attempt) (c : Controller σ Servers) :
    (c.series ledger).accepted = (c.remaining ledger).find? c.accepts ∧
      (c.series ledger).network.calls =
        c.network.calls ++ (upTo c.accepts (c.remaining ledger)).map (c.endpoint, ·) := by
  rw [series, Servers.tryAll_servers]
  exact ⟨rfl, rfl⟩

theorem series_entries (ledger : List Attempt) (c : Controller σ Servers) :
    (c.series ledger).entries = (upTo c.accepts (c.remaining ledger)).map c.entry :=
  Servers.entries_servers c.endpoint c.config.trialTimeout (c.remaining ledger) (probe c).2.network

end Controller

/-! ### What a series leaves -/

variable [Store σ]

/-- The changes that a series of trials makes to a store: its trials, and at the end a record for
the version that was accepted, or an empty ledger. -/
def Series.changes (now : UInt64) (server : String) (s : Series ν) : List Change :=
  s.entries.map .append ++
    [match s.accepted with
      | some v => .saveRecord ⟨v, now, some server⟩
      | none => .clearLedger]

/-- In memory, an accepted version is put on record below the trials; else the ledger is empty and
the record as it was. -/
theorem Series.replay_changes (now : UInt64) (server : String) (s : Series ν) (m : MemoryStore) :
    replay (s.changes now server) m =
      match s.accepted with
      | some v => ⟨some ⟨v, now, some server⟩, m.ledger ++ s.entries⟩
      | none => ⟨m.record, []⟩ := by
  rw [Series.changes, replay_append, replay_appends]
  cases s.accepted <;> rfl

namespace Controller

/-- A run at the end of its series of trials, with `trials` made before them. -/
def conclude (original : Version) (now : UInt64) (reported : Option Version) (all : List Version)
    (trials : Nat) (s : Series ν) (c : Controller σ ν) : Except Error Outcome × Controller σ ν :=
  let c := { c with
    store := replay (s.changes now c.endpoint.text) c.store
    network := s.network
    spent := c.spent + s.spent }
  match s.accepted with
  | some v =>
    (.ok ⟨v, .discovered, trials + s.entries.length⟩,
      { c with active := v, stage := .confirmed v })
  | none =>
    (.error (.exhausted c.endpoint.text reported all),
      { c with active := original, stage := .exhausted })

theorem conclude_store (original : Version) (now : UInt64) (reported : Option Version)
    (all : List Version) (trials : Nat) (s : Series ν) (c : Controller σ ν) :
    (conclude original now reported all trials s c).2.store =
      replay (s.changes now c.endpoint.text) c.store := by
  unfold conclude
  cases s.accepted <;> rfl

theorem conclude_accepted (original : Version) (now : UInt64) (reported : Option Version)
    (all : List Version) (trials : Nat) {s : Series ν} (c : Controller σ ν) {v : Version}
    (hs : s.accepted = some v) :
    let r := conclude original now reported all trials s c
    r.1 = .ok ⟨v, .discovered, trials + s.entries.length⟩ ∧ r.2.stage = .confirmed v ∧
      r.2.active = v := by
  simp [conclude, hs]

theorem conclude_exhausted (original : Version) (now : UInt64) (reported : Option Version)
    (all : List Version) (trials : Nat) {s : Series ν} (c : Controller σ ν)
    (hs : s.accepted = none) :
    let r := conclude original now reported all trials s c
    r.1 = .error (.exhausted c.endpoint.text reported all) ∧ r.2.stage = .exhausted ∧
      r.2.active = original := by
  simp [conclude, hs]

/-- A failed trial before a series is a line of the ledger and nothing else. -/
theorem conclude_after (original : Version) (now : UInt64) (reported : Option Version)
    (all : List Version) (trials : Nat) (a : Attempt) (time : Duration) (s : Series ν)
    (c : Controller σ ν) :
    conclude original now reported all trials (s.after a time) c =
      conclude original now reported all (trials + 1) s
        { c with store := replay [.append a] c.store, spent := c.spent + time } := by
  have hentries : (s.after a time).entries = a :: s.entries := rfl
  have hspent : c.spent + (s.after a time).spent = c.spent + time + s.spent :=
    (Nat.add_assoc ..).symm
  have htrials : trials + (s.after a time).entries.length = trials + 1 + s.entries.length := by
    rw [hentries, List.length_cons]
    omega
  simp only [conclude, hspent, htrials]
  rfl

/-! ### Each part of a run -/

section
variable {holds : σ → MemoryStore → Prop} (h : Simulation holds) {m : MemoryStore}
include h

theorem exhaust_eq (original : Version) (reported : Option Version) (tried : List Version)
    (c : Controller σ ν) (hm : holds c.store m) :
    exhaust original reported tried c =
      (.error (.exhausted c.endpoint.text reported tried),
        { c with
          store := replay [.clearLedger] c.store
          active := original
          stage := .exhausted }) := by
  obtain ⟨s', hs, -⟩ := h.succeeds .clearLedger hm
  have hs' : Store.clearLedger c.store = (.ok (), s') := hs
  simp only [exhaust, replay, hs, hs']

theorem confirm_eq (original : Version) (now : UInt64) (version : Version) (trials : Nat)
    (c : Controller σ ν) (hm : holds c.store m) :
    confirm original now version trials c =
      (.ok ⟨version, .discovered, trials⟩,
        { c with
          store := replay [.saveRecord ⟨version, now, some c.endpoint.text⟩] c.store
          stage := .confirmed version }) := by
  obtain ⟨s', hs, -⟩ := h.succeeds (.saveRecord ⟨version, now, some c.endpoint.text⟩) hm
  have hs' : Store.saveRecord ⟨version, now, some c.endpoint.text⟩ c.store = (.ok (), s') := hs
  simp only [confirm, replay, hs, hs']

/-- A trial that failed leads on to the next. -/
theorem settle_failure (original : Version) (now : UInt64) (candidate : Version)
    {outcome : TrialOutcome} (ho : outcome ≠ .success) (trials : Nat) (c : Controller σ ν)
    (hm : holds c.store m) :
    settle original now candidate outcome trials c =
      (none, { c with store := replay [.append ⟨candidate, outcome⟩] c.store }) := by
  obtain ⟨s', hs, -⟩ := h.succeeds (.append ⟨candidate, outcome⟩) hm
  have hs' : Store.append ⟨candidate, outcome⟩ c.store = (.ok (), s') := hs
  simp only [settle, replay, hs, hs', if_neg ho]

/-- A trial that succeeded ends the run. -/
theorem settle_success (original : Version) (now : UInt64) (candidate : Version) (trials : Nat)
    (c : Controller σ ν) (hm : holds c.store m) :
    settle original now candidate .success trials c =
      (some (.ok ⟨candidate, .discovered, trials⟩),
        { c with
          store := replay [.append ⟨candidate, .success⟩,
            .saveRecord ⟨candidate, now, some c.endpoint.text⟩] c.store
          stage := .confirmed candidate }) := by
  obtain ⟨s', hs, hm'⟩ := h.succeeds (.append ⟨candidate, .success⟩) hm
  have hs' : Store.append ⟨candidate, .success⟩ c.store = (.ok (), s') := hs
  have hconfirm := confirm_eq h original now candidate trials { c with store := s' } hm'
  simp only [settle, hs', if_true, hconfirm, replay, hs]

/-- A run that is forced starts from an empty ledger, whatever the record says. -/
theorem consult_forced (c : Controller σ ν) (hm : holds c.store m) :
    consult true c =
      (none, { c with store := replay [.clearLedger] c.store, stage := .probing }) := by
  obtain ⟨s', hs, -⟩ := h.succeeds .clearLedger hm
  have hs' : Store.clearLedger c.store = (.ok (), s') := hs
  simp only [consult, if_true, replay, hs, hs']

theorem consult_without_record (c : Controller σ ν) (hm : holds c.store m) (hr : m.record = none) :
    consult false c = (none, { c with stage := .probing }) := by
  have hload : Store.loadRecord c.store = .ok none := by
    rw [h.loadRecord _ _ hm, ← hr]
    rfl
  simp only [consult, Bool.false_eq_true, if_false, hload]

theorem survey_eq (reported : Option Version) (c : Controller σ ν) (hm : holds c.store m) :
    survey reported c =
      .ok (candidates reported c.config.defaults c.config.window,
        (candidates reported c.config.defaults c.config.window).filter
          (· ∉ ruledOut m.ledger)) := by
  have hload : Store.loadLedger c.store = .ok m.ledger := h.loadLedger _ _ hm
  simp only [survey, hload]

variable [Network ν]

/-- A walk is a series of trials. -/
theorem walk_eq (original : Version) (now : UInt64) (reported : Option Version)
    (all left : List Version) (trials : Nat) (c : Controller σ ν) (hm : holds c.store m) :
    walk original now reported all left trials c =
      conclude original now reported all trials
        (tryAll c.endpoint c.config.trialTimeout left c.network) c := by
  induction left generalizing trials c m with
  | nil =>
    rw [walk, exhaust_eq h original reported all c hm]
    rfl
  | cons v left ih =>
    by_cases hsuccess :
        Trial.outcome c.config.trialTimeout (Network.connect c.endpoint v c.network).1 = .success
    · have hattempt : (attempt v c).1 = .success := hsuccess
      have hsettle := settle_success h original now v (trials + 1) (attempt v c).2 hm
      simp only [walk, hattempt, hsettle, tryAll, hsuccess, if_true]
      rfl
    · have hattempt : (attempt v c).1 ≠ .success := hsuccess
      have hsettle := settle_failure h original now v hattempt (trials + 1) (attempt v c).2 hm
      have hrest := ih (trials + 1)
        { (attempt v c).2 with store := replay [.append ⟨v, (attempt v c).1⟩] c.store }
        (h.replay [.append ⟨v, (attempt v c).1⟩] hm)
      simp only [walk, hsettle]
      rw [tryAll]
      simp only [if_neg hsuccess, conclude_after]
      exact hrest

theorem discover_eq (now : UInt64) (c : Controller σ ν) (hm : holds c.store m) :
    discover now c =
      conclude c.active now c.reported c.listed 0 (c.series m.ledger) (probe c).2 := by
  have hsurvey := survey_eq h (probe c).1 (probe c).2 hm
  simp only [discover, hsurvey]
  exact walk_eq h _ now _ _ _ 0 (probe c).2 hm

/-- **A run that is forced or finds no record is a series of trials** of the candidates that the
ledger leaves, and a forced run finds an empty ledger. -/
theorem run_eq (force : Bool) (now : UInt64) (c : Controller σ ν) (hm : holds c.store m)
    (hrun : force = true ∨ m.record = none) :
    run force now c =
      conclude c.active now c.reported c.listed 0 (c.series (if force then [] else m.ledger))
        { c with store := replay (if force then [.clearLedger] else []) c.store } := by
  cases force with
  | true =>
    have hm' : holds (replay [.clearLedger] c.store) { m with ledger := [] } :=
      h.replay [.clearLedger] hm
    rw [run, consult_forced h c hm]
    exact discover_eq h now { c with store := replay [.clearLedger] c.store, stage := .probing } hm'
  | false =>
    have hr : m.record = none := by simpa using hrun
    rw [run, consult_without_record h c hm hr]
    exact discover_eq h now { c with stage := .probing } hm

/-- The changes of such a run are those of its series, after the clearing if it is forced. -/
theorem changes_eq (force : Bool) (now : UInt64) (c : Controller σ ν) (hm : holds c.store m)
    (hrun : force = true ∨ m.record = none) :
    changes force now c =
      (if force then [.clearLedger] else []) ++
        (c.series (if force then [] else m.ledger)).changes now c.endpoint.text := by
  have hlogged := run_eq h.logged force now (c.onto (⟨c.store, []⟩ : Logged σ)) hm hrun
  rw [changes, hlogged, conclude_store]
  simp only [onto, Logged.replay_eq, List.nil_append]
  rfl

/-- Such a run leaves an accepted version on record below the trials, or else an empty ledger and
the record as it was. -/
theorem run_leaves (force : Bool) (now : UInt64) (c : Controller σ ν) (hm : holds c.store m)
    (hrun : force = true ∨ m.record = none) :
    let ledger := if force then [] else m.ledger
    holds (run force now c).2.store
      (match (c.series ledger).accepted with
        | some v =>
          ⟨some ⟨v, now, some c.endpoint.text⟩, ledger ++ (c.series ledger).entries⟩
        | none => ⟨m.record, []⟩) := by
  intro ledger
  let cleared : List Change := if force then [.clearLedger] else []
  have hcleared : replay cleared m = { m with ledger := ledger } := by
    cases force <;> rfl
  have hafter := h.replay ((c.series ledger).changes now c.endpoint.text) (h.replay cleared hm)
  rw [hcleared, Series.replay_changes] at hafter
  rw [run_eq h force now c hm hrun, conclude_store]
  exact hafter

/-- A run that is not forced takes the version on record, and does nothing else. -/
theorem run_recorded (now : UInt64) (c : Controller σ ν) (hm : holds c.store m) {r : Record}
    (hr : m.record = some r) :
    run false now c =
      (.ok ⟨r.version, .persisted, 0⟩,
        { c with active := r.version, stage := .confirmed r.version }) := by
  have hload : Store.loadRecord c.store = .ok (some r) := by
    rw [h.loadRecord _ _ hm, ← hr]
    rfl
  exact run_of_loadRecord now c hload

theorem changes_recorded (now : UInt64) (c : Controller σ ν) (hm : holds c.store m) {r : Record}
    (hr : m.record = some r) : changes false now c = [] := by
  rw [changes, run_recorded h.logged now (c.onto (⟨c.store, []⟩ : Logged σ)) hm hr]
  rfl

end

/-! ### Servers that answer in a fixed way -/

section
variable {holds : σ → MemoryStore → Prop} (h : Simulation holds) {m : MemoryStore}
  (c : Controller σ Servers) (hm : holds c.store m) (force : Bool) (now : UInt64)
  (hrun : force = true ∨ m.record = none)
include h hm hrun

theorem changes_servers :
    let rest := c.remaining (if force then [] else m.ledger)
    changes force now c =
      (if force then [.clearLedger] else []) ++
        (upTo c.accepts rest).map (fun v => .append (c.entry v)) ++
        [match rest.find? c.accepts with
          | some v => .saveRecord ⟨v, now, some c.endpoint.text⟩
          | none => .clearLedger] := by
  intro rest
  have hchanges := changes_eq h force now c hm hrun
  rw [Series.changes, c.series_entries, (c.series_eq _).1, List.map_map, ← List.append_assoc]
    at hchanges
  exact hchanges

/-- The run ends with the first version that is accepted. -/
theorem run_accepted {v : Version}
    (hv : (c.remaining (if force then [] else m.ledger)).find? c.accepts = some v) :
    let ledger := if force then [] else m.ledger
    let tried := upTo c.accepts (c.remaining ledger)
    let r := run force now c
    r.1 = .ok ⟨v, .discovered, tried.length⟩ ∧ r.2.stage = .confirmed v ∧ r.2.active = v ∧
      holds r.2.store ⟨some ⟨v, now, some c.endpoint.text⟩, ledger ++ tried.map c.entry⟩ := by
  intro ledger tried r
  have haccepted : (c.series ledger).accepted = some v := (c.series_eq ledger).1.trans hv
  have htrials : 0 + (c.series ledger).entries.length = tried.length := by
    rw [c.series_entries ledger, List.length_map, Nat.zero_add]
  have hleaves := run_leaves h force now c hm hrun
  simp only [show (c.series (if force then [] else m.ledger)).accepted = some v from haccepted,
    c.series_entries] at hleaves
  obtain ⟨hresult, hstage, hactive⟩ := conclude_accepted c.active now c.reported c.listed 0
    { c with store := replay (if force then [.clearLedger] else []) c.store } haccepted
  rw [← run_eq h force now c hm hrun] at hresult hstage hactive
  rw [htrials] at hresult
  exact ⟨hresult, hstage, hactive, hleaves⟩

/-- Without one it gives up, and leaves what it found. -/
theorem run_refused
    (hnone : (c.remaining (if force then [] else m.ledger)).find? c.accepts = none) :
    let r := run force now c
    r.1 = .error (.exhausted c.endpoint.text c.reported c.listed) ∧ r.2.stage = .exhausted ∧
      r.2.active = c.active ∧ holds r.2.store ⟨m.record, []⟩ := by
  intro r
  have hrefused : (c.series (if force then [] else m.ledger)).accepted = none :=
    (c.series_eq _).1.trans hnone
  have hleaves := run_leaves h force now c hm hrun
  simp only [hrefused] at hleaves
  obtain ⟨hresult, hstage, hactive⟩ := conclude_exhausted c.active now c.reported c.listed 0
    { c with store := replay (if force then [.clearLedger] else []) c.store } hrefused
  rw [← run_eq h force now c hm hrun] at hresult hstage hactive
  exact ⟨hresult, hstage, hactive, hleaves⟩

end

end Controller

end Pickaxe.Negotiation
