import Pickaxe.Negotiation.Controller
import Pickaxe.Proofs.Negotiation.Store

/-! Controllers that cannot be told apart by what they do.

Two controllers are alike if they have the same server and settings and their stores and networks
answer alike (`Mirrors`, `Echoes`); their clocks need not agree, and the stamps of the records that
they save then differ. Whatever two such controllers are asked to do, they do the same, and are
alike afterwards (`run_alike`, `clean_alike`). -/
namespace Pickaxe.Negotiation

open Packet (Version)
open Server (Endpoint)

variable {α σ τ ν μ : Type}

/-- The same answer, and states in a relation. -/
def Agree (rel : σ → τ → Prop) (x : α × σ) (y : α × τ) : Prop := x.1 = y.1 ∧ rel x.2 y.2

theorem Agree.split {rel : σ → τ → Prop} {x : α × σ} {y : α × τ} (h : Agree rel x y) :
    ∃ a s t, x = (a, s) ∧ y = (a, t) ∧ rel s t :=
  ⟨x.1, x.2, y.2, rfl, Prod.ext h.1.symm rfl, h.2⟩

/-! ### Stores and networks -/

/-- Stores that answer alike but for stamps: one is used at `now`, the other at `now'`. -/
structure Mirrors [Store σ] [Store τ] (now now' : UInt64) (stores : σ → τ → Prop) : Prop where
  loadLedger : ∀ s t, stores s t → Store.loadLedger s = Store.loadLedger t
  saveRecord : ∀ version server s t, stores s t →
    Agree stores (Store.saveRecord ⟨version, now, server⟩ s)
      (Store.saveRecord ⟨version, now', server⟩ t)
  deleteRecord : ∀ s t, stores s t → Agree stores (Store.deleteRecord s) (Store.deleteRecord t)
  append : ∀ a s t, stores s t → Agree stores (Store.append a s) (Store.append a t)
  clearLedger : ∀ s t, stores s t → Agree stores (Store.clearLedger s) (Store.clearLedger t)

theorem Simulation.mirrors [Store σ] [Store τ] {stores : σ → τ → Prop} (h : Simulation stores)
    (now : UInt64) : Mirrors now now stores where
  loadLedger := h.loadLedger
  saveRecord := fun version server => h.change (.saveRecord ⟨version, now, server⟩)
  deleteRecord := h.change .deleteRecord
  append := fun a => h.change (.append a)
  clearLedger := h.change .clearLedger

/-- Stores that write their changes down answer alike if they do without. -/
theorem Mirrors.logged [Store σ] [Store τ] {now now' : UInt64} {stores : σ → τ → Prop}
    (h : Mirrors now now' stores) :
    Mirrors now now' fun (s : Logged σ) (t : Logged τ) => stores s.inner t.inner where
  loadLedger := fun _ _ hst => h.loadLedger _ _ hst
  saveRecord := fun version server _ _ hst => h.saveRecord version server _ _ hst
  deleteRecord := fun _ _ hst => h.deleteRecord _ _ hst
  append := fun a _ _ hst => h.append a _ _ hst
  clearLedger := fun _ _ hst => h.clearLedger _ _ hst

/-- Stores on one schedule of faults, at the same call of it. -/
structure Faulty.Abreast (stores : σ → τ → Prop) (s : Faulty σ) (t : Faulty τ) : Prop where
  inner : stores s.inner t.inner
  fault : s.fault = t.fault
  asked : s.asked = t.asked

namespace Faulty.Abreast

variable {stores : σ → τ → Prop} {s : Faulty σ} {t : Faulty τ} (h : Abreast stores s t)
include h

theorem load (call : StoreCall) {f : σ → Except StoreError α} {g : τ → Except StoreError α}
    (hfg : f s.inner = g t.inner) : Faulty.load call f s = Faulty.load call g t := by
  unfold Faulty.load
  rw [h.fault, h.asked, hfg]

theorem change (call : StoreCall) {f : σ → Except StoreError Unit × σ}
    {g : τ → Except StoreError Unit × τ} (hfg : Agree stores (f s.inner) (g t.inner)) :
    Agree (Abreast stores) (Faulty.change call f s) (Faulty.change call g t) := by
  unfold Faulty.change
  rw [h.fault, h.asked]
  cases t.fault t.asked call with
  | some e => exact ⟨rfl, h.inner, rfl, rfl⟩
  | none => exact ⟨hfg.1, hfg.2, rfl, rfl⟩

end Faulty.Abreast

/-- Stores that answer alike do so on a schedule of faults. -/
theorem Mirrors.faulty [Store σ] [Store τ] {now now' : UInt64} {stores : σ → τ → Prop}
    (h : Mirrors now now' stores) : Mirrors now now' (Faulty.Abreast stores) where
  loadLedger := fun _ _ hst => hst.load .loadLedger (h.loadLedger _ _ hst.inner)
  saveRecord := fun version server _ _ hst =>
    hst.change .saveRecord (h.saveRecord version server _ _ hst.inner)
  deleteRecord := fun _ _ hst => hst.change .deleteRecord (h.deleteRecord _ _ hst.inner)
  append := fun a _ _ hst => hst.change .append (h.append a _ _ hst.inner)
  clearLedger := fun _ _ hst => hst.change .clearLedger (h.clearLedger _ _ hst.inner)

/-- Networks that answer alike. -/
structure Echoes [Network ν] [Network μ] (networks : ν → μ → Prop) : Prop where
  ping : ∀ e n m, networks n m → Agree networks (Network.ping e n) (Network.ping e m)
  connect : ∀ e v n m, networks n m → Agree networks (Network.connect e v n) (Network.connect e v m)

theorem Echoes.refl [Network ν] : Echoes (fun n m : ν => n = m) where
  ping := fun _ _ _ h => ⟨by rw [h], by rw [h]⟩
  connect := fun _ _ _ _ h => ⟨by rw [h], by rw [h]⟩

/-! ### Controllers -/

namespace Controller

/-- The version on record. -/
def onRecord [Store σ] (s : σ) : Except StoreError (Option Version) :=
  (Store.loadRecord s).map (Option.map Record.version)

theorem onRecord_alike [Store σ] [Store τ] {stores : σ → τ → Prop} (h : Simulation stores) (s : σ)
    (t : τ) (hst : stores s t) : onRecord s = onRecord t :=
  congrArg (Except.map (Option.map Record.version)) (h.loadRecord s t hst)

theorem onRecord_abreast [Store σ] [Store τ] {stores : σ → τ → Prop}
    (hreads : ∀ s t, stores s t → onRecord s = onRecord t) (s : Faulty σ) (t : Faulty τ)
    (hst : Faulty.Abreast stores s t) : onRecord s = onRecord t := by
  have hload := hst.load .loadRecord (hreads _ _ hst.inner)
  unfold Faulty.load at hload
  simp only [onRecord, Store.loadRecord, Faulty.load]
  rw [hst.fault, hst.asked] at hload ⊢
  cases hfault : t.fault t.asked .loadRecord with
  | some e => rfl
  | none =>
    rw [hfault] at hload
    exact hload

/-- Two controllers for one server that differ in nothing that shows. The first has spent `earlier`
more time in trials than the second. -/
structure Alike (e : Endpoint) (config : Config) (earlier : Duration) (stores : σ → τ → Prop)
    (networks : ν → μ → Prop) (c : Controller σ ν) (d : Controller τ μ) : Prop where
  store : stores c.store d.store
  network : networks c.network d.network
  endpoint : c.endpoint = e ∧ d.endpoint = e
  active : c.active = d.active
  config : c.config = config ∧ d.config = config
  stage : c.stage = d.stage
  spent : c.spent = earlier + d.spent

variable [Store σ] [Store τ] {e : Endpoint} {config : Config} {earlier : Duration}
  {stores : σ → τ → Prop} {networks : ν → μ → Prop} {now now' : UInt64}
  {c : Controller σ ν} {d : Controller τ μ}

section
variable (h : Mirrors now now' stores) (hc : Alike e config earlier stores networks c d)
include h hc

theorem exhaust_alike (original : Version) (reported : Option Version) (tried : List Version) :
    Agree (Alike e config earlier stores networks) (exhaust original reported tried c)
      (exhaust original reported tried d) := by
  obtain ⟨result, s, t, hs, ht, hst⟩ := (h.clearLedger _ _ hc.store).split
  unfold exhaust
  rw [hs, ht]
  cases result with
  | error fault => exact ⟨rfl, { hc with store := hst, active := rfl }⟩
  | ok => exact ⟨by simp [hc.endpoint], { hc with store := hst, active := rfl, stage := rfl }⟩

theorem confirm_alike (original version : Version) (trials : Nat) :
    Agree (Alike e config earlier stores networks) (confirm original now version trials c)
      (confirm original now' version trials d) := by
  obtain ⟨result, s, t, hs, ht, hst⟩ :=
    (h.saveRecord version (some e.text) _ _ hc.store).split
  have hs' : Store.saveRecord ⟨version, now, some c.endpoint.text⟩ c.store = (result, s) := by
    rw [hc.endpoint.1, hs]
  have ht' : Store.saveRecord ⟨version, now', some d.endpoint.text⟩ d.store = (result, t) := by
    rw [hc.endpoint.2, ht]
  unfold confirm
  rw [hs', ht']
  cases result with
  | error fault => exact ⟨rfl, { hc with store := hst, active := rfl }⟩
  | ok => exact ⟨rfl, { hc with store := hst, stage := rfl }⟩

theorem settle_alike (original candidate : Version) (outcome : TrialOutcome) (trials : Nat) :
    Agree (Alike e config earlier stores networks)
      (settle original now candidate outcome trials c)
      (settle original now' candidate outcome trials d) := by
  obtain ⟨result, s, t, hs, ht, hst⟩ := (h.append ⟨candidate, outcome⟩ _ _ hc.store).split
  unfold settle
  rw [hs, ht]
  cases result with
  | error fault => exact ⟨rfl, { hc with store := hst, active := rfl }⟩
  | ok =>
    have hc' : Alike e config earlier stores networks { c with store := s } { d with store := t } :=
      { hc with store := hst }
    by_cases hsuccess : outcome = .success
    · simp only [if_pos hsuccess]
      obtain ⟨hresult, hafter⟩ := confirm_alike h hc' original candidate trials
      exact ⟨congrArg some hresult, hafter⟩
    · simp only [if_neg hsuccess]
      exact ⟨rfl, hc'⟩

theorem survey_alike (reported : Option Version) : survey reported c = survey reported d := by
  unfold survey
  rw [hc.config.1, hc.config.2, h.loadLedger _ _ hc.store]

omit h hc in
/-- A forced run does not mind what its store holds before it clears the ledger. -/
theorem consult_forced_alike
    (hc : Alike e config earlier
      (fun s t => Agree stores (Store.clearLedger s) (Store.clearLedger t)) networks c d) :
    Agree (Alike e config earlier stores networks) (consult true c) (consult true d) := by
  obtain ⟨result, s, t, hs, ht, hst⟩ := hc.store.split
  simp only [consult, if_true, hs, ht]
  cases result with
  | error fault => exact ⟨rfl, { hc with store := hst, stage := rfl }⟩
  | ok => exact ⟨rfl, { hc with store := hst, stage := rfl }⟩

theorem consult_alike (force : Bool)
    (hreads : force = false → ∀ s t, stores s t → onRecord s = onRecord t) :
    Agree (Alike e config earlier stores networks) (consult force c) (consult force d) := by
  cases force with
  | true => exact consult_forced_alike { hc with store := h.clearLedger _ _ hc.store }
  | false =>
    have hread := hreads rfl _ _ hc.store
    simp only [consult, Bool.false_eq_true, if_false]
    cases hs : Store.loadRecord c.store with
    | error fault =>
      cases ht : Store.loadRecord d.store with
      | error fault' =>
        rw [onRecord, onRecord, hs, ht] at hread
        cases hread
        exact ⟨rfl, { hc with stage := rfl }⟩
      | ok record' =>
        rw [onRecord, onRecord, hs, ht] at hread
        cases hread
    | ok record =>
      cases ht : Store.loadRecord d.store with
      | error fault' =>
        rw [onRecord, onRecord, hs, ht] at hread
        cases hread
      | ok record' =>
        rw [onRecord, onRecord, hs, ht] at hread
        have hversions : record.map Record.version = record'.map Record.version :=
          Except.ok.inj hread
        cases record with
        | none =>
          cases record' with
          | none => exact ⟨rfl, { hc with stage := rfl }⟩
          | some r' => cases hversions
        | some r =>
          cases record' with
          | none => cases hversions
          | some r' =>
            have hversion : r.version = r'.version := Option.some.inj hversions
            exact ⟨by simp [shortCircuit, hversion],
              { hc with active := hversion, stage := congrArg Stage.confirmed hversion }⟩

theorem clean_alike :
    Agree (Alike e config earlier stores networks) (clean c) (clean d) := by
  obtain ⟨result, s, t, hs, ht, hst⟩ := (h.deleteRecord _ _ hc.store).split
  unfold clean
  rw [hs, ht]
  cases result with
  | error fault => exact ⟨rfl, { hc with store := hst }⟩
  | ok =>
    obtain ⟨result, s', t', hs', ht', hst'⟩ := (h.clearLedger _ _ hst).split
    simp only [hs', ht']
    cases result with
    | error fault => exact ⟨rfl, { hc with store := hst' }⟩
    | ok => exact ⟨rfl, { hc with store := hst', active := rfl, stage := rfl }⟩

end

variable [Network ν] [Network μ] (hn : Echoes networks)
  (hc : Alike e config earlier stores networks c d)
include hn hc

omit [Store σ] [Store τ] in
theorem probe_alike :
    Agree (Alike e config earlier stores networks) (probe c) (probe d) := by
  obtain ⟨answer, n, m, hn', hm', hnm⟩ := (hn.ping e _ _ hc.network).split
  have hn' : Network.ping c.endpoint c.network = (answer, n) := by rw [hc.endpoint.1, hn']
  have hm' : Network.ping d.endpoint d.network = (answer, m) := by rw [hc.endpoint.2, hm']
  unfold probe
  rw [hn', hm']
  exact ⟨rfl, { hc with network := hnm }⟩

omit [Store σ] [Store τ] in
theorem attempt_alike (candidate : Version) :
    Agree (Alike e config earlier stores networks) (attempt candidate c) (attempt candidate d) := by
  obtain ⟨reply, n, m, hn', hm', hnm⟩ := (hn.connect e candidate _ _ hc.network).split
  have hn' : Network.connect c.endpoint candidate c.network = (reply, n) := by
    rw [hc.endpoint.1, hn']
  have hm' : Network.connect d.endpoint candidate d.network = (reply, m) := by
    rw [hc.endpoint.2, hm']
  have hlimit : c.config.trialTimeout = d.config.trialTimeout := by rw [hc.config.1, hc.config.2]
  unfold attempt afterTrial
  rw [hn', hm', hlimit]
  refine ⟨rfl, { hc with network := hnm, active := rfl, stage := rfl, spent := ?_ }⟩
  show c.spent + _ = earlier + (d.spent + _)
  rw [hc.spent, Nat.add_assoc]

variable (h : Mirrors now now' stores)
include h

theorem walk_alike (original : Version) (reported : Option Version) (all left : List Version)
    (trials : Nat) :
    Agree (Alike e config earlier stores networks)
      (walk original now reported all left trials c)
      (walk original now' reported all left trials d) := by
  induction left generalizing trials c d with
  | nil => exact exhaust_alike h hc original reported all
  | cons v left ih =>
    obtain ⟨outcome, c', d', hc', hd', hafter⟩ := (attempt_alike hn hc v).split
    obtain ⟨result, c'', d'', hc'', hd'', hsettled⟩ :=
      (settle_alike h hafter original v outcome (trials + 1)).split
    simp only [walk, hc', hd', hc'', hd'']
    cases result with
    | some result => exact ⟨rfl, hsettled⟩
    | none => exact ih hsettled (trials + 1)

theorem discover_alike :
    Agree (Alike e config earlier stores networks) (discover now c) (discover now' d) := by
  obtain ⟨reported, c', d', hc', hd', hprobed⟩ := (probe_alike hn hc).split
  simp only [discover, hc', hd', survey_alike h hprobed reported]
  cases survey reported d' with
  | error fault => exact ⟨rfl, hprobed⟩
  | ok lists =>
    simp only [hprobed.active]
    exact walk_alike hn hprobed h _ reported lists.1 lists.2 0

omit hc in
/-- Forced runs are alike if the stores are once their ledgers are cleared. -/
theorem run_forced_alike
    (hc : Alike e config earlier
      (fun s t => Agree stores (Store.clearLedger s) (Store.clearLedger t)) networks c d) :
    Agree (Alike e config earlier stores networks) (run true now c) (run true now' d) := by
  obtain ⟨result, c', d', hc', hd', hconsulted⟩ := (consult_forced_alike hc).split
  unfold run
  rw [hc', hd']
  cases result with
  | some result => exact ⟨rfl, hconsulted⟩
  | none => exact discover_alike hn hconsulted h

/-- **Runs of controllers that are alike are alike**, at whatever times they are made. One that is
forced does not look at the record. -/
theorem run_alike (force : Bool)
    (hreads : force = false → ∀ s t, stores s t → onRecord s = onRecord t) :
    Agree (Alike e config earlier stores networks) (run force now c) (run force now' d) := by
  obtain ⟨result, c', d', hc', hd', hconsulted⟩ := (consult_alike h hc force hreads).split
  unfold run
  rw [hc', hd']
  cases result with
  | some result => exact ⟨rfl, hconsulted⟩
  | none => exact discover_alike hn hconsulted h

end Controller

end Pickaxe.Negotiation
