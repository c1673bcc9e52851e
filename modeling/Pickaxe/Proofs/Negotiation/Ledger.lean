import Pickaxe.Proofs.Negotiation.Walk

/-! What the ledger has to do with the run that writes it and with the run that reads it, whatever
the store does.

A run writes down the answers of its own server and nothing else (`changes_told`). It gives up on
the word of two witnesses: the server refuses the versions that were left to try, and the ledger
rules out the others (`run_exhausted`). The ledger does not say whose answers it holds. -/
namespace Pickaxe.Negotiation

open Packet (Version)
open Server (Endpoint)

variable {σ : Type} [Store σ]

/-! ### Writing -/

/-- Every change that a run may make keeps the property, trials being as `entry` tells them. -/
structure Keeps (entry : Version → Attempt) (P : σ → Prop) : Prop where
  append : ∀ v s, P s → P (Store.append (entry v) s).2
  saveRecord : ∀ r s, P s → P (Store.saveRecord r s).2
  clearLedger : ∀ s, P s → P (Store.clearLedger s).2

/-- A change as a run with these trials makes it. -/
def Told (entry : Version → Attempt) : Change → Prop
  | .append a => a = entry a.candidate
  | .saveRecord _ | .clearLedger => True
  | .deleteRecord => False

theorem told_entry {entry : Version → Attempt} (h : ∀ v, (entry v).candidate = v) (v : Version) :
    Told entry (.append (entry v)) := by
  show entry v = entry (entry v).candidate
  rw [h v]

/-- What is written down of a run is what it may do. -/
theorem Logged.keeps {entry : Version → Attempt} (h : ∀ v, (entry v).candidate = v) :
    Keeps entry (fun s : Logged σ => ∀ change ∈ s.changes, Told entry change) := by
  have hmake : ∀ (change : Change) (s : Logged σ), Told entry change →
      (∀ other ∈ s.changes, Told entry other) →
      ∀ other ∈ (Logged.make change s).2.changes, Told entry other := by
    intro change s htold hs other hother
    rcases List.mem_append.mp hother with hother | hother
    · exact hs other hother
    · rw [List.mem_singleton.mp hother]
      exact htold
  exact ⟨fun v s => hmake (.append (entry v)) s (told_entry h v),
    fun r s => hmake (.saveRecord r) s trivial, fun s => hmake .clearLedger s trivial⟩

section
variable {entry : Version → Attempt} {P : Attempt → Prop} (hentry : ∀ v, P (entry v))
include hentry

theorem told_change {change : Change} (htold : Told entry change) {m : MemoryStore}
    (hm : ∀ a ∈ m.ledger, P a) : ∀ a ∈ (change.apply m).2.ledger, P a := by
  cases change with
  | append new =>
    intro a ha
    rcases List.mem_append.mp ha with ha | ha
    · exact hm a ha
    · rw [List.mem_singleton.mp ha, htold]
      exact hentry new.candidate
  | saveRecord r => exact hm
  | clearLedger => exact fun _ ha => nomatch ha
  | deleteRecord => exact htold.elim

/-- What holds of each trial that may be made holds of the ledger, whichever calls fail. -/
theorem told_replay (changes : List Change) (htold : ∀ change ∈ changes, Told entry change)
    (s : Faulty MemoryStore) (hs : ∀ a ∈ s.inner.ledger, P a) :
    ∀ a ∈ (replay changes s).inner.ledger, P a := by
  induction changes generalizing s with
  | nil => exact hs
  | cons change rest ih =>
    refine ih (fun other hother => htold other (List.mem_cons_of_mem change hother)) _ ?_
    rcases Faulty.apply_inner change s with hsame | hmade
    · rw [hsame]
      exact hs
    · rw [hmade]
      exact told_change hentry (htold change (List.mem_cons_self ..)) hs

end

namespace Controller

section
variable {P : σ → Prop} {entry : Version → Attempt} (h : Keeps entry P)
include h

theorem exhaust_keeps {ν : Type} (original : Version) (reported : Option Version)
    (tried : List Version) (c : Controller σ ν) (hc : P c.store) :
    P (exhaust original reported tried c).2.store := by
  have hkept := h.clearLedger c.store hc
  unfold exhaust
  cases hclear : Store.clearLedger c.store with
  | mk result s' =>
    rw [hclear] at hkept
    cases result <;> exact hkept

theorem confirm_keeps {ν : Type} (original : Version) (now : UInt64) (version : Version)
    (trials : Nat) (c : Controller σ ν) (hc : P c.store) :
    P (confirm original now version trials c).2.store := by
  have hkept := h.saveRecord ⟨version, now, some c.endpoint.text⟩ c.store hc
  unfold confirm
  cases hsave : Store.saveRecord ⟨version, now, some c.endpoint.text⟩ c.store with
  | mk result s' =>
    rw [hsave] at hkept
    cases result <;> exact hkept

theorem settle_keeps {ν : Type} (original : Version) (now : UInt64) (candidate : Version)
    (outcome : TrialOutcome) (ho : ⟨candidate, outcome⟩ = entry candidate) (trials : Nat)
    (c : Controller σ ν) (hc : P c.store) :
    P (settle original now candidate outcome trials c).2.store := by
  have hkept := h.append candidate c.store hc
  rw [← ho] at hkept
  unfold settle
  cases happend : Store.append ⟨candidate, outcome⟩ c.store with
  | mk result s' =>
    rw [happend] at hkept
    cases result with
    | error fault => exact hkept
    | ok =>
      by_cases hsuccess : outcome = .success
      · simp only [if_pos hsuccess]
        exact confirm_keeps h original now candidate trials { c with store := s' } hkept
      · simp only [if_neg hsuccess]
        exact hkept

theorem consult_keeps {ν : Type} (force : Bool) (c : Controller σ ν) (hc : P c.store) :
    P (consult force c).2.store := by
  cases force with
  | true =>
    have hkept := h.clearLedger c.store hc
    simp only [consult, if_true]
    cases hclear : Store.clearLedger c.store with
    | mk result s' =>
      rw [hclear] at hkept
      cases result <;> exact hkept
  | false =>
    simp only [consult, Bool.false_eq_true, if_false]
    cases Store.loadRecord c.store with
    | error fault => exact hc
    | ok record => cases record <;> exact hc

end

/-- A trial leaves the server and the terms of the run alone. -/
theorem settle_entry (original : Version) (now : UInt64) (candidate : Version)
    (outcome : TrialOutcome) (trials : Nat) (c : Controller σ Servers) :
    (settle original now candidate outcome trials c).2.entry = c.entry := by
  unfold settle confirm
  cases Store.append ⟨candidate, outcome⟩ c.store with
  | mk result s' =>
    cases result with
    | error fault => rfl
    | ok =>
      by_cases hsuccess : outcome = .success
      · simp only [if_pos hsuccess]
        cases Store.saveRecord ⟨candidate, now, some c.endpoint.text⟩ s' with
        | mk result s'' => cases result <;> rfl
      · simp only [if_neg hsuccess]
        rfl

theorem consult_entry (force : Bool) (c : Controller σ Servers) :
    (consult force c).2.entry = c.entry := by
  cases force with
  | true =>
    simp only [consult, if_true]
    cases Store.clearLedger c.store with
    | mk result s' => cases result <;> rfl
  | false =>
    simp only [consult, Bool.false_eq_true, if_false]
    cases Store.loadRecord c.store with
    | error fault => rfl
    | ok record => cases record <;> rfl

section
variable {P : σ → Prop}

theorem walk_keeps (original : Version) (now : UInt64) (reported : Option Version)
    (all left : List Version) (trials : Nat) (c : Controller σ Servers) (h : Keeps c.entry P)
    (hc : P c.store) : P (walk original now reported all left trials c).2.store := by
  induction left generalizing trials c with
  | nil => exact exhaust_keeps h original reported all c hc
  | cons v left ih =>
    have hkept := settle_keeps h original now v (attempt v c).1 rfl (trials + 1) (attempt v c).2 hc
    have hentry := settle_entry original now v (attempt v c).1 (trials + 1) (attempt v c).2
    simp only [walk]
    cases hsettle : settle original now v (attempt v c).1 (trials + 1) (attempt v c).2 with
    | mk result c' =>
      rw [hsettle] at hkept hentry
      cases result with
      | some result => exact hkept
      | none =>
        have h' : Keeps c'.entry P := by
          rw [show c'.entry = c.entry from hentry]
          exact h
        exact ih (trials + 1) c' h' hkept

theorem discover_keeps (now : UInt64) (c : Controller σ Servers) (h : Keeps c.entry P)
    (hc : P c.store) : P (discover now c).2.store := by
  simp only [discover]
  cases survey (probe c).1 (probe c).2 with
  | error e => exact hc
  | ok lists => exact walk_keeps c.active now _ lists.1 lists.2 0 (probe c).2 h hc

/-- What every change of a run keeps, a run keeps. -/
theorem run_keeps (force : Bool) (now : UInt64) (c : Controller σ Servers) (h : Keeps c.entry P)
    (hc : P c.store) : P (run force now c).2.store := by
  have hkept := consult_keeps h force c hc
  have hentry := consult_entry force c
  unfold run
  cases hconsult : consult force c with
  | mk result c' =>
    rw [hconsult] at hkept hentry
    cases result with
    | some result => exact hkept
    | none =>
      have h' : Keeps c'.entry P := by
        rw [show c'.entry = c.entry from hentry]
        exact h
      exact discover_keeps now c' h' hkept

end

/-- The trials that a run writes down are those of its server. -/
theorem changes_told (force : Bool) (now : UInt64) (c : Controller σ Servers) :
    ∀ change ∈ changes force now c, Told c.entry change := by
  have hkeeps : Keeps (c.onto (⟨c.store, []⟩ : Logged σ)).entry
      (fun s : Logged σ => ∀ change ∈ s.changes, Told c.entry change) := Logged.keeps fun _ => rfl
  exact run_keeps force now (c.onto (⟨c.store, []⟩ : Logged σ)) hkeeps fun _ hchange =>
    nomatch hchange

/-! ### Reading -/

/-- After a trial the run goes on only if the trial failed, and ends in any way but for want of
versions. -/
theorem settle_cases {ν : Type} (original : Version) (now : UInt64) (candidate : Version)
    (outcome : TrialOutcome) (trials : Nat) (c : Controller σ ν) :
    match (settle original now candidate outcome trials c).1 with
    | some result => ∀ server reported tried, result ≠ .error (.exhausted server reported tried)
    | none => outcome ≠ .success := by
  unfold settle confirm
  cases Store.append ⟨candidate, outcome⟩ c.store with
  | mk result s' =>
    cases result with
    | error fault => exact fun _ _ _ h => nomatch h
    | ok =>
      by_cases hsuccess : outcome = .success
      · simp only [if_pos hsuccess]
        cases Store.saveRecord ⟨candidate, now, some c.endpoint.text⟩ s' with
        | mk result s'' => cases result <;> exact fun _ _ _ h => nomatch h
      · simp only [if_neg hsuccess]
        exact hsuccess

theorem exhaust_exhausted {ν : Type} (original : Version) (reported : Option Version)
    (all : List Version) (c : Controller σ ν) {server : String} {probed : Option Version}
    {tried : List Version}
    (h : (exhaust original reported all c).1 = .error (.exhausted server probed tried)) :
    tried = all := by
  unfold exhaust at h
  cases hclear : Store.clearLedger c.store with
  | mk result s' =>
    rw [hclear] at h
    cases result <;> cases h
    rfl

variable {server : String} {probed : Option Version} {tried : List Version}

theorem walk_exhausted (original : Version) (now : UInt64) (reported : Option Version)
    (all left : List Version) (trials : Nat) (c : Controller σ Servers)
    (h : (walk original now reported all left trials c).1 =
      .error (.exhausted server probed tried)) :
    tried = all ∧ ∀ v ∈ left, (c.entry v).outcome ≠ .success := by
  induction left generalizing trials c with
  | nil => exact ⟨exhaust_exhausted original reported all c h, fun _ hv => nomatch hv⟩
  | cons v left ih =>
    have hcases := settle_cases original now v (attempt v c).1 (trials + 1) (attempt v c).2
    have hentry := settle_entry original now v (attempt v c).1 (trials + 1) (attempt v c).2
    simp only [walk] at h
    cases hsettle : settle original now v (attempt v c).1 (trials + 1) (attempt v c).2 with
    | mk result c' =>
      rw [hsettle] at hcases hentry h
      cases result with
      | some result => exact absurd h (hcases server probed tried)
      | none =>
        obtain ⟨htried, hrest⟩ := ih (trials + 1) c' h
        rw [show c'.entry = c.entry from hentry] at hrest
        refine ⟨htried, fun w hw => ?_⟩
        rcases List.mem_cons.mp hw with rfl | hw
        · exact hcases
        · exact hrest w hw

theorem discover_exhausted (now : UInt64) (c : Controller σ Servers)
    (h : (discover now c).1 = .error (.exhausted server probed tried)) :
    ∃ ledger, Store.loadLedger c.store = .ok ledger ∧ tried = c.listed ∧
      ∀ v ∈ c.remaining ledger, (c.entry v).outcome ≠ .success := by
  simp only [discover, survey] at h
  cases hload : Store.loadLedger (probe c).2.store with
  | error fault =>
    rw [hload] at h
    cases h
  | ok ledger =>
    rw [hload] at h
    exact ⟨ledger, hload, walk_exhausted c.active now _ _ _ 0 (probe c).2 h⟩

/-- A run that gives up has seen each candidate refused, or ruled out by the ledger. -/
theorem run_exhausted (now : UInt64) (c : Controller σ Servers)
    (h : (run false now c).1 = .error (.exhausted server probed tried)) :
    ∃ ledger, Store.loadLedger c.store = .ok ledger ∧ tried = c.listed ∧
      ∀ v ∈ c.remaining ledger, (c.entry v).outcome ≠ .success := by
  simp only [run, consult, Bool.false_eq_true, if_false] at h
  cases hload : Store.loadRecord c.store with
  | error fault =>
    rw [hload] at h
    cases h
  | ok record =>
    rw [hload] at h
    cases record with
    | some r => cases h
    | none => exact discover_exhausted now { c with stage := .probing } h

end Controller

end Pickaxe.Negotiation
