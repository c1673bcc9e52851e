import Pickaxe.Proofs.Negotiation.Run
import Pickaxe.Proofs.Negotiation.Trials

/-! What a run leaves when it ends in an error.

A run changes two things that the next connection reads: the active version and the record. It
moves the first with every trial, and the second only with a trial that succeeded. Whatever fails,
and wherever, an error leaves both as they were before the run.

Of the store this needs that only a record that was saved in full shows (`KeepsRecord`). Stores in
memory are such stores on any schedule of faults. -/
namespace Pickaxe.Negotiation

open Packet (Version)

variable {σ ν ρ : Type} [Store σ]

/-! ### Stores -/

/-- What a store shows of its record stays the same through changes to the ledger, and through
records that it fails to save. -/
structure KeepsRecord (shown : σ → ρ) : Prop where
  append : ∀ a s, shown (Store.append a s).2 = shown s
  clearLedger : ∀ s, shown (Store.clearLedger s).2 = shown s
  saveRecord : ∀ r s e, (Store.saveRecord r s).1 = .error e →
    shown (Store.saveRecord r s).2 = shown s

theorem MemoryStore.keepsRecord : KeepsRecord MemoryStore.record where
  append := fun _ _ => rfl
  clearLedger := fun _ => rfl
  saveRecord := fun _ _ _ h => nomatch h

/-- Faults do not show. -/
theorem Faulty.keepsRecord {shown : σ → ρ} (h : KeepsRecord shown) :
    KeepsRecord (fun s : Faulty σ => shown s.inner) where
  append := fun a s => by
    simp only [Store.append, change]
    cases s.fault s.asked .append with
    | some e => rfl
    | none => exact h.append a s.inner
  clearLedger := fun s => by
    simp only [Store.clearLedger, change]
    cases s.fault s.asked .clearLedger with
    | some e => rfl
    | none => exact h.clearLedger s.inner
  saveRecord := fun r s e he => by
    simp only [Store.saveRecord, change] at he ⊢
    cases hfault : s.fault s.asked .saveRecord with
    | some e => rfl
    | none =>
      rw [hfault] at he
      exact h.saveRecord r s.inner e he

/-! ### Parts of a run -/

/-- An error has put the active version back and has left the record alone. -/
def Restores (shown : σ → ρ) (original : Version) (kept : ρ)
    (r : Except Error Outcome × Controller σ ν) : Prop :=
  ∀ e, r.1 = .error e → r.2.active = original ∧ shown r.2.store = kept

namespace Controller

section
variable {shown : σ → ρ} (h : KeepsRecord shown)
include h

theorem exhaust_restores (original : Version) (reported : Option Version) (tried : List Version)
    (c : Controller σ ν) :
    Restores shown original (shown c.store) (exhaust original reported tried c) := by
  intro e _
  have hkept := h.clearLedger c.store
  unfold exhaust
  cases hclear : Store.clearLedger c.store with
  | mk result s' =>
    rw [hclear] at hkept
    cases result <;> exact ⟨rfl, hkept⟩

theorem confirm_restores (original : Version) (now : UInt64) (version : Version) (trials : Nat)
    (c : Controller σ ν) :
    Restores shown original (shown c.store) (confirm original now version trials c) := by
  intro e he
  have hkept := h.saveRecord ⟨version, now, some c.endpoint.text⟩ c.store
  unfold confirm at he ⊢
  cases hsave : Store.saveRecord ⟨version, now, some c.endpoint.text⟩ c.store with
  | mk result s' =>
    rw [hsave] at hkept he
    cases result with
    | error fault => exact ⟨rfl, hkept fault rfl⟩
    | ok => cases he

/-- A trial either ends the run, or leaves the record to the rest of it. -/
theorem settle_restores (original : Version) (now : UInt64) (candidate : Version)
    (outcome : TrialOutcome) (trials : Nat) (c : Controller σ ν) :
    match settle original now candidate outcome trials c with
    | (some result, c') => Restores shown original (shown c.store) (result, c')
    | (none, c') => shown c'.store = shown c.store := by
  have hkept := h.append ⟨candidate, outcome⟩ c.store
  unfold settle
  cases happend : Store.append ⟨candidate, outcome⟩ c.store with
  | mk result s' =>
    rw [happend] at hkept
    cases result with
    | error fault => exact fun e _ => ⟨rfl, hkept⟩
    | ok =>
      by_cases hsuccess : outcome = .success
      · simp only [if_pos hsuccess]
        have hconfirm := confirm_restores h original now candidate trials { c with store := s' }
        rw [← hkept]
        exact hconfirm
      · simp only [if_neg hsuccess]
        exact hkept

variable [Network ν]

theorem walk_restores (original : Version) (now : UInt64) (reported : Option Version)
    (all left : List Version) (trials : Nat) (c : Controller σ ν) :
    Restores shown original (shown c.store) (walk original now reported all left trials c) := by
  induction left generalizing trials c with
  | nil => exact exhaust_restores h original reported all c
  | cons v left ih =>
    have hsettle := settle_restores h original now v (attempt v c).1 (trials + 1) (attempt v c).2
    simp only [walk]
    cases hcase : settle original now v (attempt v c).1 (trials + 1) (attempt v c).2 with
    | mk result c' =>
      rw [hcase] at hsettle
      cases result with
      | some result => exact hsettle
      | none =>
        have hrest := ih (trials + 1) c'
        rw [hsettle] at hrest
        exact hrest

theorem discover_restores (now : UInt64) (c : Controller σ ν) :
    Restores shown c.active (shown c.store) (discover now c) := by
  simp only [discover]
  cases survey (probe c).1 (probe c).2 with
  | error e => exact fun _ _ => ⟨rfl, rfl⟩
  | ok lists => exact walk_restores h c.active now _ lists.1 lists.2 0 (probe c).2

omit [Network ν] in
/-- Before the server is asked, nothing has moved that an error would have to put back. -/
theorem consult_restores (force : Bool) (c : Controller σ ν) :
    match consult force c with
    | (some result, c') => Restores shown c.active (shown c.store) (result, c')
    | (none, c') => c'.active = c.active ∧ shown c'.store = shown c.store := by
  cases force with
  | true =>
    have hkept := h.clearLedger c.store
    simp only [consult, if_true]
    cases hclear : Store.clearLedger c.store with
    | mk result s' =>
      rw [hclear] at hkept
      cases result with
      | error fault => exact fun _ _ => ⟨rfl, hkept⟩
      | ok => exact ⟨rfl, hkept⟩
  | false =>
    simp only [consult, Bool.false_eq_true, if_false]
    cases Store.loadRecord c.store with
    | error fault => exact fun _ _ => ⟨rfl, rfl⟩
    | ok record =>
      cases record with
      | none => exact ⟨rfl, rfl⟩
      | some r =>
        intro e he
        cases he

/-- A run that ends in an error restores what it moved, over any store that keeps its record. -/
theorem run_restores (force : Bool) (now : UInt64) (c : Controller σ ν) :
    Restores shown c.active (shown c.store) (run force now c) := by
  have hconsult := consult_restores h force c
  unfold run
  cases hcase : consult force c with
  | mk result c' =>
    rw [hcase] at hconsult
    cases result with
    | some result => exact hconsult
    | none =>
      have hdiscover := discover_restores h now c'
      rw [hconsult.1, hconsult.2] at hdiscover
      exact hdiscover

end

/-! ### Whole runs -/

variable [Network ν]

/-- **An error of a run is atomic**: on every schedule of faults, whatever the store holds and the
network answers, it leaves the active version and the stored record as they were. -/
theorem run_error_restores (force : Bool) (now : UInt64) (c : Controller (Faulty MemoryStore) ν)
    {e : Error} (he : (run force now c).1 = .error e) :
    (run force now c).2.active = c.active ∧
      (run force now c).2.store.inner.record = c.store.inner.record :=
  run_restores (Faulty.keepsRecord MemoryStore.keepsRecord) force now c e he

/-- Four trials, the last of them a success that cannot be put on record. -/
theorem run_error_restores_unsaved :
    let kept : Record := ⟨771, 0, none⟩
    let fault (n : Nat) (_ : StoreCall) := if n = 5 then some (.io "no space left") else none
    let c : Controller (Faulty MemoryStore) Servers :=
      .new ⟨⟨some kept, []⟩, fault, 0⟩ (.accepting 769) ⟨"localhost", 25565⟩ 700 .standard
    let r := run true 0 c
    r.1 = .error (.store (.io "no space left")) ∧ r.2.store.inner.ledger.length = 4 ∧
      r.2.active = 700 ∧ r.2.store.inner.record = some kept := by
  intro kept fault c r
  have he : r.1 = .error (.store (.io "no space left")) := rfl
  obtain ⟨hactive, hrecord⟩ := run_error_restores true 0 c he
  exact ⟨he, rfl, hactive, hrecord⟩

end Controller

end Pickaxe.Negotiation
