import Pickaxe.Proofs.Negotiation.Account
import Pickaxe.Proofs.Negotiation.Lawful

/-! What a run leaves when it returns a version.

The active version moves with every trial, and the version that is returned is that of the last move: the
trial that has succeeded, or the record (`run_adopts`). The same version is on record then, over any store
that keeps what it has saved, and the network has either been asked nothing or accepted it last
(`Ran.agreed`). -/
namespace Pickaxe.Negotiation

open Packet (Version)
open Server (Endpoint)

variable {σ ν : Type}

/-! ### The active version -/

/-- A version that is returned is the active one. -/
def Adopts (x : Except Error Outcome × Controller σ ν) : Prop := ∀ o, x.1 = .ok o → x.2.active = o.version

theorem Adopts.of_error {e : Error} {c : Controller σ ν} : Adopts (.error e, c) := fun o h => by cases h

variable [Store σ]

namespace Controller

theorem exhaust_adopts (original : Version) (reported : Option Version) (tried : List Version)
    (c : Controller σ ν) : Adopts (exhaust original reported tried c) := by
  unfold exhaust
  cases Store.clearLedger c.store with
  | mk result store => cases result <;> exact .of_error

theorem confirm_adopts (original : Version) (now : UInt64) (trials : Nat) (c : Controller σ ν) :
    Adopts (confirm original now c.active trials c) := by
  unfold confirm
  cases Store.saveRecord ⟨c.active, now, some c.endpoint.text⟩ c.store with
  | mk result store =>
    cases result with
    | error => exact .of_error
    | ok =>
      rintro o ⟨rfl⟩
      rfl

/-- Only a success ends the run with a version, and that is the one of the trial. -/
theorem settle_adopts (original : Version) (now : UInt64) (outcome : TrialOutcome) (trials : Nat)
    {c after : Controller σ ν} {result : Except Error Outcome}
    (h : settle original now c.active outcome trials c = (some result, after)) : Adopts (result, after) := by
  unfold settle at h
  cases happend : Store.append ⟨c.active, outcome⟩ c.store with
  | mk written store =>
    rw [happend] at h
    cases written with
    | error e =>
      cases h
      exact .of_error
    | ok =>
      simp only at h
      split at h
      · cases h
        exact confirm_adopts original now trials { c with store }
      · cases h

variable [Network ν]

theorem walk_adopts (original : Version) (now : UInt64) (reported : Option Version) (all left : List Version)
    (trials : Nat) (c : Controller σ ν) : Adopts (walk original now reported all left trials c) := by
  induction left generalizing trials c with
  | nil => exact exhaust_adopts original reported all c
  | cons v left ih =>
    simp only [walk]
    cases hcase : settle original now v (attempt v c).1 (trials + 1) (attempt v c).2 with
    | mk result after =>
      cases result with
      | some result => exact settle_adopts (c := (attempt v c).2) original now _ _ hcase
      | none => exact ih (trials + 1) after

theorem discover_adopts (now : UInt64) (c : Controller σ ν) : Adopts (discover now c) := by
  simp only [discover]
  cases survey (probe c).1 (probe c).2 with
  | error e => exact .of_error
  | ok lists => exact walk_adopts c.active now _ lists.1 lists.2 0 (probe c).2

omit [Network ν] in
theorem consult_adopts (force : Bool) {c after : Controller σ ν} {result : Except Error Outcome}
    (h : consult force c = (some result, after)) : Adopts (result, after) := by
  cases force with
  | true =>
    simp only [consult, if_true] at h
    cases hclear : Store.clearLedger c.store with
    | mk cleared store =>
      rw [hclear] at h
      cases cleared with
      | error fault =>
        cases h
        exact .of_error
      | ok => cases h
  | false =>
    simp only [consult, Bool.false_eq_true, if_false] at h
    cases hload : Store.loadRecord c.store with
    | error fault =>
      rw [hload] at h
      cases h
      exact .of_error
    | ok record =>
      rw [hload] at h
      cases record with
      | none => cases h
      | some r =>
        cases h
        rintro o ⟨rfl⟩
        rfl

theorem run_adopts (force : Bool) (now : UInt64) (c : Controller σ ν) : Adopts (run force now c) := by
  unfold run
  cases hcase : consult force c with
  | mk result after =>
    cases result with
    | some result => exact consult_adopts force hcase
    | none => exact discover_adopts now after

end Controller

/-! ### The record and the network -/

section
variable {e : Endpoint} {limit : Duration} {now : UInt64} {s : σ} {heard : List Exchange}
  {changes : List Change} {o : Outcome}

/-- A walk that returns a version ends with the trial that accepts it. -/
theorem Walked.accepted_last {left : List Version} {result : Except Error Outcome}
    (h : Walked e limit now left s heard changes result) (hok : result = .ok o) :
    o.source = .discovered ∧ ∃ earlier reply, heard = earlier ++ [.connect e o.version reply] ∧
      Trial.outcome limit reply = .success := by
  induction h with
  | exhausted | unforgotten | unwritten | unsaved => cases hok
  | failed v reply _ _ _ ih =>
    obtain ⟨hsource, earlier, last, rfl, hsuccess⟩ := ih hok
    exact ⟨hsource, .connect e v reply :: earlier, last, rfl, hsuccess⟩
  | accepted v left s reply trials hsuccess =>
    cases hok
    exact ⟨rfl, [], reply, rfl, hsuccess⟩

theorem Discovered.accepted {s : σ} (h : Discovered e limit now s heard changes (.ok o)) :
    o.source = .discovered ∧ ∃ earlier reply, heard = earlier ++ [.connect e o.version reply] ∧
      Trial.outcome limit reply = .success := by
  cases h with
  | walked answer all ledger _ _ hwalk =>
    obtain ⟨hsource, earlier, reply, rfl, hsuccess⟩ := hwalk.accepted_last rfl
    exact ⟨hsource, .ping e answer :: earlier, reply, rfl, hsuccess⟩

/-- A version that is returned was on record, and the run has neither asked nor changed anything, or the server
has accepted it last. -/
theorem Ran.returned {force : Bool} {s : σ} (h : Ran e limit now force s heard changes (.ok o)) :
    (o.source = .persisted ∧ heard = [] ∧ changes = []) ∨
      (o.source = .discovered ∧ ∃ earlier reply, heard = earlier ++ [.connect e o.version reply] ∧
        Trial.outcome limit reply = .success) := by
  cases h with
  | recorded _ r hload => exact .inl ⟨rfl, rfl, rfl⟩
  | unrecorded _ hrest | forced _ hrest => exact .inr hrest.accepted

variable [LawfulStore σ]

/-- **A version that is returned is on record.** Either it was before, and the run has neither asked nor
changed anything, or the server has accepted it last. -/
theorem Ran.agreed {force : Bool} (h : Ran e limit now force s heard changes (.ok o)) :
    (∃ r, Store.loadRecord (replay changes s) = .ok (some r) ∧ r.version = o.version) ∧
      ((o.source = .persisted ∧ heard = [] ∧ changes = []) ∨
        (o.source = .discovered ∧ ∃ earlier reply, heard = earlier ++ [.connect e o.version reply] ∧
          Trial.outcome limit reply = .success)) := by
  have hrecord {s : σ} {changes : List Change} (h : Discovered e limit now s heard changes (.ok o)) :
      ∃ r, Store.loadRecord (replay changes s) = .ok (some r) ∧ r.version = o.version := by
    obtain ⟨before, hsaved, hafter⟩ := h.saved
    rw [hafter]
    exact ⟨_, (LawfulStore.made _ before hsaved).record, rfl⟩
  refine ⟨?_, h.returned⟩
  cases h with
  | recorded _ r hload => exact ⟨r, hload, rfl⟩
  | unrecorded _ hrest => exact hrecord hrest
  | forced _ hrest =>
    have hforced := hrecord hrest
    exact hforced

end

end Pickaxe.Negotiation
