import Pickaxe.Proofs.Negotiation.Account
import Pickaxe.Proofs.Negotiation.Files
import Pickaxe.Proofs.Negotiation.Restore

/-! Forced runs, which forget.

What a store holds has no say in a forced run, whether it can be read or not. Over any two stores
whose calls do not fail, in memory or in files, such a run asks the same questions, comes to the
same result and leaves the same ledger; a version that it finds is on record in both, and otherwise
each keeps the record that it had (`forced_run_forgets`). -/
namespace Pickaxe.Negotiation

open Packet (Version)
open Server (Endpoint)

variable {σ τ ν : Type} [Store σ] [Store τ]

/-! ### Runs over stores that do not fail -/

section
variable {ready : σ → Prop} (h : Reliable ready) {e : Endpoint} {limit : Duration} {now : UInt64}
  {heard : List Exchange} {changes : List Change} {error : Error}
include h

/-- Then a walk ends in an error only for want of candidates. -/
theorem Walked.exhausted_of_reliable {left : List Version} {s : σ} {result : Except Error Outcome}
    (hwalk : Walked e limit now left s heard changes result) (hs : ready s)
    (hresult : result = .error error) :
    ∃ reported listed, error = .exhausted e.text reported listed := by
  induction hwalk with
  | exhausted s reported listed =>
    cases hresult
    exact ⟨reported, listed, rfl⟩
  | unforgotten s fault hfault => exact nomatch (h.succeeds _ s hs).symm.trans hfault
  | unwritten v left s reply fault hfault => exact nomatch (h.succeeds _ s hs).symm.trans hfault
  | failed _ _ _ _ _ ih => exact ih (h.stays _ _ hs) hresult
  | unsaved v left s reply fault _ _ hfault =>
    exact nomatch (h.succeeds _ _ (h.stays _ s hs)).symm.trans hfault
  | accepted => cases hresult

/-- A forced run has an empty ledger to read. -/
theorem Ran.exhausted_of_reliable [LawfulStore σ] {s : σ}
    (hran : Ran e limit now true s heard changes (.error error)) (hs : ready s) :
    ∃ reported listed, error = .exhausted e.text reported listed := by
  cases hran with
  | uncleared _ fault hfault => exact nomatch (h.succeeds _ s hs).symm.trans hfault
  | forced hcleared hrest =>
    have hready := h.stays .clearLedger s hs
    have hempty := (LawfulStore.made .clearLedger s hcleared).ledger
    cases hrest with
    | unlisted answer fault hload => exact nomatch Eq.trans hempty.symm hload
    | walked answer all ledger _ _ hwalk => exact hwalk.exhausted_of_reliable h hready rfl

end

theorem Ran.forced_saved {e : Endpoint} {limit : Duration} {now : UInt64} {heard : List Exchange}
    {changes : List Change} {o : Outcome} {s : σ}
    (hran : Ran e limit now true s heard changes (.ok o)) :
    ∃ before : σ, let save := (Change.saveRecord ⟨o.version, now, some e.text⟩).apply before
      save.1 = .ok () ∧ replay changes s = save.2 := by
  cases hran with
  | forced _ hrest => exact hrest.saved

theorem LawfulStore.keepsRecord [LawfulStore σ] :
    KeepsRecord (Store.loadRecord : σ → Except StoreError (Option Record)) where
  append := fun a s => by
    rcases LawfulStore.made_or_unchanged (.append a) s with hmade | hunchanged
    · exact hmade.record
    · exact hunchanged.record
  clearLedger := fun s => by
    rcases LawfulStore.made_or_unchanged .clearLedger s with hmade | hunchanged
    · exact hmade.record
    · exact hunchanged.record
  saveRecord := fun r s fault he => (LawfulStore.failed (.saveRecord r) s fault he).record

namespace Controller

variable [Network ν]

/-- A version that a forced run returns is on record. -/
theorem run_forced_ok [LawfulStore σ] (now : UInt64) (c : Controller σ ν) {o : Outcome}
    (hresult : (run true now c).1 = .ok o) :
    Store.loadRecord (run true now c).2.store =
      .ok (some ⟨o.version, now, some c.endpoint.text⟩) := by
  have hran := c.run_ran true now
  rw [hresult] at hran
  obtain ⟨before, hsaved, hlast⟩ := hran.forced_saved
  obtain ⟨-, hstore, -⟩ := c.perform_watched (.run true) now
  rw [show (run true now c).2.store = _ from hstore.trans hlast]
  exact (LawfulStore.made _ before hsaved).record

/-- One that returns none has run out of candidates, and leaves the record alone. -/
theorem run_forced_error [LawfulStore σ] {ready : σ → Prop} (h : Reliable ready) (now : UInt64)
    (c : Controller σ ν) (hs : ready c.store) {error : Error}
    (hresult : (run true now c).1 = .error error) :
    (∃ reported listed, error = .exhausted c.endpoint.text reported listed) ∧
      Store.loadRecord (run true now c).2.store = Store.loadRecord c.store := by
  have hran := c.run_ran true now
  rw [hresult] at hran
  exact ⟨hran.exhausted_of_reliable h hs,
    (run_restores LawfulStore.keepsRecord true now c error hresult).2⟩

/-- **A forced run forgets.** Over any two lawful stores whose calls do not fail, and from whatever
they hold, forced runs of one controller ask and hear the same, come to the same result, and leave
the same active version, stage and ledger. If they return a version, it is on record in both, for
the same server; if not, they have run out of candidates, and each store has the record that it
had. -/
theorem forced_run_forgets [LawfulStore σ] [LawfulStore τ] {ready : σ → Prop} {ready' : τ → Prop}
    (h : Reliable ready) (h' : Reliable ready') (c : Controller σ ν) (t : τ) (hs : ready c.store)
    (ht : ready' t) (now now' : UInt64) :
    let d := c.onto t
    let r := run true now c
    let r' := run true now' d
    c.heard (.run true) now = d.heard (.run true) now' ∧
      r.1 = r'.1 ∧ r.2.active = r'.2.active ∧ r.2.stage = r'.2.stage ∧
      (∃ ledger, Store.loadLedger r.2.store = .ok ledger ∧
        Store.loadLedger r'.2.store = .ok ledger) ∧
      match r.1 with
      | .ok o =>
        Store.loadRecord r.2.store = .ok (some ⟨o.version, now, some c.endpoint.text⟩) ∧
          Store.loadRecord r'.2.store = .ok (some ⟨o.version, now', some c.endpoint.text⟩)
      | .error error =>
        (∃ reported listed, error = .exhausted c.endpoint.text reported listed) ∧
          Store.loadRecord r.2.store = Store.loadRecord c.store ∧
          Store.loadRecord r'.2.store = Store.loadRecord t := by
  intro d r r'
  -- The stores have nothing in common before the run clears both ledgers.
  have hmirrors := SameLedger.mirrors h h' now now'
  have hcleared : Agree (SameLedger ready ready') (Store.clearLedger c.store)
      (Store.clearLedger t) := by
    have hok := h.succeeds .clearLedger _ hs
    have hok' := h'.succeeds .clearLedger _ ht
    exact ⟨hok.trans hok'.symm, h.stays .clearLedger _ hs, h'.stays .clearLedger _ ht, [],
      (LawfulStore.made .clearLedger _ hok).ledger, (LawfulStore.made .clearLedger _ hok').ledger⟩
  have halike : Alike c.endpoint c.config 0
      (fun s t => Agree (SameLedger ready ready') (Store.clearLedger s) (Store.clearLedger t))
      (fun n m => n = m) c d := alike_onto hcleared
  obtain ⟨hresult, hafter⟩ := run_forced_alike Echoes.refl hmirrors halike
  obtain ⟨-, hwatched⟩ := run_forced_alike Echoes.refl hmirrors.logged halike.watched
  refine ⟨congrArg Watched.heard hwatched.network, hresult, hafter.active, hafter.stage,
    hafter.store.ledger, ?_⟩
  cases hr : r.1 with
  | ok o => exact ⟨run_forced_ok now c hr, run_forced_ok now' d (hresult.symm.trans hr)⟩
  | error error =>
    obtain ⟨hexhausted, hkept⟩ := run_forced_error h now c hs hr
    exact ⟨hexhausted, hkept, (run_forced_error h' now' d ht (hresult.symm.trans hr)).2⟩

/-- Files that cannot be read, and a memory whose ledger rules out the version that is found. -/
theorem forced_run_forgets_unreadable :
    let files : StateDir := ⟨.file [0xFF], .file [0xFF, 0x0A], .absent⟩
    let memory : MemoryStore := ⟨some ⟨771, 0, none⟩, [⟨769, .unknown⟩]⟩
    let c : Controller StateDir Servers :=
      .new files (.accepting 769) ⟨"localhost", 25565⟩ 765 .standard
    let r := run true 1 c
    let r' := run true 2 (c.onto memory)
    r.1 = .ok ⟨769, .discovered, 4⟩ ∧ r'.1 = .ok ⟨769, .discovered, 4⟩ ∧
      Store.loadRecord r.2.store = .ok (some ⟨769, 1, some c.endpoint.text⟩) ∧
      Store.loadRecord r'.2.store = .ok (some ⟨769, 2, some c.endpoint.text⟩) := by
  intro files memory c r r'
  have hready : files.Writable := ⟨nofun, nofun, nofun⟩
  obtain ⟨-, hresult, -, -, -, hrecords⟩ :=
    forced_run_forgets StateDir.reliable MemoryStore.reliable c memory hready trivial 1 2
  have hr : r.1 = .ok ⟨769, .discovered, 4⟩ := rfl
  rw [show (run true 1 c).1 = _ from hr] at hrecords hresult
  exact ⟨hr, hresult.symm, hrecords.1, hrecords.2⟩

end Controller

end Pickaxe.Negotiation
