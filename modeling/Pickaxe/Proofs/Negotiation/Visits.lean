import Pickaxe.Proofs.Negotiation.Ledger

/-! Runs against different servers that share one store.

A visit is one run, with whatever is its own: the server, the settings, the faults of the store.
Visits follow each other, some of them cut short by a crash, and each line of the ledger is the
word of one of them (`leftBy_word`). It does not say of which. So a run that gives up may repeat
the word of others about its own server, and it is right if and only if no visit before it misleads
it (`Misleads`). One at the same server with the same time for a trial never does. -/
namespace Pickaxe.Negotiation

open Packet (Version)
open Server (Endpoint)

/-! ### Visits -/

/-- A run against some server, over the store of others. -/
structure Visit where
  endpoint : Endpoint
  /-- What the server answers a ping. -/
  status : Except PingError Server.Status
  /-- The version that was active before. -/
  active : Version
  config : Config
  force : Bool
  now : UInt64
  /-- The faults of the store, as in `Faulty`. -/
  fault : Nat → StoreCall → Option StoreError

namespace Visit

variable (reply : Endpoint → Version → Reply)

/-- The controller of the visit, over what earlier visits left. -/
def controller (m : MemoryStore) (x : Visit) : Controller (Faulty MemoryStore) Servers :=
  .new ⟨m, x.fault, 0⟩ ⟨fun _ => x.status, reply, [], []⟩ x.endpoint x.active x.config

def run (m : MemoryStore) (x : Visit) :
    Except Error Outcome × Controller (Faulty MemoryStore) Servers :=
  Controller.run x.force x.now (x.controller reply m)

/-- How a trial of the version would count. -/
def outcome (x : Visit) (v : Version) : TrialOutcome :=
  Trial.outcome x.config.trialTimeout (reply x.endpoint v)

/-- What the visit leaves, if it returns or if it crashes after so many changes. -/
def leaves (crash : Option Nat) (m : MemoryStore) (x : Visit) : MemoryStore :=
  match crash with
  | none => (x.run reply m).2.store.inner
  | some made => (Controller.crashed x.force x.now made (x.controller reply m)).inner

/-- A failed trial of a version that another visit would succeed at, with a line of the ledger
that tells of it. -/
structure Misleads (m : MemoryStore) (x other : Visit) (v : Version) : Prop where
  failed : x.outcome reply v ≠ .success
  told : ⟨v, x.outcome reply v⟩ ∈ m.ledger
  accepted : other.outcome reply v = .success

/-- Visits to one server with one time for a trial hear the same. -/
theorem Misleads.differ {m : MemoryStore} {other x : Visit} {v : Version}
    (h : x.Misleads reply m other v) :
    x.endpoint ≠ other.endpoint ∨ x.config.trialTimeout ≠ other.config.trialTimeout := by
  by_cases hserver : x.endpoint = other.endpoint
  · by_cases hlimit : x.config.trialTimeout = other.config.trialTimeout
    · have hsame : x.outcome reply v = other.outcome reply v := by
        rw [outcome, outcome, hserver, hlimit]
      exact absurd (hsame.trans h.accepted) h.failed
    · exact .inr hlimit
  · exact .inl hserver

variable {P : Attempt → Prop}

theorem leaves_told (crash : Option Nat) (x : Visit) (hx : ∀ v, P ⟨v, x.outcome reply v⟩)
    {m : MemoryStore} (hm : ∀ a ∈ m.ledger, P a) : ∀ a ∈ (x.leaves reply crash m).ledger, P a := by
  let c := x.controller reply m
  have hentry : ∀ v, P (c.entry v) := hx
  have htold := c.changes_told x.force x.now
  cases crash with
  | none =>
    show ∀ a ∈ (Controller.run x.force x.now c).2.store.inner.ledger, P a
    rw [Controller.run_store]
    exact told_replay hentry _ htold c.store hm
  | some made =>
    exact told_replay hentry _ (fun change hchange => htold change (List.mem_of_mem_take hchange))
      c.store hm

end Visit

/-- What visits leave of a store, one after another. -/
def leftBy (reply : Endpoint → Version → Reply) :
    List (Visit × Option Nat) → MemoryStore → MemoryStore
  | [], m => m
  | (x, crash) :: rest, m => leftBy reply rest (x.leaves reply crash m)

/-! ### The word of others -/

section
variable (reply : Endpoint → Version → Reply)

/-- What holds of each trial of each visit holds of the ledger. -/
theorem leftBy_told {P : Attempt → Prop} (history : List (Visit × Option Nat))
    (hhistory : ∀ p ∈ history, ∀ v, P ⟨v, p.1.outcome reply v⟩) {m : MemoryStore}
    (hm : ∀ a ∈ m.ledger, P a) : ∀ a ∈ (leftBy reply history m).ledger, P a := by
  induction history generalizing m with
  | nil => exact hm
  | cons p rest ih =>
    refine ih (fun other hother => hhistory other (List.mem_cons_of_mem p hother)) ?_
    exact p.1.leaves_told reply p.2 (hhistory p (List.mem_cons_self ..)) hm

/-- Every line of the ledger is the word of a visit. -/
theorem leftBy_word (history : List (Visit × Option Nat)) :
    ∀ a ∈ (leftBy reply history .empty).ledger,
      ∃ p ∈ history, a = ⟨a.candidate, p.1.outcome reply a.candidate⟩ := by
  have hnone : ∀ a ∈ MemoryStore.empty.ledger,
      ∃ p ∈ history, a = ⟨a.candidate, p.1.outcome reply a.candidate⟩ := fun a ha => nomatch ha
  exact leftBy_told reply history (fun p hp v => ⟨p, hp, rfl⟩) hnone

/-- A version that a run gives up on without a trial failed at an earlier visit. -/
theorem ruledOut_told (history : List (Visit × Option Nat)) {v : Version}
    (hv : v ∈ Controller.ruledOut (leftBy reply history .empty).ledger) :
    ∃ p ∈ history, p.1.outcome reply v ≠ .success ∧
      ⟨v, p.1.outcome reply v⟩ ∈ (leftBy reply history .empty).ledger := by
  obtain ⟨a, ha, rfl⟩ := List.mem_map.mp hv
  obtain ⟨hmem, hfailed⟩ := List.mem_filter.mp ha
  obtain ⟨p, hp, heq⟩ := leftBy_word reply history a hmem
  have hne : a.outcome ≠ .success := by simpa using hfailed
  rw [heq] at hne hmem
  exact ⟨p, hp, hne, hmem⟩

/-- **When a run is right to give up.** It says that its server accepts no version of a list. That
is so if and only if no visit before it misleads it; and only a visit to another server, or with
another time for a trial, can. -/
theorem exhausted_honest_iff (history : List (Visit × Option Nat)) (b : Visit)
    (hb : b.force = false) {server : String} {reported : Option Version} {tried : List Version}
    (h : (b.run reply (leftBy reply history .empty)).1 =
      .error (.exhausted server reported tried)) :
    let left := leftBy reply history .empty
    ((∀ v ∈ tried, b.outcome reply v ≠ .success) ↔
      ∀ p ∈ history, ∀ v ∈ tried, ¬ p.1.Misleads reply left b v) ∧
    ∀ p ∈ history, ∀ v, p.1.Misleads reply left b v →
      p.1.endpoint ≠ b.endpoint ∨ p.1.config.trialTimeout ≠ b.config.trialTimeout := by
  intro left
  let c := b.controller reply left
  have hrun : (Controller.run false b.now c).1 = .error (.exhausted server reported tried) := by
    rw [← hb]
    exact h
  obtain ⟨ledger, hload, rfl, hrefused⟩ := c.run_exhausted b.now hrun
  have hledger : left.ledger = ledger := Except.ok.inj (Faulty.loadLedger_inner hload)
  refine ⟨⟨?_, ?_⟩, fun p _ v hmisleads => hmisleads.differ⟩
  · intro hhonest p _ v hv hmisleads
    exact hhonest v hv hmisleads.accepted
  · intro hnone v hv haccepted
    by_cases hout : v ∈ Controller.ruledOut ledger
    · rw [← hledger] at hout
      obtain ⟨p, hp, hfailed, htold⟩ := ruledOut_told reply history hout
      exact hnone p hp v hv ⟨hfailed, htold, haccepted⟩
    · have hremains : v ∈ c.remaining ledger := by simp [Controller.remaining, hv, hout]
      exact hrefused v hremains haccepted

/-- A visit that crashes after one trial and one that returns, to the same server. -/
theorem exhausted_honest_iff_twice :
    let reply (_ : Endpoint) (v : Version) : Reply :=
      .answered 0 (.error (if v = 767 then .timeout else .incompatibleVersion "outdated"))
    let config : Config := { Config.standard with defaults := [767, 768] }
    let visit (active : Version) : Visit :=
      ⟨⟨"localhost", 25565⟩, .error (.unreachable "no route"), active, config, false, 0,
        fun _ _ => none⟩
    let history : List (Visit × Option Nat) := [(visit 767, some 1)]
    (leftBy reply history .empty).ledger = [⟨767, .connectionError⟩] ∧
      ∀ v ∈ [767, 768], (visit 771).outcome reply v ≠ .success := by
  intro reply config visit history
  have h : ((visit 771).run reply (leftBy reply history .empty)).1 =
      .error (.exhausted (visit 771).endpoint.text none [767, 768]) := rfl
  have hnone : ∀ p ∈ history, ∀ v ∈ [767, 768],
      ¬ p.1.Misleads reply (leftBy reply history .empty) (visit 771) v := by
    intro p hp v _ hmisleads
    rw [List.mem_singleton.mp hp] at hmisleads
    exact hmisleads.failed hmisleads.accepted
  exact ⟨rfl, (exhausted_honest_iff reply history (visit 771) rfl h).1.mpr hnone⟩

/-- A run gives up on a server that accepts the only candidate, on the word of a run that crashed
at another server. -/
theorem exhausted_not_honest :
    ¬ ∀ (reply : Endpoint → Version → Reply) (history : List (Visit × Option Nat)) (b : Visit)
        (server : String) (reported : Option Version) (tried : List Version),
        b.force = false → (leftBy reply history .empty).record = none →
        (b.run reply (leftBy reply history .empty)).1 =
          .error (.exhausted server reported tried) →
        ∀ v ∈ tried, b.outcome reply v ≠ .success := by
  intro h
  let old : Endpoint := ⟨"old.example", 25565⟩
  let new : Endpoint := ⟨"new.example", 25565⟩
  let reply (e : Endpoint) (_ : Version) : Reply :=
    .answered 0 (if e = new then .ok () else .error (.incompatibleVersion "outdated"))
  let config : Config := { Config.standard with defaults := [767] }
  let visit (e : Endpoint) : Visit :=
    ⟨e, .error (.unreachable "no route"), 767, config, false, 0, fun _ _ => none⟩
  exact h reply [(visit old, some 1)] (visit new) new.text none [767] rfl rfl rfl 767
    (List.mem_cons_self ..) rfl

end

end Pickaxe.Negotiation
