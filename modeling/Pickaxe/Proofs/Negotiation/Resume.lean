import Pickaxe.Proofs.Negotiation.Walk

/-! Runs that pick up where crashed ones stopped.

A crash leaves what a run wrote so far: trials without a verdict, a success that is not on record
yet, or nothing but failures. Against servers that answer in a fixed way all of this is true
(`Resumable`), and stays true through every change that a run makes. Passing over versions that
failed before then takes nothing from a run but time: after any crashes it comes to what it
would have come to on an empty store. -/
namespace Pickaxe.Negotiation

open Packet (Version)
open Server (Endpoint)

namespace Controller

variable {σ : Type}

/-! ### What crashed runs leave behind -/

/-- What a negotiation with fixed answers may find in its store: trials as they would count again,
and on record the first candidate that is accepted. -/
structure Resumable (c : Controller σ Servers) (m : MemoryStore) : Prop where
  ledger : ∀ a ∈ m.ledger, a = c.entry a.candidate
  record : ∀ r, m.record = some r → c.listed.find? c.accepts = some r.version

/-- A change that a negotiation with fixed answers may make. -/
def Sound (c : Controller σ Servers) : Change → Prop
  | .append a => a = c.entry a.candidate
  | .saveRecord r => c.listed.find? c.accepts = some r.version
  | .deleteRecord | .clearLedger => True

theorem resumable_empty (c : Controller σ Servers) : Resumable c .empty :=
  ⟨fun _ ha => (nomatch ha), fun _ hr => nomatch hr⟩

theorem resumable_change (c : Controller σ Servers) {m : MemoryStore} (hm : Resumable c m)
    (change : Change) (hc : Sound c change) : Resumable c (change.apply m).2 := by
  cases change with
  | saveRecord r => exact ⟨hm.ledger, fun _ hr => Option.some.inj hr ▸ hc⟩
  | deleteRecord => exact ⟨hm.ledger, fun _ hr => nomatch hr⟩
  | append a =>
    refine ⟨fun b hb => ?_, hm.record⟩
    rcases List.mem_append.mp hb with hb | hb
    · exact hm.ledger b hb
    · rw [List.mem_singleton.mp hb]
      exact hc
  | clearLedger => exact ⟨fun _ ha => (nomatch ha), hm.record⟩

theorem resumable_replay (c : Controller σ Servers) (changes : List Change) {m : MemoryStore}
    (hm : Resumable c m) (hc : ∀ change ∈ changes, Sound c change) :
    Resumable c (replay changes m) := by
  induction changes generalizing m with
  | nil => exact hm
  | cons change rest ih =>
    exact ih (resumable_change c hm change (hc change (List.mem_cons_self ..)))
      (fun other hother => hc other (List.mem_cons_of_mem change hother))

/-- A version that the ledger holds a failure of would fail again. -/
theorem not_accepts_of_ruledOut (c : Controller σ Servers) {m : MemoryStore}
    (hm : Resumable c m) {v : Version} (hv : v ∈ ruledOut m.ledger) : c.accepts v = false := by
  obtain ⟨a, ha, rfl⟩ := List.mem_map.mp hv
  obtain ⟨hmem, hfailed⟩ := List.mem_filter.mp ha
  have houtcome : a.outcome = (c.entry a.candidate).outcome :=
    congrArg Attempt.outcome (hm.ledger a hmem)
  have hne : a.outcome ≠ .success := by simpa using hfailed
  rw [houtcome] at hne
  exact decide_eq_false hne

/-- The ledger hides no version that would be accepted. -/
theorem find_remaining (c : Controller σ Servers) {m : MemoryStore} (hm : Resumable c m) :
    (c.remaining m.ledger).find? c.accepts = c.listed.find? c.accepts := by
  unfold remaining
  rw [List.find?_filter]
  congr 1
  funext v
  cases hv : c.accepts v with
  | false => simp
  | true =>
    have hkept : v ∉ ruledOut m.ledger := by
      intro hout
      rw [not_accepts_of_ruledOut c hm hout] at hv
      cases hv
    simp [hkept]

/-- Neither the store nor the active version has a say in what a negotiation may find. -/
theorem Resumable.renew {servers : Servers} {e : Endpoint} {config : Config} {s t : σ}
    {active other : Version} {m : MemoryStore}
    (hm : Resumable (.new s servers e active config : Controller σ Servers) m) :
    Resumable (.new t servers e other config : Controller σ Servers) m :=
  ⟨hm.ledger, hm.record⟩

/-- What a negotiation comes to, in one sentence: the first candidate that is accepted, if there
is one. -/
def verdict (c : Controller σ Servers) : Except Error Version :=
  match c.listed.find? c.accepts with
  | some v => .ok v
  | none => .error (.exhausted c.endpoint.text c.reported c.listed)

theorem verdict_ne_store (c : Controller σ Servers) (fault : StoreError) :
    c.verdict ≠ .error (.store fault) := by
  unfold verdict
  cases c.listed.find? c.accepts <;> exact fun h => nomatch h

/-! ### One run -/

variable [Store σ] {holds : σ → MemoryStore → Prop}

/-- Every change of a run is a sound one. -/
theorem changes_sound (h : Simulation holds) (c : Controller σ Servers) {m : MemoryStore}
    (hs : holds c.store m) (hm : Resumable c m) (now : UInt64) :
    ∀ change ∈ changes false now c, Sound c change := by
  intro change hchange
  cases hr : m.record with
  | some r =>
    rw [changes_recorded h now c hs hr] at hchange
    cases hchange
  | none =>
    rw [changes_servers h c hs false now (.inr hr)] at hchange
    simp only [Bool.false_eq_true, if_false, List.nil_append, find_remaining c hm] at hchange
    rcases List.mem_append.mp hchange with happend | hlast
    · obtain ⟨v, -, rfl⟩ := List.mem_map.mp happend
      rfl
    · rw [List.mem_singleton.mp hlast]
      cases hfind : c.listed.find? c.accepts with
      | some v => exact hfind
      | none => trivial

theorem onRecord_eq (h : Simulation holds) {s : σ} {m : MemoryStore} (hs : holds s m) :
    onRecord s = .ok (m.record.map Record.version) := by
  rw [onRecord, h.loadRecord _ _ hs]
  rfl

/-- From a store that it may find, a run comes to its verdict. -/
theorem run_resumable (h : Simulation holds) (c : Controller σ Servers) {m : MemoryStore}
    (hs : holds c.store m) (hm : Resumable c m) (now : UInt64) :
    let r := run false now c
    r.1.map Outcome.version = c.verdict ∧ onRecord r.2.store = .ok (c.listed.find? c.accepts) := by
  intro r
  cases hrecord : m.record with
  | some stored =>
    have hfind := hm.record stored hrecord
    have hr : r = (.ok ⟨stored.version, .persisted, 0⟩,
        { c with active := stored.version, stage := .confirmed stored.version }) :=
      run_recorded h now c hs hrecord
    rw [hr, verdict, hfind]
    refine ⟨rfl, ?_⟩
    rw [onRecord_eq h hs, hrecord]
    rfl
  | none =>
    have hsame : (c.remaining (if false then [] else m.ledger)).find? c.accepts =
        c.listed.find? c.accepts := find_remaining c hm
    cases hfind : c.listed.find? c.accepts with
    | some v =>
      obtain ⟨hresult, -, -, hafter⟩ :=
        run_accepted h c hs false now (.inr hrecord) (hsame.trans hfind)
      rw [verdict, hfind, hresult, onRecord_eq h hafter]
      exact ⟨rfl, rfl⟩
    | none =>
      obtain ⟨hresult, -, -, hafter⟩ :=
        run_refused h c hs false now (.inr hrecord) (hsame.trans hfind)
      rw [verdict, hfind, hresult, onRecord_eq h hafter, hrecord]
      exact ⟨rfl, rfl⟩

/-! ### Crashes -/

/-- A run that is not forced, and that a crash cuts short. -/
structure Crash where
  /-- The version that was active before. -/
  active : Version
  now : UInt64
  /-- The changes to the store that the run had made. -/
  made : Nat

/-- What is left of a store by runs that crashed, one after another, each of a new controller. -/
def surviving (servers : Servers) (e : Endpoint) (config : Config) : List Crash → σ → σ
  | [], s => s
  | x :: rest, s =>
    surviving servers e config rest (crashed false x.now x.made (.new s servers e x.active config))

theorem surviving_resumable (h : Simulation holds) (servers : Servers) (e : Endpoint)
    (config : Config) (crashes : List Crash) (s : σ) (active : Version) {m : MemoryStore}
    (hs : holds s m) (hm : Resumable (.new s servers e active config : Controller σ Servers) m) :
    ∃ m', holds (surviving servers e config crashes s) m' ∧
      Resumable (.new (surviving servers e config crashes s) servers e active config :
        Controller σ Servers) m' := by
  induction crashes generalizing s m with
  | nil => exact ⟨m, hs, hm⟩
  | cons x rest ih =>
    let c : Controller σ Servers := .new s servers e x.active config
    let made := (changes false x.now c).take x.made
    have hsound : ∀ change ∈ made, Sound c change := fun change hchange =>
      changes_sound h c hs hm.renew x.now change (List.mem_of_mem_take hchange)
    have hleft : holds (replay made s) (replay made m) := h.replay made hs
    have hresumable : Resumable c (replay made m) := resumable_replay c made hm.renew hsound
    exact ih (replay made s) hleft hresumable.renew

/-- **Crashes do not change what a negotiation comes to.** However many runs crashed before it,
each at any point between two calls of the store, a run on what they left comes to what a run on
an empty store comes to: the same version, returned and on record, or the same error with the
same list of refused versions. -/
theorem run_after_crashes (h : Simulation holds) (servers : Servers) (e : Endpoint)
    (config : Config) {s : σ} (hs : holds s .empty) (crashes : List Crash)
    (active active' : Version) (now now' : UInt64) :
    let fresh := run false now (.new s servers e active config)
    let left := surviving servers e config crashes s
    let resumed := run false now' (.new left servers e active' config)
    resumed.1.map Outcome.version = fresh.1.map Outcome.version ∧
      onRecord resumed.2.store = onRecord fresh.2.store ∧
      ∀ fault, resumed.1 ≠ .error (.store fault) := by
  intro fresh left resumed
  let first : Controller σ Servers := .new s servers e active config
  obtain ⟨m, hleft, hm⟩ :=
    surviving_resumable h servers e config crashes s active hs (resumable_empty first)
  obtain ⟨hfresh, hfreshRecord⟩ := run_resumable h first hs (resumable_empty first) now
  obtain ⟨hresumed, hresumedRecord⟩ := run_resumable h
    (.new left servers e active' config) hleft hm.renew now'
  refine ⟨hresumed.trans hfresh.symm, hresumedRecord.trans hfreshRecord.symm, ?_⟩
  intro fault hfault
  have hverdict : first.verdict = .error (.store fault) := by
    rw [← show resumed.1.map Outcome.version = first.verdict from hresumed, hfault]
    rfl
  exact verdict_ne_store first fault hverdict

/-- Three crashes of a negotiation that tries three versions before it is accepted: after the
first trial, before the record is saved, and before anything is written. -/
theorem run_after_crashes_thrice :
    let servers := Servers.accepting 769
    let e : Endpoint := ⟨"localhost", 25565⟩
    let crashes : List Crash := [⟨767, 0, 1⟩, ⟨767, 0, 3⟩, ⟨765, 0, 0⟩]
    let left := surviving servers e .standard crashes MemoryStore.empty
    left = ⟨none, [⟨767, .incompatibleClient⟩, ⟨768, .incompatibleClient⟩,
        ⟨766, .incompatibleClient⟩, ⟨769, .success⟩]⟩ ∧
      (run false 0 (.new left servers e 767 .standard)).1.map Outcome.version = .ok 769 := by
  intro servers e crashes left
  refine ⟨by decide +kernel, ?_⟩
  have h := run_after_crashes Simulation.refl servers e .standard (s := MemoryStore.empty) rfl
    crashes 767 767 0 0
  rw [h.1]
  rfl

end Controller

end Pickaxe.Negotiation
