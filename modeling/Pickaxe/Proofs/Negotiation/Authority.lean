import Pickaxe.Proofs.Negotiation.Turns

/-! What may change the record, and what the record decides.

Over any lawful store, whichever calls fail, whatever the servers answer and wherever runs crash:
the record changes only when a trial of the very run that changes it has succeeded at the version
that is put on record, or when it is deleted (`Turn.leaves_record`). A run that reads a record does
nothing but take its version, so what a run has returned is what runs return from then on, until
one is forced or the record is deleted (`record_authority`). -/
namespace Pickaxe.Negotiation

open Packet (Version)
open Server (Endpoint)

variable {σ ν : Type} [Store σ]

/-! ### Changes with a trial behind them -/

/-- A change that a run may make after what it has heard: no record without a trial that succeeded
at its version. -/
def Backed (e : Endpoint) (limit : Duration) (now : UInt64) (heard : List Exchange) : Change → Prop
  | .saveRecord r => ∃ v reply, .connect e v reply ∈ heard ∧
      Trial.outcome limit reply = .success ∧ r = ⟨v, now, some e.text⟩
  | .deleteRecord => False
  | .append _ | .clearLedger => True

section
variable {e : Endpoint} {limit : Duration} {now : UInt64} {heard heard' : List Exchange}
  {changes : List Change} {result : Except Error Outcome}

theorem Backed.mono {change : Change} (h : Backed e limit now heard change)
    (hsub : ∀ x ∈ heard, x ∈ heard') : Backed e limit now heard' change := by
  cases change with
  | saveRecord r =>
    obtain ⟨v, reply, hmem, hsuccess, hr⟩ := h
    exact ⟨v, reply, hsub _ hmem, hsuccess, hr⟩
  | deleteRecord => exact h
  | append _ | clearLedger => trivial

theorem backed_saved (v : Version) {reply : Reply} (h : Trial.outcome limit reply = .success) :
    ∀ change ∈ [.append ⟨v, .success⟩, .saveRecord ⟨v, now, some e.text⟩],
      Backed e limit now [.connect e v reply] change := by
  intro change hchange
  rcases List.mem_cons.mp hchange with rfl | hchange
  · trivial
  · rw [List.mem_singleton.mp hchange]
    exact ⟨v, reply, List.mem_singleton_self _, h, rfl⟩

theorem Walked.backed {left : List Version} {s : σ}
    (h : Walked e limit now left s heard changes result) :
    ∀ change ∈ changes, Backed e limit now heard change := by
  induction h with
  | exhausted | unforgotten | unwritten => simp [Backed]
  | failed v reply _ _ _ ih =>
    intro change hchange
    rcases List.mem_cons.mp hchange with rfl | hchange
    · trivial
    · exact (ih change hchange).mono fun _ hx => List.mem_cons_of_mem _ hx
  | unsaved v _ _ _ _ hsuccess => exact backed_saved v hsuccess
  | accepted v _ _ _ _ hsuccess => exact backed_saved v hsuccess

theorem Discovered.backed {s : σ} (h : Discovered e limit now s heard changes result) :
    ∀ change ∈ changes, Backed e limit now heard change := by
  cases h with
  | unlisted => simp
  | walked answer all ledger _ _ hwalk =>
    exact fun change hchange =>
      (hwalk.backed change hchange).mono fun _ hx => List.mem_cons_of_mem _ hx

/-- Whatever way a run goes, there is a trial behind each record that it saves. -/
theorem Ran.backed {force : Bool} {s : σ} (h : Ran e limit now force s heard changes result) :
    ∀ change ∈ changes, Backed e limit now heard change := by
  cases h with
  | unread | recorded => simp
  | unrecorded _ hrest => exact hrest.backed
  | uncleared => simp [Backed]
  | forced _ hrest =>
    intro change hchange
    rcases List.mem_cons.mp hchange with rfl | hchange
    · trivial
    · exact hrest.backed change hchange

end

/-- A run that is not forced asks nobody and changes nothing unless it reads that there is no
record. -/
theorem Ran.of_recorded {e : Endpoint} {limit : Duration} {now : UInt64} {heard : List Exchange}
    {changes : List Change} {result : Except Error Outcome} {s : σ}
    (h : Ran e limit now false s heard changes result)
    (hload : Store.loadRecord s ≠ .ok none) : heard = [] ∧ changes = [] := by
  cases h with
  | unread | recorded => exact ⟨rfl, rfl⟩
  | unrecorded hnone => exact absurd hnone hload

/-! ### What changes leave on record -/

section
variable [LawfulStore σ]

/-- The record is what it was, or what one of the changes made of it. -/
theorem Faulty.record_replay (changes : List Change) (s : Faulty σ) :
    let after := Store.loadRecord (replay changes s).inner
    after = Store.loadRecord s.inner ∨ (∃ r, .saveRecord r ∈ changes ∧ after = .ok (some r)) ∨
      (.deleteRecord ∈ changes ∧ after = .ok none) := by
  intro after
  induction changes generalizing s with
  | nil => exact .inl rfl
  | cons change rest ih =>
    rcases ih (change.apply s).2 with hsame | ⟨r, hr, hafter⟩ | ⟨hdelete, hafter⟩
    · have hsame : after = Store.loadRecord (change.apply s).2.inner := hsame
      rcases Faulty.made_or_unchanged change s with hmade | hunchanged
      · have hrecord := hmade.record
        cases change with
        | saveRecord r => exact .inr (.inl ⟨r, List.mem_cons_self .., hsame.trans hrecord⟩)
        | deleteRecord => exact .inr (.inr ⟨List.mem_cons_self .., hsame.trans hrecord⟩)
        | append _ | clearLedger => exact .inl (hsame.trans hrecord)
      · exact .inl (hsame.trans hunchanged.record)
    · exact .inr (.inl ⟨r, List.mem_cons_of_mem _ hr, hafter⟩)
    · exact .inr (.inr ⟨List.mem_cons_of_mem _ hdelete, hafter⟩)

variable {e : Endpoint} {limit : Duration} {now : UInt64} {heard : List Exchange}
  {changes : List Change} {o : Outcome}

theorem Discovered.onRecord {s : Faulty σ}
    (h : Discovered e limit now s heard changes (.ok o)) :
    Controller.onRecord (replay changes s).inner = .ok (some o.version) := by
  obtain ⟨before, hsaved, hlast⟩ := h.saved
  rw [hlast, Controller.onRecord, show Store.loadRecord _ = _ from (Faulty.made _ _ hsaved).record]
  rfl

/-- **A run that returns a version leaves it on record.** -/
theorem Ran.onRecord {force : Bool} {s : Faulty σ}
    (h : Ran e limit now force s heard changes (.ok o)) :
    Controller.onRecord (replay changes s).inner = .ok (some o.version) := by
  cases h with
  | recorded _ r hload =>
    rw [replay, Controller.onRecord, Faulty.loadRecord_inner hload]
    rfl
  | unrecorded _ hrest => exact hrest.onRecord
  | forced _ hrest => exact hrest.onRecord

end

/-! ### Turns that find a record -/

theorem Controller.onRecord_some {s : σ} {v : Version} (h : onRecord s = .ok (some v)) :
    ∃ r, Store.loadRecord s = .ok (some r) ∧ r.version = v := by
  unfold onRecord at h
  cases hload : Store.loadRecord s with
  | error fault =>
    rw [hload] at h
    cases h
  | ok record =>
    rw [hload] at h
    cases record with
    | none => cases h
    | some r =>
      cases h
      exact ⟨r, rfl, rfl⟩

variable [Network ν]

namespace Turn

/-- A run that is not forced and reads a record takes its version, and does nothing else. -/
theorem take_recorded (x : Turn ν) (s : σ) (hx : x.command = .run false) {r : Record}
    (hload : Store.loadRecord (x.start (x.onto s)).store = .ok (some r)) :
    x.take (x.onto s) = (.ok (some ⟨r.version, .persisted, 0⟩),
        { x.onto s with active := r.version, stage := .confirmed r.version }) ∧
      x.heard (x.onto s) = [] ∧ x.writes (x.onto s) = [] := by
  have hrun := Controller.run_of_loadRecord x.now (x.start (x.onto s)) hload
  have hran := (x.start (x.onto s)).run_ran false x.now
  have hsome : Store.loadRecord (x.start (x.onto s)).store ≠ .ok none := by
    rw [hload]
    simp
  refine ⟨?_, ?_⟩
  · simp only [Step.take, hx, Controller.perform, hrun]
    rfl
  · rw [Step.heard, Step.writes, hx]
    exact hran.of_recorded hsome

/-- It leaves the record alone also if it cannot read it or crashes. -/
theorem leaves_recorded (x : Turn ν) {s : σ} (hx : x.command = .run false) {r : Record}
    (hs : Store.loadRecord s = .ok (some r)) : x.leaves s = s := by
  have hsome : Store.loadRecord (x.start (x.onto s)).store ≠ .ok none := fun hnone =>
    nomatch hs.symm.trans (Faulty.loadRecord_inner hnone)
  have hwrites : x.writes (x.onto s) = [] := by
    rw [Step.writes, hx]
    exact ((x.start (x.onto s)).run_ran false x.now |>.of_recorded hsome).2
  have hmade : x.made s = [] := by
    unfold made
    rw [hwrites]
    cases x.crash with
    | none => rfl
    | some made => exact List.take_nil
  rw [leaves, hmade]
  rfl

end Turn

theorem takeTurns_recorded (later : List (Turn ν)) (hlater : ∀ x ∈ later, x.command = .run false)
    {s : σ} {r : Record} (hs : Store.loadRecord s = .ok (some r)) : takeTurns later s = s := by
  induction later with
  | nil => rfl
  | cons x rest ih =>
    rw [takeTurns, x.leaves_recorded (hlater x (List.mem_cons_self ..)) hs]
    exact ih fun y hy => hlater y (List.mem_cons_of_mem x hy)

/-! ### All turns -/

variable [LawfulStore σ]

namespace Turn

/-- **What may change the record**: a cleaning, which deletes it, or a run with a trial that
succeeded at the version that it puts on record. -/
theorem leaves_record (x : Turn ν) (s : σ)
    (hchanged : Store.loadRecord (x.leaves s) ≠ Store.loadRecord s) :
    (x.command = .clean ∧ Store.loadRecord (x.leaves s) = .ok none) ∨
      ∃ force v reply, x.command = .run force ∧
        .connect x.controller.endpoint v reply ∈ x.heard (x.onto s) ∧
        Trial.outcome x.controller.config.trialTimeout reply = .success ∧
        Store.loadRecord (x.leaves s) = .ok (some ⟨v, x.now, some x.controller.endpoint.text⟩) := by
  let c := x.start (x.onto s)
  have hrun : ∀ force, x.command = .run force → ∀ change ∈ x.made s,
      Backed c.endpoint c.config.trialTimeout x.now (x.heard (x.onto s)) change := by
    intro force hforce change hchange
    have hran := c.run_ran force x.now
    rw [← hforce] at hran
    exact hran.backed change (mem_writes_of_mem_made hchange)
  have hclean : x.command = .clean → ∀ r, .saveRecord r ∉ x.made s := by
    intro hcommand r hr
    have hwrites : .saveRecord r ∈ c.writes x.command x.now := mem_writes_of_mem_made hr
    rw [hcommand] at hwrites
    rcases c.clean_writes x.now with h | h <;> simp [h] at hwrites
  rcases Faulty.record_replay (x.made s) c.store with hsame | ⟨r, hr, hafter⟩ | ⟨hdelete, hafter⟩
  · exact absurd hsame hchanged
  · cases hcommand : x.command with
    | clean => exact absurd hr (hclean hcommand r)
    | run force =>
      obtain ⟨v, reply, hheard, hsuccess, rfl⟩ := hrun force hcommand _ hr
      exact .inr ⟨force, v, reply, rfl, hheard, hsuccess, hafter⟩
  · cases hcommand : x.command with
    | clean => exact .inl ⟨rfl, hafter⟩
    | run force => exact (hrun force hcommand _ hdelete).elim

/-- A run that returns a version, and does not crash, leaves it on record. -/
theorem leaves_onRecord (x : Turn ν) (s : σ) {force : Bool} (hx : x.command = .run force)
    (hcrash : x.crash = none) {o : Outcome} (hok : (x.take (x.onto s)).1 = .ok (some o)) :
    Controller.onRecord (x.leaves s) = .ok (some o.version) := by
  have hran := (x.start (x.onto s)).run_ran force x.now
  have hresult : (Controller.run force x.now (x.start (x.onto s))).1 = .ok o := by
    simp only [Step.take, hx, Controller.perform] at hok
    cases hrun : (Controller.run force x.now (x.start (x.onto s))).1 with
    | error fault =>
      rw [hrun] at hok
      cases hok
    | ok o' =>
      rw [hrun] at hok
      cases hok
      rfl
  rw [hresult] at hran
  rw [leaves, made, hcrash, Step.writes, hx]
  exact hran.onRecord

end Turn

/-- **The record decides.** After any turns of any controllers on a store:

* a turn changes the record only by deleting it, or as a run with a trial that has succeeded at the
  version that is put on record;
* a run that is not forced and reads a record returns its version and makes it the active one,
  without a trial, a question to the network or a change of the store;
* once a run has returned a version, runs that are not forced and can read the record return this
  version without a trial, whatever the servers answer by then. -/
theorem record_authority (history : List (Turn ν)) (s : σ) (x : Turn ν) :
    let found := takeTurns history s
    let c := x.onto found
    (Store.loadRecord (x.leaves found) ≠ Store.loadRecord found →
      (x.command = .clean ∧ Store.loadRecord (x.leaves found) = .ok none) ∨
        ∃ force v reply, x.command = .run force ∧
          .connect x.controller.endpoint v reply ∈ x.heard c ∧
          Trial.outcome x.controller.config.trialTimeout reply = .success ∧
          Store.loadRecord (x.leaves found) =
            .ok (some ⟨v, x.now, some x.controller.endpoint.text⟩)) ∧
    (∀ r, x.command = .run false → Store.loadRecord (x.start c).store = .ok (some r) →
      x.take c = (.ok (some ⟨r.version, .persisted, 0⟩),
          { c with active := r.version, stage := .confirmed r.version }) ∧
        x.heard c = [] ∧ x.writes c = []) ∧
    ∀ force o, x.command = .run force → x.crash = none → (x.take c).1 = .ok (some o) →
      ∀ (later : List (Turn ν)) (y : Turn ν), (∀ z ∈ y :: later, z.command = .run false) →
        let left := takeTurns later (x.leaves found)
        (∀ fault, Store.loadRecord (y.start (y.onto left)).store ≠ .error fault) →
        (y.take (y.onto left)).1 = .ok (some ⟨o.version, .persisted, 0⟩) := by
  intro found c
  refine ⟨x.leaves_record found, fun r hx hload => x.take_recorded found hx hload, ?_⟩
  intro force o hx hcrash hok later y hcommands left hreads
  obtain ⟨r, hrecord, hversion⟩ :=
    Controller.onRecord_some (x.leaves_onRecord found hx hcrash hok)
  have hleft : left = x.leaves found :=
    takeTurns_recorded later (fun z hz => hcommands z (List.mem_cons_of_mem y hz)) hrecord
  have hload : Store.loadRecord (y.start (y.onto left)).store = .ok (some r) := by
    cases hread : Store.loadRecord (y.start (y.onto left)).store with
    | error fault => exact absurd hread (hreads fault)
    | ok record =>
      have hinner : Store.loadRecord left = .ok record := Faulty.loadRecord_inner hread
      rw [hleft, hrecord] at hinner
      rw [Except.ok.inj hinner]
  rw [(y.take_recorded left (hcommands y (List.mem_cons_self ..)) hload).1, hversion]

/-- A forced run replaces the record 767 by 769, in spite of a run before it that cannot read the
record. Its server then accepts nothing more, and a run whose calls fail comes between. -/
theorem record_authority_replaced :
    let sound (_ : Nat) (_ : StoreCall) : Option StoreError := none
    let unreadable (_ : Nat) (call : StoreCall) :=
      if call = .loadRecord then some (StoreError.io "permission denied") else none
    let turn (command : Command) (fault : Nat → StoreCall → Option StoreError) (n : Servers) :
        Turn Servers := ⟨⟨command, 7, fault⟩, .new () n ⟨"localhost", 25565⟩ 765 .standard, none⟩
    let blocked := turn (.run false) unreadable (.accepting 769)
    let forced := turn (.run true) sound (.accepting 769)
    let later := turn (.run false) sound (.accepting 0)
    let start : MemoryStore := ⟨some ⟨767, 0, none⟩, []⟩
    let found := takeTurns [blocked] start
    let left := takeTurns [blocked] (forced.leaves found)
    (∃ force v reply, forced.command = .run force ∧
        .connect ⟨"localhost", 25565⟩ v reply ∈ forced.heard (forced.onto found) ∧
        Trial.outcome forced.controller.config.trialTimeout reply = .success ∧
        Store.loadRecord (forced.leaves found) =
          .ok (some ⟨v, 7, some forced.controller.endpoint.text⟩)) ∧
      (later.take (later.onto left)).1 = .ok (some ⟨769, .persisted, 0⟩) ∧
      later.heard (later.onto left) = [] := by
  intro sound unreadable turn blocked forced later start found left
  obtain ⟨hchange, -, hlast⟩ := record_authority [blocked] start forced
  have hmade : Store.loadRecord (forced.leaves found) =
      .ok (some ⟨769, 7, some forced.controller.endpoint.text⟩) := rfl
  have hchanged : Store.loadRecord (forced.leaves found) ≠ Store.loadRecord found := by
    rw [hmade, show Store.loadRecord found = .ok (some ⟨767, 0, none⟩) from rfl]
    intro h
    cases h
  obtain ⟨hclean, -⟩ | hrun := hchange hchanged
  · cases hclean
  have hcommands : ∀ z ∈ [later, blocked], z.command = .run false := by
    intro z hz
    rcases List.mem_cons.mp hz with rfl | hz
    · rfl
    · rw [List.mem_singleton.mp hz]
  have hreads : ∀ fault, Store.loadRecord (later.start (later.onto left)).store ≠ .error fault :=
    fun fault h => by cases h
  obtain ⟨-, hrecorded, -⟩ := record_authority [blocked, forced, blocked] start later
  exact ⟨hrun, hlast true ⟨769, .discovered, 4⟩ rfl rfl rfl [blocked] later hcommands hreads,
    (hrecorded ⟨769, 7, some forced.controller.endpoint.text⟩ rfl rfl).2.1⟩

end Pickaxe.Negotiation
