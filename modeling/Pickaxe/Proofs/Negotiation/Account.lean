import Pickaxe.Proofs.Negotiation.Candidates
import Pickaxe.Proofs.Negotiation.Run
import Pickaxe.Proofs.Negotiation.Trials

/-! What a controller asks of the network and of its store, in full.

Watched, a controller does what it does (`perform_watched`), and all that it hears and all the
changes that it asks for are written down. Every run goes one of a few ways (`Ran`), whatever the
store and the network do, and what is true of all of them is true of every run. -/
namespace Pickaxe.Negotiation

open Packet (Version)
open Server (Endpoint)

variable {σ τ ν μ : Type}

/-! ### Networks that are listened to -/

/-- A question to the network, and the answer. -/
inductive Exchange where
  | ping (e : Endpoint) (answer : Except PingError Server.Status)
  | connect (e : Endpoint) (version : Version) (reply : Reply)

/-- The versions that were tried, in their order. -/
def tried : List Exchange → List Version
  | [] => []
  | .ping .. :: rest => tried rest
  | .connect _ version _ :: rest => version :: tried rest

/-- A network with what was heard of it, the latest last. -/
structure Watched (ν : Type) where
  inner : ν
  heard : List Exchange

namespace Watched

variable [Network ν]

instance : Network (Watched ν) where
  ping e w :=
    let (answer, inner) := Network.ping e w.inner
    (answer, ⟨inner, w.heard ++ [.ping e answer]⟩)
  connect e v w :=
    let (reply, inner) := Network.connect e v w.inner
    (reply, ⟨inner, w.heard ++ [.connect e v reply]⟩)

theorem echoes : Echoes fun (n : ν) (w : Watched ν) => w.inner = n where
  ping := fun e n w h => by
    subst h
    exact ⟨rfl, rfl⟩
  connect := fun e v n w h => by
    subst h
    exact ⟨rfl, rfl⟩

end Watched

/-! ### Commands -/

/-- What a controller is told to do. -/
inductive Command where
  | run (force : Bool)
  | clean
deriving DecidableEq, Repr

namespace Controller

variable [Store σ] [Store τ] [Network ν] [Network μ]

/-- Does what it is told, at time `now`. A cleaning has no outcome. -/
def perform (command : Command) (now : UInt64) (c : Controller σ ν) :
    Except Error (Option Outcome) × Controller σ ν :=
  match command with
  | .run force => ((run force now c).1.map some, (run force now c).2)
  | .clean => ((clean c).1.map fun _ => none, (clean c).2)

theorem perform_alike {e : Endpoint} {config : Config} {earlier : Duration}
    {stores : σ → τ → Prop} {networks : ν → μ → Prop} {now now' : UInt64}
    {c : Controller σ ν} {d : Controller τ μ} (hn : Echoes networks)
    (hc : Alike e config earlier stores networks c d) (h : Mirrors now now' stores)
    (command : Command)
    (hreads : command = .run false → ∀ s t, stores s t → onRecord s = onRecord t) :
    Agree (Alike e config earlier stores networks) (perform command now c)
      (perform command now' d) := by
  cases command with
  | run force =>
    obtain ⟨hresult, hafter⟩ :=
      run_alike hn hc h force fun hforce => hreads (congrArg Command.run hforce)
    exact ⟨congrArg (Except.map some) hresult, hafter⟩
  | clean =>
    obtain ⟨hresult, hafter⟩ := clean_alike h hc
    exact ⟨congrArg (Except.map fun _ => none) hresult, hafter⟩

/-- The same controller, over a store and a network that write down what happens. -/
def watched (c : Controller σ ν) : Controller (Logged σ) (Watched ν) :=
  { c with store := ⟨c.store, []⟩, network := ⟨c.network, []⟩ }

/-- The changes that it asks for, in their order. -/
def writes (command : Command) (now : UInt64) (c : Controller σ ν) : List Change :=
  (perform command now c.watched).2.store.changes

/-- What it asks the network, in this order, and hears. -/
def heard (command : Command) (now : UInt64) (c : Controller σ ν) : List Exchange :=
  (perform command now c.watched).2.network.heard

omit [Network ν] in
theorem alike_watched (c : Controller σ ν) : Alike c.endpoint c.config 0
    (fun s (t : Logged σ) => t.inner = s ∧ replay t.changes c.store = s)
    (fun n (w : Watched ν) => w.inner = n) c c.watched :=
  ⟨⟨rfl, rfl⟩, rfl, ⟨rfl, rfl⟩, rfl, ⟨rfl, rfl⟩, rfl, (Nat.zero_add _).symm⟩

/-- **A controller that is watched does what it does**, what is written down leads from the store
that it found to the one that it leaves, and its server and settings stay. -/
theorem perform_watched (command : Command) (now : UInt64) (c : Controller σ ν) :
    (perform command now c.watched).1 = (perform command now c).1 ∧
      (perform command now c).2.store = replay (writes command now c) c.store ∧
      (perform command now c).2.endpoint = c.endpoint ∧
      (perform command now c).2.config = c.config := by
  obtain ⟨hresult, hafter⟩ := perform_alike Watched.echoes c.alike_watched
    ((Simulation.log c.store).mirrors now) command fun _ => onRecord_alike (Simulation.log c.store)
  exact ⟨hresult.symm, hafter.store.2.symm, hafter.endpoint.1, hafter.config.1⟩

section
variable {e : Endpoint} {config : Config} {earlier : Duration} {stores : σ → τ → Prop}
  {now now' : UInt64} {c : Controller σ ν} {d : Controller τ ν}

omit [Store σ] [Store τ] [Network ν] in
theorem Alike.watched (hc : Alike e config earlier stores (fun n m => n = m) c d) :
    Alike e config earlier (fun (s : Logged σ) (t : Logged τ) => stores s.inner t.inner)
      (fun n m => n = m) c.watched d.watched :=
  { hc with network := congrArg (Watched.mk · []) hc.network }

/-- Controllers that are alike and on one network ask and hear the same. -/
theorem heard_alike (hc : Alike e config earlier stores (fun n m => n = m) c d)
    (h : Mirrors now now' stores) (command : Command)
    (hreads : command = .run false → ∀ s t, stores s t → onRecord s = onRecord t) :
    c.heard command now = d.heard command now' := by
  obtain ⟨-, hafter⟩ := perform_alike Echoes.refl hc.watched h.logged command
    fun hcommand s t hst => hreads hcommand s.inner t.inner hst
  exact congrArg Watched.heard hafter.network

end

end Controller

/-! ### The ways of a run -/

section
variable [Store σ] (e : Endpoint) (limit : Duration) (now : UInt64)

/-- The ways of a walk through candidates on a store: what it hears, the changes that it asks for,
and how it ends. -/
inductive Walked : List Version → σ → List Exchange → List Change → Except Error Outcome → Prop
  /-- No candidate is left. -/
  | exhausted (s : σ) (reported : Option Version) (listed : List Version)
    (hcleared : (Change.clearLedger.apply s).1 = .ok ()) :
    Walked [] s [] [.clearLedger] (.error (.exhausted e.text reported listed))
  /-- No candidate is left, and the ledger cannot be cleared. -/
  | unforgotten (s : σ) (fault : StoreError)
    (hfault : (Change.clearLedger.apply s).1 = .error fault) :
    Walked [] s [] [.clearLedger] (.error (.store fault))
  /-- The trial cannot be put in the ledger. -/
  | unwritten (v : Version) (left : List Version) (s : σ) (reply : Reply) (fault : StoreError)
    (hfault : ((Change.append ⟨v, Trial.outcome limit reply⟩).apply s).1 = .error fault) :
    Walked (v :: left) s [.connect e v reply] [.append ⟨v, Trial.outcome limit reply⟩]
      (.error (.store fault))
  /-- The trial fails, and the walk goes on. -/
  | failed (v : Version) {left : List Version} {s : σ} (reply : Reply) {heard : List Exchange}
    {changes : List Change} {result : Except Error Outcome}
    (houtcome : Trial.outcome limit reply ≠ .success)
    (hwritten : ((Change.append ⟨v, Trial.outcome limit reply⟩).apply s).1 = .ok ())
    (hrest : Walked left ((Change.append ⟨v, Trial.outcome limit reply⟩).apply s).2 heard changes
      result) :
    Walked (v :: left) s (.connect e v reply :: heard)
      (.append ⟨v, Trial.outcome limit reply⟩ :: changes) result
  /-- The trial succeeds and cannot be put on record. -/
  | unsaved (v : Version) (left : List Version) (s : σ) (reply : Reply) (fault : StoreError)
    (houtcome : Trial.outcome limit reply = .success)
    (hwritten : ((Change.append ⟨v, .success⟩).apply s).1 = .ok ())
    (hfault : ((Change.saveRecord ⟨v, now, some e.text⟩).apply
      ((Change.append ⟨v, .success⟩).apply s).2).1 = .error fault) :
    Walked (v :: left) s [.connect e v reply]
      [.append ⟨v, .success⟩, .saveRecord ⟨v, now, some e.text⟩] (.error (.store fault))
  /-- The trial succeeds and is put on record. -/
  | accepted (v : Version) (left : List Version) (s : σ) (reply : Reply) (trials : Nat)
    (houtcome : Trial.outcome limit reply = .success)
    (hwritten : ((Change.append ⟨v, .success⟩).apply s).1 = .ok ())
    (hsaved : ((Change.saveRecord ⟨v, now, some e.text⟩).apply
      ((Change.append ⟨v, .success⟩).apply s).2).1 = .ok ()) :
    Walked (v :: left) s [.connect e v reply]
      [.append ⟨v, .success⟩, .saveRecord ⟨v, now, some e.text⟩] (.ok ⟨v, .discovered, trials⟩)

/-- The ways of a run that has to ask the server. -/
inductive Discovered : σ → List Exchange → List Change → Except Error Outcome → Prop
  /-- The ledger cannot be read. -/
  | unlisted (s : σ) (answer : Except PingError Server.Status) (fault : StoreError)
    (hload : Store.loadLedger s = .error fault) :
    Discovered s [.ping e answer] [] (.error (.store fault))
  /-- The candidates are tried that the ledger does not rule out. -/
  | walked {s : σ} (answer : Except PingError Server.Status) (all : List Version)
    (ledger : List Attempt) {heard : List Exchange} {changes : List Change}
    {result : Except Error Outcome} (hall : all.Nodup) (hload : Store.loadLedger s = .ok ledger)
    (hwalk : Walked e limit now (all.filter (· ∉ Controller.ruledOut ledger)) s heard changes
      result) :
    Discovered s (.ping e answer :: heard) changes result

/-- The ways of a run. -/
inductive Ran : Bool → σ → List Exchange → List Change → Except Error Outcome → Prop
  /-- The record cannot be read. -/
  | unread (s : σ) (fault : StoreError) (hload : Store.loadRecord s = .error fault) :
    Ran false s [] [] (.error (.store fault))
  /-- There is a record. -/
  | recorded (s : σ) (r : Record) (hload : Store.loadRecord s = .ok (some r)) :
    Ran false s [] [] (.ok ⟨r.version, .persisted, 0⟩)
  /-- There is none. -/
  | unrecorded {s : σ} {heard : List Exchange} {changes : List Change}
    {result : Except Error Outcome} (hload : Store.loadRecord s = .ok none)
    (hrest : Discovered e limit now s heard changes result) :
    Ran false s heard changes result
  /-- The run is forced, and the ledger cannot be cleared. -/
  | uncleared (s : σ) (fault : StoreError)
    (hfault : (Change.clearLedger.apply s).1 = .error fault) :
    Ran true s [] [.clearLedger] (.error (.store fault))
  /-- The run is forced. -/
  | forced {s : σ} {heard : List Exchange} {changes : List Change}
    {result : Except Error Outcome} (hcleared : (Change.clearLedger.apply s).1 = .ok ())
    (hrest : Discovered e limit now (Change.clearLedger.apply s).2 heard changes result) :
    Ran true s heard (.clearLedger :: changes) result

variable {e limit now} {heard : List Exchange} {changes : List Change} {o : Outcome}

/-- A walk that returns a version ends with its record. -/
theorem Walked.saved {left : List Version} {s : σ} {result : Except Error Outcome}
    (h : Walked e limit now left s heard changes result) (hok : result = .ok o) :
    ∃ before : σ, let save := (Change.saveRecord ⟨o.version, now, some e.text⟩).apply before
      save.1 = .ok () ∧ replay changes s = save.2 := by
  induction h with
  | exhausted | unforgotten | unwritten | unsaved => cases hok
  | failed _ _ _ _ _ ih => exact ih hok
  | accepted v left s reply trials _ _ hsaved =>
    cases hok
    exact ⟨_, hsaved, rfl⟩

theorem Discovered.saved {s : σ} (h : Discovered e limit now s heard changes (.ok o)) :
    ∃ before : σ, let save := (Change.saveRecord ⟨o.version, now, some e.text⟩).apply before
      save.1 = .ok () ∧ replay changes s = save.2 := by
  cases h with
  | walked answer all ledger _ _ hwalk => exact hwalk.saved rfl

end

namespace Controller

variable [Store σ]

/-- All that becomes of a trial. -/
theorem settle_logged (original : Version) (now : UInt64) (candidate : Version)
    (outcome : TrialOutcome) (trials : Nat) (c : Controller (Logged σ) ν) :
    let trial : Change := .append ⟨candidate, outcome⟩
    let save : Change := .saveRecord ⟨candidate, now, some c.endpoint.text⟩
    match settle original now candidate outcome trials c with
    | (none, c') => outcome ≠ .success ∧ (trial.apply c.store.inner).1 = .ok () ∧
      c' = { c with store := (Logged.make trial c.store).2 }
    | (some result, c') => c'.network = c.network ∧
      ((∃ fault, result = .error (.store fault) ∧ (trial.apply c.store.inner).1 = .error fault ∧
          c'.store.changes = c.store.changes ++ [trial]) ∨
        (outcome = .success ∧ (trial.apply c.store.inner).1 = .ok () ∧
          c'.store.changes = c.store.changes ++ [trial, save] ∧
          let saved := (save.apply (trial.apply c.store.inner).2).1
          ((∃ fault, result = .error (.store fault) ∧ saved = .error fault) ∨
            (result = .ok ⟨candidate, .discovered, trials⟩ ∧ saved = .ok ())))) := by
  intro trial save
  have htrial : Store.append ⟨candidate, outcome⟩ c.store = Logged.make trial c.store := rfl
  cases hmade : trial.apply c.store.inner with
  | mk result s =>
    simp only [settle, htrial, Logged.make, hmade]
    cases result with
    | error fault => exact ⟨rfl, .inl ⟨fault, rfl, rfl, rfl⟩⟩
    | ok =>
      by_cases hsuccess : outcome = .success
      · simp only [if_pos hsuccess, confirm]
        have hsave : Store.saveRecord ⟨candidate, now, some c.endpoint.text⟩
            (⟨s, c.store.changes ++ [trial]⟩ : Logged σ) =
              Logged.make save ⟨s, c.store.changes ++ [trial]⟩ := rfl
        have hchanges : c.store.changes ++ [trial] ++ [save] = c.store.changes ++ [trial, save] :=
          List.append_assoc ..
        cases hsaved : save.apply s with
        | mk result s' =>
          simp only [hsave, Logged.make, hsaved]
          cases result with
          | error fault => exact ⟨rfl, .inr ⟨hsuccess, trivial, hchanges, .inl ⟨fault, rfl, rfl⟩⟩⟩
          | ok => exact ⟨rfl, .inr ⟨hsuccess, trivial, hchanges, .inr ⟨rfl, rfl⟩⟩⟩
      · simp only [if_neg hsuccess]
        exact ⟨hsuccess, trivial, trivial⟩

/-- What is written down came about in one of these ways, and after what was written down before. -/
def Tells (ways : List Exchange → List Change → Except Error Outcome → Prop)
    (c : Controller (Logged σ) (Watched ν))
    (x : Except Error Outcome × Controller (Logged σ) (Watched ν)) : Prop :=
  ∃ heard changes, x.2.network.heard = c.network.heard ++ heard ∧
    x.2.store.changes = c.store.changes ++ changes ∧ ways heard changes x.1

variable [Network ν]

theorem walk_tells (original : Version) (now : UInt64) (reported : Option Version)
    (all left : List Version) (trials : Nat) (c : Controller (Logged σ) (Watched ν)) :
    Tells (Walked c.endpoint c.config.trialTimeout now left c.store.inner) c
      (walk original now reported all left trials c) := by
  induction left generalizing trials c with
  | nil =>
    have hclear : Store.clearLedger c.store = Logged.make .clearLedger c.store := rfl
    refine ⟨[], [.clearLedger], ?_⟩
    cases hmade : Change.clearLedger.apply c.store.inner with
    | mk result s =>
      simp only [walk, exhaust, hclear, Logged.make, hmade]
      cases result with
      | error fault =>
        exact ⟨(List.append_nil _).symm, rfl, .unforgotten _ fault (congrArg Prod.fst hmade)⟩
      | ok =>
        exact ⟨(List.append_nil _).symm, rfl, .exhausted _ _ _ (congrArg Prod.fst hmade)⟩
  | cons v left ih =>
    let reply := (Network.connect c.endpoint v c.network.inner).1
    have hsettle := settle_logged original now v (attempt v c).1 (trials + 1) (attempt v c).2
    simp only [walk]
    cases hcase : settle original now v (attempt v c).1 (trials + 1) (attempt v c).2 with
    | mk result c' =>
      rw [hcase] at hsettle
      cases result with
      | none =>
        obtain ⟨hfailed, hwritten, rfl⟩ := hsettle
        obtain ⟨heard, changes, hheard, hchanges, hrest⟩ := ih (trials + 1)
          { (attempt v c).2 with
            store := (Logged.make (.append ⟨v, (attempt v c).1⟩) (attempt v c).2.store).2 }
        refine ⟨.connect c.endpoint v reply :: heard, .append ⟨v, (attempt v c).1⟩ :: changes,
          ?_, ?_, .failed v reply hfailed hwritten hrest⟩
        · exact hheard.trans (List.append_assoc ..)
        · exact hchanges.trans (List.append_assoc ..)
      | some result =>
        obtain ⟨hnetwork, hways⟩ := hsettle
        have hheard : c'.network.heard = c.network.heard ++ [.connect c.endpoint v reply] :=
          congrArg Watched.heard hnetwork
        rcases hways with ⟨fault, rfl, hfault, hchanges⟩ | ⟨hsuccess, hwritten, hchanges, hend⟩
        · exact ⟨_, _, hheard, hchanges, .unwritten v left _ reply fault hfault⟩
        · rw [hsuccess] at hwritten hchanges hend
          rcases hend with ⟨fault, rfl, hfault⟩ | ⟨rfl, hsaved⟩
          · exact ⟨_, _, hheard, hchanges, .unsaved v left _ reply fault hsuccess hwritten hfault⟩
          · exact ⟨_, _, hheard, hchanges, .accepted v left _ reply _ hsuccess hwritten hsaved⟩

theorem discover_tells (now : UInt64) (c : Controller (Logged σ) (Watched ν)) :
    Tells (Discovered c.endpoint c.config.trialTimeout now c.store.inner) c (discover now c) := by
  let answer := (Network.ping c.endpoint c.network.inner).1
  have hload : Store.loadLedger (probe c).2.store = Store.loadLedger c.store.inner := rfl
  simp only [discover, survey, hload]
  cases hledger : Store.loadLedger c.store.inner with
  | error fault =>
    exact ⟨[.ping c.endpoint answer], [], rfl, (List.append_nil _).symm,
      .unlisted _ answer fault hledger⟩
  | ok ledger =>
    let all := candidates (probe c).1 c.config.defaults c.config.window
    obtain ⟨heard, changes, hheard, hchanges, hwalk⟩ := walk_tells (probe c).2.active now
      (probe c).1 all (all.filter (· ∉ ruledOut ledger)) 0 (probe c).2
    exact ⟨.ping c.endpoint answer :: heard, changes, hheard.trans (List.append_assoc ..), hchanges,
      .walked answer all ledger (candidates_nodup _ _ _) hledger hwalk⟩

theorem run_tells (force : Bool) (now : UInt64) (c : Controller (Logged σ) (Watched ν)) :
    Tells (Ran c.endpoint c.config.trialTimeout now force c.store.inner) c (run force now c) := by
  cases force with
  | true =>
    have hclear : Store.clearLedger c.store = Logged.make .clearLedger c.store := rfl
    cases hmade : Change.clearLedger.apply c.store.inner with
    | mk result s =>
      simp only [run, consult, if_true, hclear, Logged.make, hmade]
      cases result with
      | error fault =>
        exact ⟨[], _, (List.append_nil _).symm, rfl,
          .uncleared _ fault (congrArg Prod.fst hmade)⟩
      | ok =>
        obtain ⟨heard, changes, hheard, hchanges, hrest⟩ := discover_tells now
          { c with store := ⟨s, c.store.changes ++ [.clearLedger]⟩, stage := .probing }
        refine ⟨heard, .clearLedger :: changes, hheard, hchanges.trans (List.append_assoc ..),
          .forced (congrArg Prod.fst hmade) ?_⟩
        rw [hmade]
        exact hrest
  | false =>
    have hload : Store.loadRecord c.store = Store.loadRecord c.store.inner := rfl
    simp only [run, consult, Bool.false_eq_true, if_false, hload]
    cases hrecord : Store.loadRecord c.store.inner with
    | error fault =>
      exact ⟨[], [], (List.append_nil _).symm, (List.append_nil _).symm, .unread _ fault hrecord⟩
    | ok record =>
      cases record with
      | some r =>
        exact ⟨[], [], (List.append_nil _).symm, (List.append_nil _).symm, .recorded _ r hrecord⟩
      | none =>
        obtain ⟨heard, changes, hheard, hchanges, hrest⟩ :=
          discover_tells now { c with stage := .probing }
        exact ⟨heard, changes, hheard, hchanges, .unrecorded hrecord hrest⟩

/-- **Every run goes one of these ways.** -/
theorem run_ran (force : Bool) (now : UInt64) (c : Controller σ ν) :
    Ran c.endpoint c.config.trialTimeout now force c.store (c.heard (.run force) now)
      (c.writes (.run force) now) (run force now c).1 := by
  obtain ⟨heard, changes, hheard, hchanges, hran⟩ := run_tells force now c.watched
  obtain ⟨hresult, -⟩ := run_alike Watched.echoes c.alike_watched
    ((Simulation.log c.store).mirrors now) force fun _ =>
      onRecord_alike (Simulation.log c.store)
  have hheard : c.heard (.run force) now = heard := hheard
  have hchanges : c.writes (.run force) now = changes := hchanges
  rw [hheard, hchanges, hresult]
  exact hran

/-- A cleaning asks the network nothing. -/
theorem clean_heard (now : UInt64) (c : Controller σ ν) : c.heard .clean now = [] := by
  simp only [heard, perform, clean]
  cases Store.deleteRecord c.watched.store with
  | mk result s =>
    cases result with
    | error fault => rfl
    | ok =>
      cases hclear : Store.clearLedger s with
      | mk result s' => cases result <;> simp only [hclear] <;> rfl

/-- A cleaning deletes the record and clears the ledger, or stops after the first of the two. -/
theorem clean_writes (now : UInt64) (c : Controller σ ν) :
    c.writes .clean now = [.deleteRecord] ∨
      c.writes .clean now = [.deleteRecord, .clearLedger] := by
  have hdelete : Store.deleteRecord c.watched.store = Logged.make .deleteRecord ⟨c.store, []⟩ := rfl
  simp only [writes, perform, clean, hdelete, Logged.make]
  cases hdeleted : Change.deleteRecord.apply c.store with
  | mk result s =>
    cases result with
    | error fault => exact .inl rfl
    | ok =>
      have hclear : Store.clearLedger (⟨s, [.deleteRecord]⟩ : Logged σ) =
        Logged.make .clearLedger ⟨s, [.deleteRecord]⟩ := rfl
      simp only [List.nil_append, hclear, Logged.make]
      cases hcleared : Change.clearLedger.apply s with
      | mk result s' => cases result <;> exact .inr rfl

end Controller

end Pickaxe.Negotiation
