import Pickaxe.Proofs.Negotiation.Files
import Pickaxe.Proofs.Negotiation.Turns

/-! Cleaning, which makes a controller as good as new.

Whatever steps a controller has taken, and whatever its store held before, a cleaning that succeeds
leaves nothing of it: from then on nobody can tell the controller from a new one over an empty
store (`clean_renews`). Only the clock tells them apart, by the stamps of the records that they
save. -/
namespace Pickaxe.Negotiation

open Packet (Version)
open Server (Endpoint)

variable {σ τ ν : Type} [Store σ] [Store τ] [Network ν]

/-! ### What can be seen of a step -/

structure Observation where
  result : Except Error (Option Outcome)
  /-- What was asked of the network, and heard. -/
  heard : List Exchange
  stage : Stage
  active : Version
  /-- What can be read of the record, but for its stamp. -/
  record : Except StoreError (Option (Version × Option String))
  ledger : Except StoreError (List Attempt)

namespace Step

def observe (x : Step) (c : Controller σ ν) : Observation :=
  let (result, after) := x.take c
  { result
    heard := x.heard c
    stage := after.stage
    active := after.active
    record := (Store.loadRecord after.store).map (Option.map Record.unstamped)
    ledger := Store.loadLedger after.store }

/-- The controller after steps, one after another. -/
def takeAll : List Step → Controller σ ν → Controller σ ν
  | [], c => c
  | x :: rest, c => takeAll rest (x.take c).2

/-- What can be seen of the steps. -/
def observeAll : List Step → Controller σ ν → List Observation
  | [], _ => []
  | x :: rest, c => x.observe c :: observeAll rest (x.take c).2

/-- The same step at another time. -/
def timed (x : Step) (now : UInt64) : Step := { x with now }

/-! ### Controllers that cannot be told apart -/

section
variable {e : Endpoint} {config : Config} {earlier : Duration} {stores : σ → τ → Prop}
  {c : Controller σ ν} {d : Controller τ ν}

omit [Store σ] [Store τ] [Network ν] in
theorem start_alike (hc : Controller.Alike e config earlier stores (fun n m => n = m) c d)
    (x : Step) (now : UInt64) :
    Controller.Alike e config earlier (Faulty.Abreast stores) (fun n m => n = m) (x.start c)
      ((x.timed now).start d) :=
  { hc with store := ⟨hc.store, rfl, rfl⟩ }

variable (h : ∀ now now', Mirrors now now' stores)
  (hreads : ∀ s t, stores s t → Controller.onRecord s = Controller.onRecord t)
  (hc : Controller.Alike e config earlier stores (fun n m => n = m) c d)
include h hreads hc

theorem take_alike (x : Step) (now : UInt64) :
    Agree (Controller.Alike e config earlier stores fun n m => n = m) (x.take c)
      ((x.timed now).take d) := by
  obtain ⟨hresult, hafter⟩ := Controller.perform_alike Echoes.refl (start_alike hc x now)
    (h x.now now).faulty x.command fun _ => Controller.onRecord_abreast hreads
  exact ⟨hresult, { hafter with store := hafter.store.inner }⟩

theorem heard_alike (x : Step) (now : UInt64) : x.heard c = (x.timed now).heard d :=
  Controller.heard_alike (start_alike hc x now) (h x.now now).faulty x.command
    fun _ => Controller.onRecord_abreast hreads

end

/-- Over stores that hold the same but for stamps, the same steps look the same at any times. -/
theorem observeAll_similar [LawfulStore σ] [LawfulStore τ] {ready : σ → Prop} {ready' : τ → Prop}
    (h : Reliable ready) (h' : Reliable ready') {e : Endpoint} {config : Config}
    {earlier : Duration} (steps : List (Step × UInt64)) (c : Controller σ ν) (d : Controller τ ν)
    (hc : Controller.Alike e config earlier (Similar ready ready') (fun n m => n = m) c d) :
    observeAll (steps.map fun p => p.1) c = observeAll (steps.map fun p => p.1.timed p.2) d := by
  have hmirrors := Similar.mirrors h h'
  have hreads : ∀ s t, Similar ready ready' s t → Controller.onRecord s = Controller.onRecord t :=
    fun _ _ => Similar.onRecord
  induction steps generalizing c d with
  | nil => rfl
  | cons p rest ih =>
    obtain ⟨x, now⟩ := p
    obtain ⟨hresult, hafter⟩ := take_alike hmirrors hreads hc x now
    have hheard := heard_alike hmirrors hreads hc x now
    have hobserve : x.observe c = (x.timed now).observe d := by
      simp only [observe, hresult, hheard, hafter.stage, hafter.active,
        hafter.store.unstamped, hafter.store.loadLedger]
    simp only [List.map_cons, observeAll, hobserve]
    rw [ih _ _ hafter]

end Step

/-! ### Cleaning -/

omit [Network ν] in
/-- A cleaning that succeeds has made both of its changes, and sets the controller back. -/
theorem Controller.clean_ok {c : Controller σ ν} (hok : (clean c).1 = .ok ()) :
    let deleted := Change.deleteRecord.apply c.store
    let cleared := Change.clearLedger.apply deleted.2
    deleted.1 = .ok () ∧ cleared.1 = .ok () ∧
      (clean c).2 =
        { c with store := cleared.2, active := Packet.nativeVersion, stage := .idle } := by
  simp only [Change.apply]
  unfold clean at hok ⊢
  cases hdelete : Store.deleteRecord c.store with
  | mk result s =>
    rw [hdelete] at hok
    cases result with
    | error fault => cases hok
    | ok =>
      cases hclear : Store.clearLedger s with
      | mk result s' =>
        simp only [hclear] at hok ⊢
        cases result with
        | error fault => cases hok
        | ok => exact ⟨trivial, rfl, rfl⟩

namespace Step

/-- A step leaves the server and the settings alone, and a store that does not fail does not fail
after it. -/
theorem take_frame {ready : σ → Prop} (h : Reliable ready) (x : Step) (c : Controller σ ν)
    (hs : ready c.store) :
    (x.take c).2.endpoint = c.endpoint ∧ (x.take c).2.config = c.config ∧
      ready (x.take c).2.store := by
  obtain ⟨-, -, hendpoint, hconfig⟩ := (x.start c).perform_watched x.command x.now
  refine ⟨hendpoint, hconfig, ?_⟩
  rw [take_store]
  exact h.replay_faulty _ _ hs

theorem takeAll_frame {ready : σ → Prop} (h : Reliable ready) (steps : List Step)
    (c : Controller σ ν) (hs : ready c.store) :
    (takeAll steps c).endpoint = c.endpoint ∧ (takeAll steps c).config = c.config ∧
      ready (takeAll steps c).store := by
  induction steps generalizing c with
  | nil => exact ⟨rfl, rfl, hs⟩
  | cons x rest ih =>
    obtain ⟨hendpoint, hconfig, hready⟩ := x.take_frame h c hs
    obtain ⟨hendpoint', hconfig', hready'⟩ := ih _ hready
    exact ⟨hendpoint'.trans hendpoint, hconfig'.trans hconfig, hready'⟩

/-- After a cleaning that succeeds the store is empty and the controller as it was made. -/
theorem take_clean [LawfulStore σ] (x : Step) (c : Controller σ ν) (hx : x.command = .clean)
    (hok : (x.take c).1 = .ok none) :
    Holds (x.take c).2.store .empty ∧ (x.take c).2.active = Packet.nativeVersion ∧
      (x.take c).2.stage = .idle := by
  let d := x.start c
  have hclean : (Controller.clean d).1 = .ok () := by
    simp only [take, hx, Controller.perform] at hok
    cases hresult : (Controller.clean d).1 with
    | error fault =>
      rw [show (Controller.clean (x.start c)).1 = _ from hresult] at hok
      cases hok
    | ok => rfl
  obtain ⟨hdeleted, hcleared, hafter⟩ := Controller.clean_ok hclean
  have hrecord := (Faulty.made _ _ hdeleted).record
  have hkept := (Faulty.made _ _ hcleared).record
  have htake : (x.take c).2 = (Controller.clean d).2.onto (Controller.clean d).2.store.inner := by
    simp only [take, hx, Controller.perform]
    rfl
  rw [htake, hafter]
  exact ⟨⟨Eq.trans hkept hrecord, (Faulty.made _ _ hcleared).ledger⟩, rfl, rfl⟩

end Step

/-- **A controller that is cleaned is as good as new.** Let a controller have taken any steps, some
of them failing, on a lawful store that may have held anything, and then be cleaned without an
error. Whatever steps follow, it returns, asks, hears and leaves what a new controller does that
takes the same steps, at whatever times, over an empty store: the same results, questions to the
network, stages, active versions, ledgers, and records but for their stamps. -/
theorem clean_renews [LawfulStore σ] [LawfulStore τ] {ready : σ → Prop} {ready' : τ → Prop}
    (h : Reliable ready) (h' : Reliable ready') {s : σ} (hs : ready s) (network : ν) (e : Endpoint)
    (active : Version) (config : Config) (history : List Step) (x : Step)
    (hx : x.command = .clean)
    (hok : (x.take (Step.takeAll history (.new s network e active config))).1 = .ok none)
    {pristine : τ} (hpristine : ready' pristine) (hempty : Holds pristine .empty)
    (further : List (Step × UInt64)) :
    let used := (x.take (Step.takeAll history (.new s network e active config))).2
    let fresh := Controller.new pristine used.network e Packet.nativeVersion config
    Step.observeAll (further.map fun p => p.1) used =
      Step.observeAll (further.map fun p => p.1.timed p.2) fresh := by
  intro used fresh
  let c := Step.takeAll history (Controller.new s network e active config)
  obtain ⟨hendpoint, hconfig, hready⟩ :=
    Step.takeAll_frame h history (Controller.new s network e active config) hs
  obtain ⟨hendpoint', hconfig', hready'⟩ := x.take_frame h c hready
  obtain ⟨hholds, hactive, hstage⟩ := x.take_clean c hx hok
  have hsimilar : Similar ready ready' used.store pristine :=
    ⟨⟨hready', hpristine, [], hholds.ledger, hempty.ledger⟩, none, none, hholds.record,
      hempty.record, rfl⟩
  have halike : Controller.Alike e config.validated used.spent (Similar ready ready')
      (fun n m => n = m) used fresh :=
    ⟨hsimilar, rfl, ⟨hendpoint'.trans hendpoint, rfl⟩, hactive, ⟨hconfig'.trans hconfig, rfl⟩,
      hstage, rfl⟩
  exact Step.observeAll_similar h h' further used fresh halike

/-- Files that cannot be read, which a run fails on before they are cleaned. -/
theorem clean_renews_unreadable :
    let step (command : Command) : Step := ⟨command, 0, fun _ _ => none⟩
    let files : StateDir := ⟨.file [0xFF], .file [0xFF, 0x0A], .absent⟩
    let e : Endpoint := ⟨"localhost", 25565⟩
    let c : Controller StateDir Servers := .new files (.accepting 769) e 765 .standard
    let broken := Step.takeAll [step (.run false)] c
    let used := ((step .clean).take broken).2
    let fresh : Controller StateDir Servers :=
      .new .empty used.network e Packet.nativeVersion .standard
    let further := [(step (.run false), 8), (step (.run true), 9)]
    ((step (.run false)).take c).1 = .error (.store (.corrupt StateDir.recordFile)) ∧
      ((step .clean).take broken).1 = .ok none ∧
      Step.observeAll (further.map fun p => p.1) used =
        Step.observeAll (further.map fun p => p.1.timed p.2) fresh := by
  intro step files e c broken used fresh further
  have hready : files.Writable := ⟨nofun, nofun, nofun⟩
  have hempty : StateDir.empty.Writable := ⟨nofun, nofun, nofun⟩
  have hcleaned : ((step .clean).take broken).1 = .ok none := rfl
  exact ⟨rfl, hcleaned, clean_renews StateDir.reliable StateDir.reliable hready
    (Servers.accepting 769) e 765 .standard [step (.run false)] (step .clean) rfl hcleaned hempty
    ⟨rfl, rfl⟩ further⟩

end Pickaxe.Negotiation
