import Pickaxe.Negotiation.Candidates
import Pickaxe.Negotiation.Config
import Pickaxe.Negotiation.Error
import Pickaxe.Negotiation.Trial

/-! Finding a version that the server accepts. A run takes the recorded version if there is one
and it is not forced; else it tries one candidate after another, passing over those that the
ledger holds a failure of, and puts each outcome in the ledger before the next trial. -/
namespace Pickaxe.Negotiation

open Packet (Version)
open Server (Endpoint)

/-- How far a run has come. -/
inductive Stage where
  | idle
  | checkPersisted
  | shortCircuit
  | probing
  | trialRunning (candidate : Version)
  | confirmed (version : Version)
  | exhausted
deriving DecidableEq, Repr

def Stage.text : Stage → String
  | .idle => "Idle"
  | .checkPersisted => "CheckPersisted"
  | .shortCircuit => "ShortCircuit"
  | .probing => "Probing"
  | .trialRunning candidate => s!"TrialRunning({candidate.toInt})"
  | .confirmed version => s!"Confirmed({version.toInt})"
  | .exhausted => "Exhausted"

/-- Where a version comes from. -/
inductive Source where
  | persisted | discovered
deriving DecidableEq, Repr

structure Outcome where
  version : Version
  source : Source
  /-- The trials that this run made. -/
  trials : Nat
deriving DecidableEq, Repr

/-- A negotiation with one server, over a store `σ` and a network `ν`. -/
structure Controller (σ ν : Type) where
  store : σ
  network : ν
  endpoint : Endpoint
  /-- The version that the next connection speaks. -/
  active : Version
  config : Config
  stage : Stage
  /-- The time spent in trials. -/
  spent : Duration

namespace Controller

variable {σ ν : Type} [Store σ] [Network ν]

def new (store : σ) (network : ν) (endpoint : Endpoint) (active : Version) (config : Config) :
    Controller σ ν :=
  ⟨store, network, endpoint, active, config.validated, .idle, 0⟩

/-- Asks the server for its version. -/
def probe (c : Controller σ ν) : Option Version × Controller σ ν :=
  let (answer, network) := Network.ping c.endpoint c.network
  (reportedVersion answer, { c with network })

/-- What becomes of a trial that gets this reply, the candidate being the active version from then on. -/
def afterTrial (candidate : Version) (reply : Reply) (network : ν) (c : Controller σ ν) :
    TrialOutcome × Controller σ ν :=
  (Trial.outcome c.config.trialTimeout reply,
    { c with
      network
      active := candidate
      stage := .trialRunning candidate
      spent := c.spent + Trial.elapsed c.config.trialTimeout reply })

/-- Tries the candidate. -/
def attempt (candidate : Version) (c : Controller σ ν) : TrialOutcome × Controller σ ν :=
  let (reply, network) := Network.connect c.endpoint candidate c.network
  c.afterTrial candidate reply network

/-- The versions that a ledger holds a failure of. -/
def ruledOut (ledger : List Attempt) : List Version :=
  (ledger.filter (·.outcome ≠ .success)).map (·.candidate)

/-- No candidate is left: the active version goes back, and the next run starts afresh. -/
def exhaust (original : Version) (reported : Option Version) (tried : List Version)
    (c : Controller σ ν) : Except Error Outcome × Controller σ ν :=
  match Store.clearLedger c.store with
  | (.error e, store) => (.error (.store e), { c with store, active := original })
  | (.ok (), store) =>
    (.error (.exhausted c.endpoint.text reported tried),
      { c with store, active := original, stage := .exhausted })

/-- A trial has succeeded: its version is put on record, at time `now`. -/
def confirm (original : Version) (now : UInt64) (version : Version) (trials : Nat)
    (c : Controller σ ν) : Except Error Outcome × Controller σ ν :=
  match Store.saveRecord ⟨version, now, some c.endpoint.text⟩ c.store with
  | (.error e, store) => (.error (.store e), { c with store, active := original })
  | (.ok (), store) =>
    (.ok ⟨version, .discovered, trials⟩, { c with store, stage := .confirmed version })

/-- Puts a trial in the ledger. The run is over if that fails, and after a success. -/
def settle (original : Version) (now : UInt64) (candidate : Version) (outcome : TrialOutcome)
    (trials : Nat) (c : Controller σ ν) :
    Option (Except Error Outcome) × Controller σ ν :=
  match Store.append ⟨candidate, outcome⟩ c.store with
  | (.error e, store) => (some (.error (.store e)), { c with store, active := original })
  | (.ok (), store) =>
    if outcome = .success then
      let (result, c) := confirm original now candidate trials { c with store }
      (some result, c)
    else (none, { c with store })

/-- Tries the candidates of `left`, coming from `trials` trials. -/
def walk (original : Version) (now : UInt64) (reported : Option Version) (all : List Version) :
    (left : List Version) → (trials : Nat) → Controller σ ν →
      Except Error Outcome × Controller σ ν
  | [], _, c => exhaust original reported all c
  | v :: left, trials, c =>
    let (outcome, c) := attempt v c
    match settle original now v outcome (trials + 1) c with
    | (some result, c) => (result, c)
    | (none, c) => walk original now reported all left (trials + 1) c

/-- All candidates, and those of them that the ledger does not rule out. -/
def survey (reported : Option Version) (c : Controller σ ν) :
    Except Error (List Version × List Version) :=
  let all := candidates reported c.config.defaults c.config.window
  match Store.loadLedger c.store with
  | .error e => .error (.store e)
  | .ok ledger => .ok (all, all.filter (· ∉ ruledOut ledger))

/-- Asks for the reported version and tries the candidates. -/
def discover (now : UInt64) (c : Controller σ ν) : Except Error Outcome × Controller σ ν :=
  let (reported, c) := probe c
  match survey reported c with
  | .error e => (.error e, c)
  | .ok (all, left) => walk c.active now reported all left 0 c

/-- The recorded version, without a trial. -/
def shortCircuit (r : Record) (c : Controller σ ν) : Except Error Outcome × Controller σ ν :=
  (.ok ⟨r.version, .persisted, 0⟩,
    { c with active := r.version, stage := .confirmed r.version })

/-- What can be said before the server is asked. There is no result yet if it has to be. A
forced run passes over the record and forgets earlier trials. -/
def consult (force : Bool) (c : Controller σ ν) :
    Option (Except Error Outcome) × Controller σ ν :=
  let c := { c with stage := .checkPersisted }
  if force then
    match Store.clearLedger c.store with
    | (.error e, store) => (some (.error (.store e)), { c with store })
    | (.ok (), store) => (none, { c with store, stage := .probing })
  else
    match Store.loadRecord c.store with
    | .error e => (some (.error (.store e)), c)
    | .ok (some r) =>
      let (result, c) := shortCircuit r c
      (some result, c)
    | .ok none => (none, { c with stage := .probing })

/-- One run, at time `now`. -/
def run (force : Bool) (now : UInt64) (c : Controller σ ν) :
    Except Error Outcome × Controller σ ν :=
  match consult force c with
  | (some result, c) => (result, c)
  | (none, c) => discover now c

/-- Forgets the record and the trials, and speaks the native version again. -/
def clean (c : Controller σ ν) : Except Error Unit × Controller σ ν :=
  match Store.deleteRecord c.store with
  | (.error e, store) => (.error (.store e), { c with store })
  | (.ok (), store) => match Store.clearLedger store with
    | (.error e, store) => (.error (.store e), { c with store })
    | (.ok (), store) =>
      (.ok (), { c with store, active := Packet.nativeVersion, stage := .idle })

end Controller

end Pickaxe.Negotiation
