import Pickaxe.Proofs.Negotiation.Alike

/-! What a run does to its store, whatever the store is.

Over stores that answer alike, runs are alike (`run_onto`), and so over a store that writes its changes
down. `changes` are the changes that a run makes, in their order, and a run leaves what they leave
(`run_store`). A run that a crash cuts short has made the first of them (`crashed`). -/
namespace Pickaxe.Negotiation.Controller

open Packet (Version)

variable {σ τ ν : Type} [Store σ] [Store τ]

/-- The same controller over another store. -/
def onto (t : τ) (c : Controller σ ν) : Controller τ ν := { c with store := t }

/-! ### Runs over stores that answer alike -/

section
variable {rel : σ → τ → Prop}

/-- The same result, and the same controller over a store alike. -/
def Follows {α : Type} (rel : σ → τ → Prop) (x : α × Controller σ ν) (y : α × Controller τ ν) :
    Prop :=
  ∃ t, rel x.2.store t ∧ y = (x.1, x.2.onto t)

omit [Store σ] [Store τ] in
theorem alike_onto {c : Controller σ ν} {t : τ} (hst : rel c.store t) :
    Alike c.endpoint c.config 0 rel (fun n m => n = m) c (c.onto t) :=
  ⟨hst, rfl, ⟨rfl, rfl⟩, rfl, ⟨rfl, rfl⟩, rfl, (Nat.zero_add _).symm⟩

omit [Store σ] [Store τ] in
theorem follows_of_agree {α : Type} {e : Server.Endpoint} {config : Config}
    {x : α × Controller σ ν} {y : α × Controller τ ν}
    (h : Agree (Alike e config 0 rel fun n m => n = m) x y) : Follows rel x y := by
  obtain ⟨hresult, hafter⟩ := h
  refine ⟨y.2.store, hafter.store, Prod.ext hresult.symm ?_⟩
  have hendpoint : x.2.endpoint = y.2.endpoint := hafter.endpoint.1.trans hafter.endpoint.2.symm
  have hconfig : x.2.config = y.2.config := hafter.config.1.trans hafter.config.2.symm
  have hspent : x.2.spent = y.2.spent := hafter.spent.trans (Nat.zero_add _)
  simp only [onto, hafter.network, hendpoint, hafter.active, hconfig, hafter.stage, hspent]

variable [Network ν]

/-- **Runs over stores that answer alike are alike**: the same result, the same questions to the
network, and stores that still answer alike. -/
theorem run_onto (h : Simulation rel) (force : Bool) (now : UInt64) (c : Controller σ ν) (t : τ)
    (hst : rel c.store t) : Follows rel (run force now c) (run force now (c.onto t)) := by
  exact follows_of_agree
    (run_alike Echoes.refl (alike_onto hst) (h.mirrors now) force fun _ => onRecord_alike h)

end

/-! ### The changes that a run makes -/

variable [Network ν]

/-- A run that is not forced and reads a record takes its version, and does nothing else. -/
theorem run_of_loadRecord (now : UInt64) (c : Controller σ ν) {r : Record}
    (h : Store.loadRecord c.store = .ok (some r)) :
    run false now c =
      (.ok ⟨r.version, .persisted, 0⟩,
        { c with active := r.version, stage := .confirmed r.version }) := by
  simp only [run, consult, Bool.false_eq_true, if_false, h, shortCircuit]

/-- The changes that a run makes to its store, in their order. -/
def changes (force : Bool) (now : UInt64) (c : Controller σ ν) : List Change :=
  (run force now (c.onto (⟨c.store, []⟩ : Logged σ))).2.store.changes

/-- What a run that crashes after so many changes leaves of its store. -/
def crashed (force : Bool) (now : UInt64) (made : Nat) (c : Controller σ ν) : σ :=
  replay ((changes force now c).take made) c.store

/-- A run leaves what its changes leave. -/
theorem run_store (force : Bool) (now : UInt64) (c : Controller σ ν) :
    (run force now c).2.store = replay (changes force now c) c.store := by
  obtain ⟨t, ⟨-, hlog⟩, heq⟩ := run_onto (Simulation.log c.store) force now c ⟨c.store, []⟩
    ⟨rfl, rfl⟩
  rw [changes, heq]
  exact hlog.symm

end Pickaxe.Negotiation.Controller
