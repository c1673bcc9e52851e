import Pickaxe.Proofs.Negotiation.Account
import Pickaxe.Proofs.Negotiation.Lawful

/-! Commands one after another, to one controller or to several that share a store.

A step is a command with all that is its own: its time, and the calls of the store that fail under
it. A turn is a step of some controller, which a crash may cut short between two changes. Nothing
is assumed of the controllers: each has its server, its settings, its network and whatever its
earlier steps have left of it. -/
namespace Pickaxe.Negotiation

open Packet (Version)

variable {σ ν : Type}

/-- A command, with its time and the faults of the store under it, as in `Faulty`. -/
structure Step where
  command : Command
  now : UInt64
  fault : Nat → StoreCall → Option StoreError

namespace Step

/-- The controller over its store as it is for this step. -/
def start (x : Step) (c : Controller σ ν) : Controller (Faulty σ) ν := c.onto ⟨c.store, x.fault, 0⟩

variable [Store σ] [Network ν]

/-- What comes of the step, and the controller after it. -/
def take (x : Step) (c : Controller σ ν) : Except Error (Option Outcome) × Controller σ ν :=
  let (result, c) := (x.start c).perform x.command x.now
  (result, c.onto c.store.inner)

/-- What the controller asks the network and hears. -/
def heard (x : Step) (c : Controller σ ν) : List Exchange := (x.start c).heard x.command x.now

/-- The changes that the controller asks its store for, those that fail among them. -/
def writes (x : Step) (c : Controller σ ν) : List Change := (x.start c).writes x.command x.now

/-- What these changes, or some of them, leave of the store. -/
def left (x : Step) (c : Controller σ ν) (changes : List Change) : σ :=
  (replay changes (x.start c).store).inner

theorem take_store (x : Step) (c : Controller σ ν) :
    (x.take c).2.store = x.left c (x.writes c) := by
  obtain ⟨-, hstore, -⟩ := (x.start c).perform_watched x.command x.now
  exact congrArg Faulty.inner hstore

end Step

/-- A step of one of the controllers that share a store. -/
structure Turn (ν : Type) extends Step where
  /-- The controller, but for the store. -/
  controller : Controller Unit ν
  /-- The changes after which it crashes, if it does. -/
  crash : Option Nat

namespace Turn

/-- The controller over the store that it finds. -/
def onto (x : Turn ν) (s : σ) : Controller σ ν := x.controller.onto s

variable [Store σ] [Network ν]

/-- The changes that the turn comes to ask for. -/
def made (x : Turn ν) (s : σ) : List Change :=
  match x.crash with
  | none => x.writes (x.onto s)
  | some made => (x.writes (x.onto s)).take made

/-- What it leaves of the store. -/
def leaves (x : Turn ν) (s : σ) : σ := x.left (x.onto s) (x.made s)

/-- The changes of a turn are the first of those of its step. -/
theorem made_eq_take (x : Turn ν) (s : σ) : ∃ n, x.made s = (x.writes (x.onto s)).take n := by
  unfold made
  cases x.crash with
  | none => exact ⟨_, List.take_length.symm⟩
  | some made => exact ⟨made, rfl⟩

theorem mem_writes_of_mem_made {x : Turn ν} {s : σ} {change : Change} (h : change ∈ x.made s) :
    change ∈ x.writes (x.onto s) := by
  obtain ⟨n, hmade⟩ := x.made_eq_take s
  rw [hmade] at h
  exact List.mem_of_mem_take h

end Turn

/-- What turns leave of a store, one after another. -/
def takeTurns [Store σ] [Network ν] : List (Turn ν) → σ → σ
  | [], s => s
  | x :: rest, s => takeTurns rest (x.leaves s)

theorem takeTurns_append [Store σ] [Network ν] (a b : List (Turn ν)) (s : σ) :
    takeTurns (a ++ b) s = takeTurns b (takeTurns a s) := by
  induction a generalizing s with
  | nil => rfl
  | cons x rest ih => exact ih _

end Pickaxe.Negotiation
