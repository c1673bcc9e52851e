import Pickaxe.Negotiation.Inquiry

/-! Negotiations that stop to ask.

A run that stops at each of its questions is the run that has the answers at hand, if it gets the same
answers (`answered_inquire`). What it has done to its store is written down piece by piece, each piece going
on where the one before it has stopped, and nothing is left at the end (`kept_inquire`). -/
namespace Pickaxe.Negotiation

open Packet (Version)
open Server (Status)

variable {σ ν : Type} [Network ν]

namespace Inquiry

/-! ### Answers at hand -/

/-- Goes on to the end over a network that answers at once. -/
def answered (before : Controller σ ν) (i : Inquiry σ ν) : Except Error Outcome × Controller σ ν :=
  i.answer (m := Id) (fun _ _ => ()) (fun c => Network.ping c.endpoint c.network)
    (fun v c => Network.connect c.endpoint v c.network) before

/-- The same, with a list of what is to be written down. -/
def kept (before : Controller σ ν) (i : Inquiry σ ν) :
    StateM (List (Controller σ ν × Controller σ ν)) (Except Error Outcome × Controller σ ν) :=
  i.answer (fun c d pieces => ((), pieces ++ [(c, d)])) (fun c => pure (Network.ping c.endpoint c.network))
    (fun v c => pure (Network.connect c.endpoint v c.network)) before

theorem answered_ping (before c : Controller σ ν) (next : Except PingError Status → ν → Inquiry σ ν) :
    (ping c next).answered before =
      (next (Network.ping c.endpoint c.network).1 (Network.ping c.endpoint c.network).2).answered c := rfl

theorem answered_connect (before c : Controller σ ν) (v : Version) (next : Reply → ν → Inquiry σ ν) :
    (connect v c next).answered before =
      (next (Network.connect c.endpoint v c.network).1 (Network.connect c.endpoint v c.network).2).answered c := rfl

/-- Changes that lead from one controller to another, each going on where the one before it has stopped. -/
inductive Leads : Controller σ ν → List (Controller σ ν × Controller σ ν) → Controller σ ν → Prop where
  | nil (c : Controller σ ν) : Leads c [] c
  | cons (c : Controller σ ν) {d e : Controller σ ν} {rest : List (Controller σ ν × Controller σ ν)}
      (h : Leads d rest e) : Leads c ((c, d) :: rest) e

/-- **Whatever is asked, all is written down**: piece by piece, up to how the controller stands at the end. -/
theorem kept_eq (i : Inquiry σ ν) (before : Controller σ ν)
    (written : List (Controller σ ν × Controller σ ν)) : ∃ pieces,
      i.kept before written = (i.answered before, written ++ pieces) ∧
        Leads before pieces (i.answered before).2 := by
  induction i generalizing before written with
  | ended result c => exact ⟨[(before, c)], rfl, .cons before (.nil c)⟩
  | ping c next ih =>
    obtain ⟨pieces, hkept, hleads⟩ := ih _ (Network.ping c.endpoint c.network).2 c (written ++ [(before, c)])
    exact ⟨(before, c) :: pieces, hkept.trans (by rw [List.append_assoc]; rfl), hleads.cons before⟩
  | connect v c next ih =>
    obtain ⟨pieces, hkept, hleads⟩ :=
      ih _ (Network.connect c.endpoint v c.network).2 c (written ++ [(before, c)])
    exact ⟨(before, c) :: pieces, hkept.trans (by rw [List.append_assoc]; rfl), hleads.cons before⟩

end Inquiry

/-! ### Runs -/

namespace Controller

variable [Store σ]

theorem answered_inquireLeft (original : Version) (now : UInt64) (reported : Option Version)
    (all left : List Version) (trials : Nat) (before c : Controller σ ν) :
    (c.inquireLeft original now reported all left trials).answered before =
      c.walk original now reported all left trials := by
  induction left generalizing trials before c with
  | nil => rfl
  | cons v left ih =>
    rw [inquireLeft, Inquiry.answered_connect, walk, attempt]
    dsimp only
    -- From the reply on, both do the same with the same controller.
    generalize c.afterTrial v _ _ = tried
    obtain ⟨outcome, c⟩ := tried
    dsimp only
    cases settle original now v outcome (trials + 1) c with
    | mk result c => cases result with
      | none => exact ih ..
      | some result => rfl

/-- **A run that asks is the run.** -/
theorem answered_inquire (force : Bool) (now : UInt64) (before c : Controller σ ν) :
    (c.inquire force now).answered before = c.run force now := by
  rw [inquire, run]
  cases consult force c with
  | mk result c => cases result with
    | some result => rfl
    | none =>
      dsimp only
      rw [Inquiry.answered_ping, discover, probe]
      dsimp only
      generalize ({ c with network := (Network.ping c.endpoint c.network).2 } : Controller σ ν) = asked
      cases survey (reportedVersion (Network.ping c.endpoint c.network).1) asked with
      | error e => rfl
      | ok lists => exact answered_inquireLeft ..

/-- **A run is written down as it goes**, from how the controller stands before it to how it stands behind
it. -/
theorem kept_inquire (force : Bool) (now : UInt64) (c : Controller σ ν) : ∃ pieces,
    (c.inquire force now).kept c [] = (c.run force now, pieces) ∧
      Inquiry.Leads c pieces (c.run force now).2 := by
  obtain ⟨pieces, hkept, hleads⟩ := (c.inquire force now).kept_eq c []
  rw [answered_inquire] at hkept hleads
  exact ⟨pieces, hkept, hleads⟩

end Controller

end Pickaxe.Negotiation
