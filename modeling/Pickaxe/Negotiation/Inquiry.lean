import Pickaxe.Negotiation.Controller

/-! A negotiation that stops wherever it has to ask the server, and goes on with what it is told. So it
can be made over any network, whether the answers are at hand or have to be waited for, and whoever makes
it sees how the controller stands before every question. -/
namespace Pickaxe.Negotiation

open Packet (Version)
open Server (Status)

/-- A run, as far as it comes without the server. -/
inductive Inquiry (σ ν : Type) where
  | ended (result : Except Error Outcome) (c : Controller σ ν)
  /-- It needs the status. -/
  | ping (c : Controller σ ν) (next : Except PingError Status → ν → Inquiry σ ν)
  /-- It needs a login at a version. -/
  | connect (candidate : Version) (c : Controller σ ν) (next : Reply → ν → Inquiry σ ν)

namespace Controller

variable {σ ν : Type} [Store σ] [Network ν]

/-- The candidates of `left`, coming from `trials` trials. -/
def inquireLeft (original : Version) (now : UInt64) (reported : Option Version) (all : List Version) :
    (left : List Version) → (trials : Nat) → Controller σ ν → Inquiry σ ν
  | [], _, c =>
    let (result, c) := exhaust original reported all c
    .ended result c
  | v :: left, trials, c => .connect v c fun reply network =>
    let (outcome, c) := c.afterTrial v reply network
    match settle original now v outcome (trials + 1) c with
    | (some result, c) => .ended result c
    | (none, c) => inquireLeft original now reported all left (trials + 1) c

/-- One run, at time `now`. -/
def inquire (force : Bool) (now : UInt64) (c : Controller σ ν) : Inquiry σ ν :=
  match consult force c with
  | (some result, c) => .ended result c
  | (none, c) => .ping c fun answer network =>
    let c := { c with network }
    let reported := reportedVersion answer
    match survey reported c with
    | .error e => .ended (.error e) c
    | .ok (all, left) => inquireLeft c.active now reported all left 0 c

end Controller

namespace Inquiry

variable {σ ν : Type} {m : Type → Type} [Monad m]

/-- Goes on to the end. How the controller stands is written down before each question and at the end,
coming from how it stood `before`. -/
def answer (keep : (before after : Controller σ ν) → m Unit)
    (ping : Controller σ ν → m (Except PingError Status × ν))
    (connect : Version → Controller σ ν → m (Reply × ν)) (before : Controller σ ν) :
    Inquiry σ ν → m (Except Error Outcome × Controller σ ν)
  | .ended result c => do
    keep before c
    return (result, c)
  | .ping c next => do
    keep before c
    let (status, network) ← ping c
    (next status network).answer keep ping connect c
  | .connect v c next => do
    keep before c
    let (reply, network) ← connect v c
    (next reply network).answer keep ping connect c

end Inquiry

end Pickaxe.Negotiation
