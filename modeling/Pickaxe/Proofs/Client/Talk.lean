import Pickaxe.Client.Talk
import Pickaxe.Proofs.Client.Line

/-! Talks, all at once and piece by piece.

Over a stream that is at hand a login and a status ping are talks (`Login.run_eq_talk`,
`StatusPing.run_eq_talk`). Where what comes in has to be waited for, what is said after each step goes on
the wire and is not kept. No step looks at what has been said before it (`Forgetful`), so the talk takes the
same course, and the same bodies go out (`Talk.relay_eq`, `Login.relay_talk`, `StatusPing.relay_talk`). -/
namespace Pickaxe.Client

open Negotiation (ConnectError)
open Packet (Version)
open Server (Endpoint Status)
open Wire (Frame.Arrival)

/-! ### Piece by piece -/

namespace Talk

variable {ε α : Type} {t : Talk ε α} {a : Frame.Arrival} {line after : Line}

theorem hear_of_none (h : t.step a line = (none, after)) (rest : List Frame.Arrival) :
    t.hear (a :: rest) line = t.hear rest after := by
  rw [hear, h]

theorem hear_of_some {result : Except ε α} (h : t.step a line = (some result, after))
    (rest : List Frame.Arrival) : t.hear (a :: rest) line = (result, rest, after) := by
  rw [hear, h]

/-- No step looks at what has been said before it. -/
def Forgetful (t : Talk ε α) : Prop :=
  ∀ a (line : Line), ∃ (result : Option (Except ε α)) (after : Line) (said : List (List UInt8)),
    ∀ log, t.step a { line with log } = (result, { after with log := said ++ log })

/-- The talk over what comes in, where what is said goes on the wire after each step: what has come of it,
and all bodies that go out. -/
def relay (t : Talk ε α) : List Frame.Arrival → Line → Except ε α × List (List UInt8)
  | [], _ => (.error t.ended, [])
  | a :: rest, line => match t.step a line with
    | (none, line) =>
      let (result, bodies) := t.relay rest line.flushed
      (result, line.sent ++ bodies)
    | (some result, line) => (result, line.sent)

/-- **The talk takes the same course**, whether what is said is kept or goes on the wire at once. -/
theorem relay_eq (h : t.Forgetful) (inbound : List Frame.Arrival) (line : Line) :
    (t.relay inbound line.flushed).1 = (t.hear inbound line).1 ∧
      line.sent ++ (t.relay inbound line.flushed).2 = (t.hear inbound line).2.2.sent := by
  induction inbound generalizing line with
  | nil => exact ⟨rfl, List.append_nil _⟩
  | cons a rest ih =>
    -- The two lines differ in what has been said before, and the step puts the same in front of both.
    obtain ⟨result, after, said, hstep⟩ := h a line
    have hkept : t.step a line = (result, { after with log := said ++ line.log }) := hstep line.log
    have hflushed : t.step a line.flushed = (result, { after with log := said }) :=
      (hstep []).trans (by rw [List.append_nil])
    have hsaid : ({ after with log := said ++ line.log } : Line).sent = line.sent ++ said.reverse :=
      List.reverse_append
    rw [relay, hflushed]
    cases result with
    | some result =>
      rw [hear_of_some hkept]
      exact ⟨rfl, hsaid.symm⟩
    | none =>
      rw [hear_of_none hkept]
      obtain ⟨hresult, hsent⟩ := ih { after with log := said ++ line.log }
      refine ⟨hresult, ?_⟩
      rw [← hsent, hsaid, List.append_assoc]
      rfl

end Talk

/-! ### Status pings -/

namespace StatusPing

variable (endpoint : Endpoint) (version : Version)

/-- Nothing is said while the document is waited for. -/
theorem step_talk (a : Frame.Arrival) (line : Line) :
    (talk endpoint version).step a line = (match step a with
      | .error e => some (.error e)
      | .ok status => status.map .ok, line) := by
  cases hstep : step a with
  | error e => simp only [talk, hstep]
  | ok status => cases status <;> simp only [talk, hstep] <;> rfl

theorem forgetful_talk : (talk endpoint version).Forgetful :=
  fun a line => ⟨_, line, [], fun log => step_talk endpoint version a { line with log }⟩

/-- The talk comes to the document, leaves what is behind it, and says nothing. -/
theorem hear_talk (inbound : List Frame.Arrival) (line : Line) :
    let heard := (talk endpoint version).hear inbound line
    heard.1 = (await inbound).map Prod.fst ∧ heard.2.2 = line ∧
      ∀ status rest, await inbound = .ok (status, rest) → heard.2.1 = rest := by
  induction inbound with
  | nil => exact ⟨rfl, rfl, nofun⟩
  | cons a rest ih =>
    have htalk := step_talk endpoint version a line
    rw [await]
    cases hstep : step a with
    | error e =>
      rw [hstep] at htalk
      rw [Talk.hear_of_some htalk rest]
      exact ⟨rfl, rfl, nofun⟩
    | ok status => cases status with
      | none =>
        rw [hstep] at htalk
        rw [Talk.hear_of_none htalk rest]
        exact ih
      | some status =>
        rw [hstep] at htalk
        rw [Talk.hear_of_some htalk rest]
        exact ⟨rfl, rfl, fun _ _ h => (Prod.mk.inj (Except.ok.inj h)).2⟩

/-- Piece by piece it comes to the same status, and nothing goes out. -/
theorem relay_talk (inbound : List Frame.Arrival) (line : Line) :
    (talk endpoint version).relay inbound line.flushed = ((await inbound).map Prod.fst, []) := by
  obtain ⟨hresult, hsent⟩ := Talk.relay_eq (forgetful_talk endpoint version) inbound line
  obtain ⟨hstatus, hline, -⟩ := hear_talk endpoint version inbound line
  rw [hline] at hsent
  exact Prod.ext (hresult.trans hstatus) (List.self_eq_append_right.mp hsent.symm)

/-- **A status ping** is a talk, and then one more frame and the answer to it. -/
theorem run_eq_talk (payload : Int64) (inbound : List Frame.Arrival) :
    run endpoint version payload inbound = match (talk endpoint version).run inbound with
      | (.error e, _, line) => (.error e, line)
      | (.ok status, rest, line) => match line.send (Packet.Status.ping payload) with
        | .error e => (.error (.transport e), line)
        | .ok line => (.ok ⟨status, answered payload rest⟩, line.close) := by
  rw [run, Talk.run, show (talk endpoint version).opening = opening endpoint version from rfl]
  rcases Line.fresh.sendAll (opening endpoint version) with ⟨_ | e, line⟩
  · dsimp only
    obtain ⟨hstatus, hline, hrest⟩ := hear_talk endpoint version inbound line
    generalize (talk endpoint version).hear inbound line = heard at hstatus hline hrest ⊢
    obtain ⟨result, left, _⟩ := heard
    obtain rfl : _ = line := hline
    cases hawait : await inbound with
    | error e =>
      obtain rfl : result = .error e := hstatus.trans (congrArg (Except.map Prod.fst) hawait)
      rfl
    | ok document =>
      obtain rfl : result = .ok document.1 := hstatus.trans (congrArg (Except.map Prod.fst) hawait)
      obtain rfl : left = document.2 := hrest document.1 document.2 hawait
      rfl
  · rfl

end StatusPing

/-! ### Logins -/

namespace Login

variable (endpoint : Endpoint) (version : Version) (username : String)

theorem step_talk (a : Frame.Arrival) (line : Line) :
    (talk endpoint version username).step a line = match step a line with
      | .waiting line => (none, line)
      | .over result line => (some result, line) := rfl

/-- How the exchange stands if something else has been said before. -/
def Progress.behind (log : List (List UInt8)) : Progress → Progress
  | .waiting line => .waiting { line with log := line.log ++ log }
  | .over result line => .over result { line with log := line.log ++ log }

/-- An answer goes out, or it does not, whatever has been said before. -/
theorem afterSending_behind (answer : List UInt8) (next : Line → Progress)
    (hnext : ∀ log line, next { line with log := line.log ++ log } = (next line).behind log) (line : Line) :
    ∃ p, ∀ log, afterSending answer next { line with log } = Progress.behind log p := by
  rcases line.send_cases answer with ⟨e, herror⟩ | ⟨body, hsent⟩
  · refine ⟨.over (.error (transportFailure e)) line.flushed, fun log => ?_⟩
    rw [afterSending, herror]
    rfl
  · refine ⟨next { line with log := [body] }, fun log => ?_⟩
    rw [afterSending, hsent, ← hnext]
    rfl

theorem step_behind (a : Frame.Arrival) (line : Line) :
    ∃ p, ∀ log, step a { line with log } = Progress.behind log p := by
  cases a with
  | error e => exact ⟨.over (.error (transportFailure e)) line.flushed, fun _ => rfl⟩
  | ok body =>
    have hopened (log : List (List UInt8)) : Wire.Frame.open? ({ line with log } : Line).compressed body =
        Wire.Frame.open? line.compressed body := rfl
    cases hbody : Wire.Frame.open? line.compressed body with
    | none =>
      refine ⟨.waiting line.flushed, fun log => ?_⟩
      simp only [step, hopened, hbody]
      rfl
    | some arrival => cases arrival with
      | error e =>
        refine ⟨.over (.error (transportFailure e)) line.flushed, fun log => ?_⟩
        simp only [step, hopened, hbody]
        rfl
      | ok frame =>
        simp only [step, hopened, hbody]
        cases reactTo frame with
        | reply answer => exact afterSending_behind answer .waiting (fun _ _ => rfl) line
        | accept answer => exact afterSending_behind answer (.over (.ok ())) (fun _ _ => rfl) line
        | setCompression threshold => exact ⟨.waiting (line.flushed.setCompression threshold), fun _ => rfl⟩
        | ignore => exact ⟨.waiting line.flushed, fun _ => rfl⟩
        | refuse e => exact ⟨.over (.error e) line.flushed, fun _ => rfl⟩

theorem forgetful_talk : (talk endpoint version username).Forgetful := by
  intro a line
  obtain ⟨p, hstep⟩ := step_behind a line
  obtain after | ⟨result, after⟩ := p
  · exact ⟨none, after, after.log, fun log => by rw [step_talk, hstep]; rfl⟩
  · exact ⟨some result, after, after.log, fun log => by rw [step_talk, hstep]; rfl⟩

theorem hear_talk (inbound : List Frame.Arrival) (line : Line) :
    (talk endpoint version username).hear inbound line =
      ((exchange inbound line).result, (exchange inbound line).inbound, (exchange inbound line).line) := by
  induction inbound generalizing line with
  | nil => rfl
  | cons a rest ih =>
    have htalk := step_talk endpoint version username a line
    rw [exchange]
    rcases hstep : step a line with after | ⟨result, after⟩
    · rw [hstep] at htalk
      rw [Talk.hear_of_none htalk rest]
      exact ih after
    · rw [hstep] at htalk
      exact Talk.hear_of_some htalk rest

/-- **A login** is a talk. -/
theorem run_eq_talk (inbound : List Frame.Arrival) :
    let outcome := run endpoint version username inbound
    (talk endpoint version username).run inbound = (outcome.result, outcome.inbound, outcome.line) := by
  rw [run, Talk.run, show (talk endpoint version username).opening = opening endpoint version username from rfl]
  rcases Line.fresh.sendAll (opening endpoint version username) with ⟨_ | e, line⟩
  · exact hear_talk endpoint version username inbound line
  · rfl

/-- **Piece by piece** a login comes to the same result, and the same bodies go out behind the opening. -/
theorem relay_talk {line : Line} (h : Line.fresh.sendAll (opening endpoint version username) = (none, line))
    (inbound : List Frame.Arrival) :
    let outcome := run endpoint version username inbound
    let relayed := (talk endpoint version username).relay inbound line.flushed
    relayed.1 = outcome.result ∧ line.sent ++ relayed.2 = outcome.line.sent := by
  intro outcome relayed
  have hrun : outcome = exchange inbound line := by
    simp only [outcome, run, h]
  have hrelay := Talk.relay_eq (forgetful_talk endpoint version username) inbound line
  rwa [hear_talk, ← hrun] at hrelay

end Login

end Pickaxe.Client
