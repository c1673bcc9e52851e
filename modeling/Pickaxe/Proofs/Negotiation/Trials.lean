import Pickaxe.Negotiation.Record
import Pickaxe.Negotiation.Trial

/-! Series of trials: a version at a time, up to the first that is accepted.

`tryAll` is a series against any network. Servers that answer in a fixed way are a network that
keeps what it was asked (`Servers`), and a series against one comes to what its verdicts say
(`tryAll_servers`). -/
namespace Pickaxe.Negotiation

open Packet (Version)
open Server (Endpoint)

/-! ### Any network -/

/-- What a series of trials comes to. -/
structure Series (ν : Type) where
  /-- The trials that failed, in their order. -/
  failures : List Attempt
  /-- The version that was accepted, which ends the series. -/
  accepted : Option Version
  network : ν
  /-- The time that the trials took. -/
  spent : Duration

/-- All trials of a series, in their order. -/
def Series.entries {ν : Type} (s : Series ν) : List Attempt :=
  s.failures ++ s.accepted.toList.map (⟨·, .success⟩)

/-- A series with a failed trial before it. -/
def Series.after {ν : Type} (a : Attempt) (time : Duration) (s : Series ν) : Series ν :=
  { s with failures := a :: s.failures, spent := time + s.spent }

/-- Tries one version after another, up to the first that is accepted. -/
def tryAll {ν : Type} [Network ν] (e : Endpoint) (limit : Duration) :
    List Version → ν → Series ν
  | [], network => ⟨[], none, network, 0⟩
  | v :: rest, network =>
    let (reply, network) := Network.connect e v network
    let outcome := Trial.outcome limit reply
    if outcome = .success then ⟨[], some v, network, Trial.elapsed limit reply⟩
    else (tryAll e limit rest network).after ⟨v, outcome⟩ (Trial.elapsed limit reply)

/-! ### Up to the first -/

section
variable {α : Type} (p : α → Bool)

/-- A list up to its first element with a property, and with that one. -/
def upTo (l : List α) : List α := l.takeWhile (fun v => !p v) ++ (l.find? p).toList

theorem upTo_cons_of_pos {v : α} (rest : List α) (h : p v = true) : upTo p (v :: rest) = [v] := by
  simp [upTo, h]

theorem upTo_cons_of_neg {v : α} (rest : List α) (h : p v = false) :
    upTo p (v :: rest) = v :: upTo p rest := by
  simp [upTo, h]

end

/-! ### Servers that answer in a fixed way -/

/-- Servers whose answers depend on the question alone, and what they were asked so far, the
latest last. -/
structure Servers where
  status : Endpoint → Except PingError Server.Status
  reply : Endpoint → Version → Reply
  pings : List Endpoint
  calls : List (Endpoint × Version)

namespace Servers

instance : Network Servers where
  ping e n := (n.status e, { n with pings := n.pings ++ [e] })
  connect e v n := (n.reply e v, { n with calls := n.calls ++ [(e, v)] })

/-- How a trial at a server counts. -/
def verdict (n : Servers) (limit : Duration) (e : Endpoint) (v : Version) : TrialOutcome :=
  Trial.outcome limit (n.reply e v)

def accepts (n : Servers) (limit : Duration) (e : Endpoint) (v : Version) : Bool :=
  n.verdict limit e v = .success

/-- A trial as the ledger tells it. -/
def entry (n : Servers) (limit : Duration) (e : Endpoint) (v : Version) : Attempt :=
  ⟨v, n.verdict limit e v⟩

/-- A server that does not answer pings and accepts one version. -/
def accepting (version : Version) : Servers where
  status _ := .error (.unreachable "no route")
  reply _ v := .answered 0
    (if v = version then .ok () else .error (.incompatibleVersion "outdated"))
  pings := []
  calls := []

variable (e : Endpoint) (limit : Duration)

/-- Against such servers a series ends at the first version that is accepted. -/
theorem tryAll_servers (vs : List Version) (n : Servers) :
    tryAll e limit vs n =
      { failures := (vs.takeWhile fun v => !n.accepts limit e v).map (n.entry limit e)
        accepted := vs.find? (n.accepts limit e)
        network := { n with calls := n.calls ++ (upTo (n.accepts limit e) vs).map (e, ·) }
        spent := (upTo (n.accepts limit e) vs).foldr
          (fun v time => Trial.elapsed limit (n.reply e v) + time) 0 } := by
  induction vs generalizing n with
  | nil => simp [tryAll, upTo]
  | cons v rest ih =>
    by_cases h : n.verdict limit e v = .success
    · have haccepts : n.accepts limit e v = true := by simp [accepts, h]
      have houtcome : Trial.outcome limit (n.reply e v) = .success := h
      simp [tryAll, Network.connect, houtcome, haccepts, upTo_cons_of_pos]
    · have haccepts : n.accepts limit e v = false := by simp [accepts, h]
      have hstep : tryAll e limit (v :: rest) n =
          (tryAll e limit rest { n with calls := n.calls ++ [(e, v)] }).after
            (n.entry limit e v) (Trial.elapsed limit (n.reply e v)) := if_neg h
      -- The verdicts do not depend on what was asked before.
      have hsame : ({ n with calls := n.calls ++ [(e, v)] } : Servers).accepts limit e =
        n.accepts limit e := rfl
      have hentry : ({ n with calls := n.calls ++ [(e, v)] } : Servers).entry limit e =
        n.entry limit e := rfl
      rw [hstep, ih, hsame, hentry, upTo_cons_of_neg _ _ haccepts]
      simp [Series.after, haccepts]

theorem entries_servers (vs : List Version) (n : Servers) :
    (tryAll e limit vs n).entries = (upTo (n.accepts limit e) vs).map (n.entry limit e) := by
  rw [tryAll_servers]
  simp only [Series.entries, upTo, List.map_append]
  cases hfind : vs.find? (n.accepts limit e) with
  | none => rfl
  | some v =>
    have hsuccess : n.verdict limit e v = .success := by
      simpa [accepts] using List.find?_some hfind
    simp [entry, hsuccess]

end Servers

end Pickaxe.Negotiation
