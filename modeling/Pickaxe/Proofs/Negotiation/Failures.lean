import Pickaxe.Proofs.Negotiation.Turns

/-! Failures in the ledger.

A version that has failed is not tried again: each run passes over the failures that it finds, and
tries no version twice itself. So at every moment, wherever runs have crashed and whichever calls
of the store have failed, the ledger holds at most one failure of a version, and nothing about the
version below it (`Settled`). It takes an empty ledger for the version to be tried again
(`failed_once`). -/
namespace Pickaxe.Negotiation

open Packet (Version)
open Server (Endpoint)

variable {σ ν : Type} [Store σ]

/-! ### Settled ledgers -/

/-- Nothing about a version stands below a failure of it. -/
def Settled (ledger : List Attempt) : Prop :=
  ledger.Pairwise fun a b => a.outcome ≠ .success → b.candidate ≠ a.candidate

theorem mem_ruledOut {ledger : List Attempt} {v : Version} :
    v ∈ Controller.ruledOut ledger ↔ ∃ a ∈ ledger, a.outcome ≠ .success ∧ a.candidate = v := by
  simp [Controller.ruledOut, and_assoc]

theorem settled_append {ledger : List Attempt} (h : Settled ledger) {a : Attempt}
    (ha : a.candidate ∉ Controller.ruledOut ledger) : Settled (ledger ++ [a]) := by
  refine List.pairwise_append.mpr ⟨h, List.pairwise_singleton .., ?_⟩
  intro b hb c hc hfailed hsame
  rw [List.mem_singleton.mp hc] at hsame
  exact ha (mem_ruledOut.mpr ⟨b, hb, hfailed, hsame.symm⟩)

theorem mem_ruledOut_append {ledger : List Attempt} {a : Attempt} {v : Version}
    (hv : v ∈ Controller.ruledOut (ledger ++ [a])) :
    v ∈ Controller.ruledOut ledger ∨ v = a.candidate := by
  obtain ⟨b, hb, hfailed, hcandidate⟩ := mem_ruledOut.mp hv
  rcases List.mem_append.mp hb with hb | hb
  · exact .inl (mem_ruledOut.mpr ⟨b, hb, hfailed, hcandidate⟩)
  · exact .inr (List.mem_singleton.mp hb ▸ hcandidate.symm)

/-! ### Changes of a ledger -/

/-- The versions whose trials are put in the ledger. -/
def entered : List Change → List Version
  | [] => []
  | .append a :: rest => a.candidate :: entered rest
  | .saveRecord _ :: rest | .deleteRecord :: rest | .clearLedger :: rest => entered rest

theorem entered_take (changes : List Change) (n : Nat) :
    entered (changes.take n) <+: entered changes := by
  induction changes generalizing n with
  | nil => cases n <;> exact List.nil_prefix
  | cons change rest ih =>
    cases n with
    | zero => exact List.nil_prefix
    | succ n =>
      cases change with
      | append a => exact (List.prefix_cons_inj _).mpr (ih n)
      | saveRecord _ | deleteRecord | clearLedger => exact ih n

section
variable [LawfulStore σ]

/-- A ledger stays settled if no version is put in it that failed before, and none twice. -/
theorem Faulty.settled_replay (changes : List Change) (s : Faulty σ) {ledger : List Attempt}
    (hload : Store.loadLedger s.inner = .ok ledger) (hsettled : Settled ledger)
    (hnodup : (entered changes).Nodup)
    (hnew : ∀ v ∈ entered changes, v ∉ Controller.ruledOut ledger) :
    ∃ ledger', Store.loadLedger (replay changes s).inner = .ok ledger' ∧ Settled ledger' := by
  induction changes generalizing s ledger with
  | nil => exact ⟨ledger, hload, hsettled⟩
  | cons change rest ih =>
    rcases Faulty.made_or_unchanged change s with hmade | hunchanged
    · cases change with
      | append a =>
        obtain ⟨hfirst, hrest⟩ := List.nodup_cons.mp hnodup
        refine ih _ (hmade.ledger ledger hload)
          (settled_append hsettled (hnew a.candidate (List.mem_cons_self ..))) hrest ?_
        intro v hv hout
        rcases mem_ruledOut_append hout with hout | rfl
        · exact hnew v (List.mem_cons_of_mem _ hv) hout
        · exact hfirst hv
      | clearLedger => exact ih _ hmade.ledger List.Pairwise.nil hnodup fun _ _ => List.not_mem_nil
      | saveRecord r => exact ih _ (hmade.ledger.trans hload) hsettled hnodup hnew
      | deleteRecord => exact ih _ (hmade.ledger.trans hload) hsettled hnodup hnew
    · have hload' := hunchanged.ledger.trans hload
      cases change with
      | append a =>
        exact ih _ hload' hsettled (List.nodup_cons.mp hnodup).2
          fun v hv => hnew v (List.mem_cons_of_mem _ hv)
      | saveRecord _ | deleteRecord | clearLedger => exact ih _ hload' hsettled hnodup hnew

/-- A ledger grows at its end, unless it is empty at some moment. -/
theorem Faulty.ledger_replay (changes : List Change) (s : Faulty σ) {ledger : List Attempt}
    (hload : Store.loadLedger s.inner = .ok ledger) :
    (∃ n, Store.loadLedger (replay (changes.take n) s).inner = .ok []) ∨
      ∃ more, Store.loadLedger (replay changes s).inner = .ok (ledger ++ more) := by
  induction changes generalizing s ledger with
  | nil => exact .inr ⟨[], by rwa [List.append_nil]⟩
  | cons change rest ih =>
    have hlater : ∀ {grown : List Attempt} (added : List Attempt), grown = ledger ++ added →
        Store.loadLedger (change.apply s).2.inner = .ok grown →
        (∃ n, Store.loadLedger (replay ((change :: rest).take n) s).inner = .ok []) ∨
          ∃ more, Store.loadLedger (replay (change :: rest) s).inner = .ok (ledger ++ more) := by
      intro grown added hgrown hload'
      rcases ih _ hload' with ⟨n, hempty⟩ | ⟨more, hmore⟩
      · exact .inl ⟨n + 1, hempty⟩
      · refine .inr ⟨added ++ more, ?_⟩
        rw [← List.append_assoc, ← hgrown]
        exact hmore
    rcases Faulty.made_or_unchanged change s with hmade | hunchanged
    · cases change with
      | append a => exact hlater [a] rfl (hmade.ledger ledger hload)
      | clearLedger => exact .inl ⟨1, hmade.ledger⟩
      | saveRecord _ | deleteRecord =>
        exact hlater [] (List.append_nil _).symm (hmade.ledger.trans hload)
    · exact hlater [] (List.append_nil _).symm (hunchanged.ledger.trans hload)

end

/-! ### The trials of a run -/

section
variable {e : Endpoint} {limit : Duration} {now : UInt64} {heard : List Exchange}
  {changes : List Change} {result : Except Error Outcome}

/-- A walk tries candidates from the first on, and asks for every trial to be put in the ledger. -/
theorem Walked.tried_initial {left : List Version} {s : σ}
    (h : Walked e limit now left s heard changes result) :
    tried heard <+: left ∧ entered changes = tried heard := by
  induction h with
  | exhausted | unforgotten => exact ⟨List.nil_prefix, rfl⟩
  | unwritten v left => exact ⟨⟨left, rfl⟩, rfl⟩
  | failed v _ _ _ _ ih => exact ⟨(List.prefix_cons_inj v).mpr ih.1, congrArg (v :: ·) ih.2⟩
  | unsaved v left => exact ⟨⟨left, rfl⟩, rfl⟩
  | accepted v left => exact ⟨⟨left, rfl⟩, rfl⟩

theorem Discovered.tried_nodup {s : σ} (h : Discovered e limit now s heard changes result) :
    (tried heard).Nodup ∧ entered changes = tried heard := by
  cases h with
  | unlisted => exact ⟨List.nodup_nil, rfl⟩
  | walked answer all ledger hall _ hwalk =>
    obtain ⟨hinitial, hentered⟩ := hwalk.tried_initial
    exact ⟨(hall.sublist List.filter_sublist).sublist hinitial.sublist, hentered⟩

/-- No run tries a version twice. -/
theorem Ran.tried_nodup {force : Bool} {s : σ} (h : Ran e limit now force s heard changes result) :
    (tried heard).Nodup ∧ entered changes = tried heard := by
  cases h with
  | unread | recorded | uncleared => exact ⟨List.nodup_nil, rfl⟩
  | unrecorded _ hrest | forced _ hrest => exact hrest.tried_nodup

theorem Discovered.tried_new {s : Faulty σ} (h : Discovered e limit now s heard changes result)
    {ledger : List Attempt} (hload : Store.loadLedger s.inner = .ok ledger) :
    ∀ v ∈ tried heard, v ∉ Controller.ruledOut ledger := by
  intro v hv
  cases h with
  | unlisted => exact absurd hv List.not_mem_nil
  | walked answer all found _ hfound hwalk =>
    have hsame : found = ledger :=
      Except.ok.inj ((Faulty.loadLedger_inner hfound).symm.trans hload)
    have hleft := hwalk.tried_initial.1.subset hv
    rw [hsame] at hleft
    simpa using (List.mem_filter.mp hleft).2

/-- A run that is not forced tries no version that failed before. -/
theorem Ran.tried_new {s : Faulty σ} (h : Ran e limit now false s heard changes result)
    {ledger : List Attempt} (hload : Store.loadLedger s.inner = .ok ledger) :
    ∀ v ∈ tried heard, v ∉ Controller.ruledOut ledger := by
  cases h with
  | unread | recorded => exact fun _ hv => absurd hv List.not_mem_nil
  | unrecorded _ hrest => exact hrest.tried_new hload

variable [LawfulStore σ]

/-- A forced run that tries a version has cleared the ledger before. -/
theorem Ran.tried_forced {s : Faulty σ} (h : Ran e limit now true s heard changes result)
    {v : Version} (hv : v ∈ tried heard) :
    Store.loadLedger (replay (changes.take 1) s).inner = .ok [] := by
  cases h with
  | uncleared => exact absurd hv List.not_mem_nil
  | forced hcleared => exact (Faulty.made _ _ hcleared).ledger

/-- Wherever a run crashes, it leaves a settled ledger settled. -/
theorem Ran.settled {force : Bool} {s : Faulty σ}
    (h : Ran e limit now force s heard changes result) {ledger : List Attempt}
    (hload : Store.loadLedger s.inner = .ok ledger) (hsettled : Settled ledger) (n : Nat) :
    ∃ ledger', Store.loadLedger (replay (changes.take n) s).inner = .ok ledger' ∧
      Settled ledger' := by
  obtain ⟨hnodup, hentered⟩ := h.tried_nodup
  rw [← hentered] at hnodup
  have hsublist := (entered_take changes n).sublist
  cases force with
  | false =>
    refine Faulty.settled_replay _ s hload hsettled (hnodup.sublist hsublist) fun v hv => ?_
    exact h.tried_new hload v (hentered ▸ hsublist.subset hv)
  | true =>
    cases n with
    | zero => exact ⟨ledger, hload, hsettled⟩
    | succ n =>
      cases h with
      | uncleared error =>
        exact Faulty.settled_replay _ s hload hsettled
          (hnodup.sublist hsublist) fun v hv => absurd (hsublist.subset hv) List.not_mem_nil
      | forced hcleared _ =>
        -- From here on the ledger is empty, whatever it was.
        exact Faulty.settled_replay (List.take n _) (Change.clearLedger.apply s).2
          (Faulty.made _ _ hcleared).ledger List.Pairwise.nil (hnodup.sublist hsublist)
          fun _ _ => List.not_mem_nil

end

/-! ### Turns -/

section
variable [Network ν] [LawfulStore σ]

namespace Turn

/-- At some moment of the turn the ledger is empty. -/
def Empties (x : Turn ν) (s : σ) : Prop :=
  ∃ n, Store.loadLedger (x.left (x.onto s) ((x.made s).take n)) = .ok []

theorem leaves_settled (x : Turn ν) {s : σ} {ledger : List Attempt}
    (hload : Store.loadLedger s = .ok ledger) (hsettled : Settled ledger) :
    ∃ ledger', Store.loadLedger (x.leaves s) = .ok ledger' ∧ Settled ledger' := by
  let c := x.start (x.onto s)
  obtain ⟨n, hmade⟩ := x.made_eq_take s
  have hleaves : x.leaves s = (replay ((x.writes (x.onto s)).take n) c.store).inner := by
    rw [leaves, hmade]
    rfl
  rw [hleaves, Step.writes]
  cases x.command with
  | run force => exact (c.run_ran force x.now).settled hload hsettled n
  | clean =>
    have hnone : entered (c.writes .clean x.now) = [] := by
      rcases c.clean_writes x.now with h | h <;> rw [h] <;> rfl
    have hsublist := (entered_take (c.writes .clean x.now) n).sublist
    rw [hnone] at hsublist
    exact Faulty.settled_replay _ c.store hload hsettled (List.nodup_nil.sublist hsublist)
      fun v hv => absurd (hsublist.subset hv) List.not_mem_nil

theorem leaves_grown (x : Turn ν) {s : σ} {ledger : List Attempt}
    (hload : Store.loadLedger s = .ok ledger) :
    x.Empties s ∨ ∃ more, Store.loadLedger (x.leaves s) = .ok (ledger ++ more) :=
  Faulty.ledger_replay (x.made s) (x.start (x.onto s)).store hload

omit [LawfulStore σ] in
theorem tried_nodup (x : Turn ν) (s : σ) : (tried (x.heard (x.onto s))).Nodup := by
  rw [Step.heard]
  cases x.command with
  | run force => exact ((x.start (x.onto s)).run_ran force x.now).tried_nodup.1
  | clean =>
    rw [Controller.clean_heard]
    exact List.nodup_nil

/-- A version that failed before is tried only by a forced run, which clears the ledger first. -/
theorem forced_of_tried (x : Turn ν) {s : σ} {ledger : List Attempt}
    (hload : Store.loadLedger s = .ok ledger) {v : Version}
    (hv : v ∈ tried (x.heard (x.onto s))) (hout : v ∈ Controller.ruledOut ledger) :
    x.command = .run true ∧
      Store.loadLedger (x.left (x.onto s) ((x.writes (x.onto s)).take 1)) = .ok [] := by
  let c := x.start (x.onto s)
  rw [Step.heard] at hv
  rw [Step.writes]
  cases hcommand : x.command with
  | clean =>
    rw [hcommand, Controller.clean_heard] at hv
    exact absurd hv List.not_mem_nil
  | run force =>
    rw [hcommand] at hv
    have hran := c.run_ran force x.now
    cases force with
    | true => exact ⟨rfl, hran.tried_forced hv⟩
    | false => exact absurd hout (hran.tried_new hload v hv)

end Turn

theorem takeTurns_settled (history : List (Turn ν)) {s : σ} {ledger : List Attempt}
    (hload : Store.loadLedger s = .ok ledger) (hsettled : Settled ledger) :
    ∃ ledger', Store.loadLedger (takeTurns history s) = .ok ledger' ∧ Settled ledger' := by
  induction history generalizing s ledger with
  | nil => exact ⟨ledger, hload, hsettled⟩
  | cons x rest ih =>
    obtain ⟨ledger', hload', hsettled'⟩ := x.leaves_settled hload hsettled
    exact ih hload' hsettled'

theorem takeTurns_grown (history : List (Turn ν)) {s : σ} {ledger : List Attempt}
    (hload : Store.loadLedger s = .ok ledger) :
    (∃ first y rest, history = first ++ y :: rest ∧ y.Empties (takeTurns first s)) ∨
      ∃ more, Store.loadLedger (takeTurns history s) = .ok (ledger ++ more) := by
  induction history generalizing s ledger with
  | nil => exact .inr ⟨[], by rwa [List.append_nil]⟩
  | cons x rest ih =>
    rcases x.leaves_grown hload with hempties | ⟨more, hmore⟩
    · exact .inl ⟨[], x, rest, rfl, hempties⟩
    · rcases ih hmore with ⟨first, y, rest', rfl, hempties⟩ | ⟨more', hmore'⟩
      · exact .inl ⟨x :: first, y, rest', rfl, hempties⟩
      · refine .inr ⟨more ++ more', ?_⟩
        rw [← List.append_assoc]
        exact hmore'

/-- **A version that has failed is not tried again before the ledger is empty.** From an empty
ledger on, whatever turns controllers take, with whatever faults and crashes: the ledger is settled
at every moment, no turn tries a version twice, and one that tries a version of which the ledger
has held a failure comes after a moment at which the ledger was empty. -/
theorem failed_once {s : σ} (hs : Store.loadLedger s = .ok []) (before after : List (Turn ν))
    (x : Turn ν) :
    let found := takeTurns (before ++ after) s
    (tried (x.heard (x.onto found))).Nodup ∧
      ∃ ledger, Store.loadLedger (takeTurns before s) = .ok ledger ∧ Settled ledger ∧
        ∀ v ∈ Controller.ruledOut ledger, v ∈ tried (x.heard (x.onto found)) →
          (∃ first y rest, after = first ++ y :: rest ∧
            y.Empties (takeTurns (before ++ first) s)) ∨
          (x.command = .run true ∧
            Store.loadLedger (x.left (x.onto found) ((x.writes (x.onto found)).take 1)) =
              .ok []) := by
  intro found
  obtain ⟨ledger, hload, hsettled⟩ := takeTurns_settled before hs List.Pairwise.nil
  refine ⟨x.tried_nodup found, ledger, hload, hsettled, ?_⟩
  intro v hout hv
  rcases takeTurns_grown after hload with ⟨first, y, rest, hafter, hempties⟩ | ⟨more, hmore⟩
  · rw [← takeTurns_append] at hempties
    exact .inl ⟨first, y, rest, hafter, hempties⟩
  · -- The failure is still in the ledger that the turn finds.
    rw [← takeTurns_append] at hmore
    obtain ⟨a, ha, hfailed⟩ := mem_ruledOut.mp hout
    have hstill : v ∈ Controller.ruledOut (ledger ++ more) :=
      mem_ruledOut.mpr ⟨a, List.mem_append_left more ha, hfailed⟩
    exact .inr (x.forced_of_tried hmore hv hstill)

/-- A run crashes after two trials, and a run that is forced tries the two versions again. -/
theorem failed_once_crashed :
    let turn (command : Command) (crash : Option Nat) : Turn Servers :=
      ⟨⟨command, 0, fun _ _ => none⟩,
        .new () (.accepting 769) ⟨"localhost", 25565⟩ 765 .standard, crash⟩
    let crashed := turn (.run false) (some 2)
    let forced := turn (.run true) none
    let found := takeTurns [crashed] MemoryStore.empty
    let failures : List Attempt := [⟨767, .incompatibleClient⟩, ⟨768, .incompatibleClient⟩]
    found.ledger = failures ∧ Settled failures ∧
      tried (forced.heard (forced.onto found)) = [767, 768, 766, 769] ∧
      (forced.left (forced.onto found)
        ((forced.writes (forced.onto found)).take 1)).ledger = [] := by
  intro turn crashed forced found failures
  have htried : tried (forced.heard (forced.onto found)) = [767, 768, 766, 769] := rfl
  obtain ⟨-, ledger, hload, hsettled, hagain⟩ :=
    failed_once (show Store.loadLedger MemoryStore.empty = .ok [] from rfl) [crashed] [] forced
  obtain rfl : ledger = failures := (Except.ok.inj hload).symm
  refine ⟨rfl, hsettled, htried, ?_⟩
  have hout : (767 : Version) ∈ Controller.ruledOut failures := by decide
  have hmem : (767 : Version) ∈ tried (forced.heard (forced.onto found)) := by
    rw [htried]
    decide
  rcases hagain 767 hout hmem with ⟨first, y, rest, hnone, -⟩ | ⟨-, hempty⟩
  · simp at hnone
  · exact Except.ok.inj hempty

end

end Pickaxe.Negotiation
