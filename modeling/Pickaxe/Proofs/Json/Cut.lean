import Pickaxe.Proofs.Json.Scanner

/-! Texts that are cut off.

A text may end only where no container is open, and from there on nothing comes but blanks and the
rest of a number. So what stands before a closing brace of a text is no text (`read?_cut`). -/
namespace Pickaxe.Json

namespace Scanner

/-! ### The value of the whole text -/

/-- The value of the whole text is known at most outside of all containers. -/
def Rooted (s : Scanner) : Prop := s.root ≠ none → s.stack = []

theorem rooted_of_root {s : Scanner} (h : s.root = none) : Rooted s := fun hroot => absurd h hroot

theorem rooted_finish (d : Document) (stack : List Open) : Rooted (finish d stack) := by
  cases stack with
  | nil => exact fun _ => rfl
  | cons top stack => cases top <;> exact rooted_of_root rfl

section
variable {s s' : Scanner} {b : UInt8}

theorem rooted_step (hs : Rooted s) (h : s.step b = some s') : Rooted s' := by
  cases stepped_step h with
  | stays => exact hs
  | ends d stack => exact rooted_finish d stack
  | goesOn => exact rooted_of_root rfl

theorem rooted_run {bytes : List UInt8} (hs : Rooted s) (h : s.run bytes = some s') :
    Rooted s' := by
  induction bytes generalizing s with
  | nil =>
    cases h
    exact hs
  | cons b rest ih =>
    obtain ⟨next, hnext, hrest⟩ := Option.bind_eq_some_iff.mp h
    exact ih (rooted_step hs hnext) hrest

/-! ### Behind the value -/

/-- Outside of all containers, with a value that has come to its end or may have. -/
def Outer (s : Scanner) : Prop :=
  s.stack = [] ∧ (s.mode = .after ∨ ∃ part n, s.mode = .number part n)

/-- A text ends nowhere else. -/
theorem outer_of_result {d : Document} (hs : Rooted s) (h : s.result = some d) : Outer s := by
  obtain ⟨stack, mode, root⟩ := s
  cases mode with
  | after =>
    have hroot : root = some d := h
    exact ⟨hs (by rw [hroot]; exact Option.some_ne_none d), .inl rfl⟩
  | number part n =>
    obtain ⟨n', -, hroot⟩ := Option.bind_eq_some_iff.mp h
    cases stack with
    | nil => exact ⟨rfl, .inr ⟨part, n, rfl⟩⟩
    | cons top stack => cases top <;> cases hroot
  | _ => cases h

theorem extend_brace (part : NumeralPart) (n : Numeral) : extend part n 0x7D = none := by
  cases part <;> rfl

/-- Then only blanks may follow, or what carries a number on. -/
theorem outer_step (hs : Outer s) (h : s.step b = some s') : Outer s' ∧ b ≠ 0x7D := by
  obtain ⟨stack, mode, root⟩ := s
  obtain ⟨rfl, hmode⟩ := hs
  -- After a value that stands in no container, a byte is a blank.
  have hblank : ∀ root s', (⟨[], .after, root⟩ : Scanner).next b = some s' →
      Outer s' ∧ b ≠ 0x7D := by
    intro root s' h
    unfold next at h
    split at h
    · rename_i hspace
      cases h
      refine ⟨⟨rfl, .inl rfl⟩, ?_⟩
      rintro rfl
      cases hspace
    · cases h
  rcases hmode with rfl | ⟨part, n, rfl⟩
  · exact hblank root s' h
  · simp only [step] at h
    split at h
    · rename_i part' n' hextend
      cases h
      refine ⟨⟨rfl, .inr ⟨part', n', rfl⟩⟩, ?_⟩
      rintro rfl
      rw [extend_brace] at hextend
      cases hextend
    · obtain ⟨n', -, hnext⟩ := Option.bind_eq_some_iff.mp h
      exact hblank _ s' hnext

theorem outer_run {bytes : List UInt8} (hs : Outer s) (h : s.run bytes = some s') :
    0x7D ∉ bytes := by
  induction bytes generalizing s with
  | nil => exact List.not_mem_nil
  | cons b rest ih =>
    obtain ⟨next, hnext, hrest⟩ := Option.bind_eq_some_iff.mp h
    obtain ⟨houter, hb⟩ := outer_step hs hnext
    rw [List.mem_cons, not_or]
    exact ⟨Ne.symm hb, ih houter hrest⟩

end

end Scanner

/-- **A text that is cut off before a closing brace is no text.** -/
theorem read?_cut {bytes rest : List UInt8} {d : Document}
    (h : Document.read? (bytes ++ rest) = some d) (hrest : 0x7D ∈ rest) :
    Document.read? bytes = none := by
  obtain ⟨s, hrun, -⟩ := Option.bind_eq_some_iff.mp h
  rw [Scanner.run_append] at hrun
  obtain ⟨s', hbytes, hrun⟩ := Option.bind_eq_some_iff.mp hrun
  rw [Document.read?, hbytes, Option.bind_some]
  have hrooted : s'.Rooted := Scanner.rooted_run (Scanner.rooted_of_root rfl) hbytes
  cases hresult : s'.result with
  | none => rfl
  | some d' => exact absurd hrest (Scanner.outer_run (Scanner.outer_of_result hrooted hresult) hrun)

end Pickaxe.Json
