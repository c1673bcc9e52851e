import Pickaxe.Proofs.Json.Scanner

/-! Blanks around a text.

A blank carries on nothing but a string that is open, so behind a text it changes nothing, and it makes no
text of what is none (`read?_append_blank`). What holds no byte that a value can begin with is no text
(`read?_of_no_value`). -/
namespace Pickaxe.Json

namespace Scanner

variable {s s' : Scanner} {b : UInt8}

/-! ### Words -/

/-- A word that has begun goes on without blanks. -/
def Lettered (s : Scanner) : Prop := ∀ left v, s.mode = .word left v → ∀ b ∈ left, isSpace b = false

theorem lettered_finish (d : Document) (stack : List Open) : Lettered (finish d stack) := by
  intro left v hmode
  cases stack with
  | nil => cases hmode
  | cons top stack => cases top <;> cases hmode

theorem lettered_step (hs : Lettered s) (h : s.step b = some s') : Lettered s' := by
  intro left v hmode
  cases stepped_step h with
  | stays => exact hs left v hmode
  | ends d stack => exact lettered_finish d stack left v hmode
  | goesOn hword =>
    cases hword left v hmode with
    | inl hbefore =>
      obtain ⟨c, hbefore⟩ := hbefore
      exact fun b hb => hs (c :: left) v hbefore b (List.mem_cons_of_mem c hb)
    | inr hletters => exact hletters

theorem lettered_run {bytes : List UInt8} (hs : Lettered s) (h : s.run bytes = some s') : Lettered s' := by
  induction bytes generalizing s with
  | nil =>
    cases h
    exact hs
  | cons b rest ih =>
    obtain ⟨next, hnext, hrest⟩ := Option.bind_eq_some_iff.mp h
    exact ih (lettered_step hs hnext) hrest

/-! ### A blank behind it all -/

theorem isSpace_cases (h : isSpace b = true) : b = 0x20 ∨ b = 0x09 ∨ b = 0x0A ∨ b = 0x0D := by
  simpa [isSpace, or_assoc] using h

theorem next_space (h : isSpace b = true) (s : Scanner) : s.next b = some s := if_pos h

/-- A blank does not carry a number on. -/
theorem extend_space (h : isSpace b = true) (part : NumeralPart) (n : Numeral) : extend part n b = none := by
  obtain rfl | rfl | rfl | rfl := isSpace_cases h
  all_goals cases part <;> rfl

theorem result_finish (d : Document) (stack : List Open) : (finish d stack).result = (finish d stack).root := by
  cases stack with
  | nil => rfl
  | cons top stack => cases top <;> rfl

/-- No value begins outside of ASCII. -/
theorem begin_lt {stack : List Open} (h : begin stack b = some s') : b < 0x80 := by
  simp only [begin, isDigit] at h
  grind

/-- The text may end before a blank if and only if it may end behind it. -/
theorem result_step_space (hs : Lettered s) (h : isSpace b = true) : (s.step b).bind result = s.result := by
  obtain ⟨stack, mode, root⟩ := s
  cases mode with
  | value | firstItem | key | firstKey | colon | after => simp [step, next, h]
  | word left v =>
    cases left with
    | nil => rfl
    | cons c left =>
      have hne : b ≠ c := fun hb => Bool.false_ne_true
        ((hs _ _ rfl c (List.mem_cons_self ..)).symm.trans (hb ▸ h))
      simp only [step, if_neg hne]
      rfl
  | string isKey glyphs escape =>
    obtain rfl | rfl | rfl | rfl := isSpace_cases h
    all_goals cases escape <;> rfl
  | number part n =>
    simp only [step, extend_space h, next_space h]
    cases hended : ended part n with
    | none =>
      simp only [result, hended]
      rfl
    | some n' =>
      rw [Option.bind_some, Option.bind_some, result_finish]
      simp only [result, hended, Option.bind_some]

end Scanner

/-- **A blank behind a text is nothing.** -/
theorem read?_append_blank (bytes : List UInt8) {b : UInt8} (h : Scanner.isSpace b = true) :
    Document.read? (bytes ++ [b]) = Document.read? bytes := by
  rw [Document.read?, Scanner.run_append, Document.read?]
  cases hrun : Scanner.initial.run bytes with
  | none => rfl
  | some s =>
    have hstart : Scanner.initial.Lettered := fun _ _ hmode => nomatch hmode
    have hlettered : s.Lettered := Scanner.lettered_run hstart hrun
    have hone : s.run [b] = s.step b := Option.bind_fun_some _
    rw [Option.bind_some, Option.bind_some, hone, Scanner.result_step_space hlettered h]

/-- **A text holds a byte that a value can begin with.** -/
theorem read?_of_no_value {bytes : List UInt8}
    (h : ∀ b ∈ bytes, Scanner.isSpace b = true ∨ Scanner.begin [] b = none) : Document.read? bytes = none := by
  have hrun : Scanner.initial.run bytes = some .initial ∨ Scanner.initial.run bytes = none := by
    induction bytes with
    | nil => exact .inl rfl
    | cons b rest ih =>
      obtain ⟨hb, hrest⟩ := List.forall_mem_cons.mp h
      rw [Scanner.run_cons]
      by_cases hspace : Scanner.isSpace b = true
      · have hstep : Scanner.initial.step b = some .initial := if_pos hspace
        rw [hstep]
        exact ih hrest
      · have hstep : Scanner.initial.step b = none := (if_neg hspace).trans (hb.resolve_left hspace)
        rw [hstep]
        exact .inr rfl
  rw [Document.read?]
  cases hrun with
  | inl hsome =>
    rw [hsome]
    rfl
  | inr hnone =>
    rw [hnone]
    rfl

end Pickaxe.Json
