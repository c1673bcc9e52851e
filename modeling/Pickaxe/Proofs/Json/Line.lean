import Pickaxe.Json.Writer
import Pickaxe.Proofs.Text.Utf8

/-! A value on one line.

What is written without blanks shows as it is: names and texts of printable characters, and
integers, make an object of printable characters (`shown_object`). So there is no line break in
it, and each of its bytes is a character. Its last byte is the brace that closes it
(`object_concat`). -/
namespace Pickaxe.Json

open Text

/-- A character of ASCII that shows. -/
def Shown (c : Char) : Prop := 0x20 ≤ c.toNat ∧ c.toNat < 0x7F

instance (c : Char) : Decidable (Shown c) := inferInstanceAs (Decidable (_ ∧ _))

/-- An integer is written with digits, and a sign in front of them. -/
theorem mem_repr {n : Int} {c : Char} (h : c ∈ n.repr.toList) : c = '-' ∨ c.isDigit = true := by
  have hdigits {k : Nat} (hc : c ∈ k.repr.toList) : c.isDigit = true := by
    rw [Nat.toList_repr] at hc
    exact Nat.isDigit_of_mem_toDigits (by decide) (by decide) hc
  rw [Int.repr_eq_if] at h
  split at h
  · exact .inr (hdigits h)
  · rw [String.toList_append, List.mem_append] at h
    exact h.imp (by simp) hdigits

/-- An integer is known by how it is written. -/
theorem eq_of_repr_eq {m n : Int} (h : m.repr = n.repr) : m = n := by
  have hdigits {a b : Nat} (h : a.repr = b.repr) : a = b := by
    have hlist := congrArg String.toList h
    rw [Nat.toList_repr, Nat.toList_repr] at hlist
    rw [← Nat.ofDigitChars_ten_toDigits (n := a), hlist, Nat.ofDigitChars_ten_toDigits]
  -- A sign is no digit, so what is written without one is not written with one.
  have hsign (a b : Nat) : a.repr ≠ "-" ++ b.repr := by
    intro h
    have hmem : '-' ∈ a.repr.toList := by simp [h]
    rw [Nat.toList_repr] at hmem
    exact absurd (Nat.isDigit_of_mem_toDigits (by decide) (by decide) hmem) (by decide)
  rw [Int.repr_eq_if, Int.repr_eq_if] at h
  split at h <;> split at h
  · have := hdigits h
    omega
  · exact absurd h (hsign _ _)
  · exact absurd h.symm (hsign _ _)
  · have := hdigits ((String.append_right_inj _).mp h)
    omega

theorem shown_repr (n : Int) : ∀ c ∈ n.repr.toList, Shown c := by
  intro c hc
  cases mem_repr hc with
  | inl hsign => exact hsign ▸ (by decide)
  | inr hdigit =>
    have hrange : 48 ≤ c.toNat ∧ c.toNat ≤ 57 := Char.isDigit_iff_toNat.mp hdigit
    exact ⟨by omega, by omega⟩

theorem shown_escapeChar {c : Char} (h : Shown c) : ∀ d ∈ escapeChar c, Shown d := by
  by_cases hquote : c = '"'
  · simp [escapeChar, hquote, Shown]
  by_cases hescape : c = '\\'
  · simp [escapeChar, hescape, Shown]
  obtain ⟨hlow, hhigh⟩ := h
  -- The other escapes are for control characters.
  have hcontrol : ∀ k < 0x20, c.toNat ≠ k := fun k hk => by omega
  have hline : c ≠ '\n' := fun h => hcontrol 0x0A (by decide) (by rw [h]; rfl)
  have hreturn : c ≠ '\r' := fun h => hcontrol 0x0D (by decide) (by rw [h]; rfl)
  have htab : c ≠ '\t' := fun h => hcontrol 0x09 (by decide) (by rw [h]; rfl)
  have hself : escapeChar c = [c] := by
    simp [escapeChar, hquote, hescape, hcontrol, hline, hreturn, htab, Nat.not_lt.mpr hlow]
  rw [hself, List.forall_mem_singleton]
  exact ⟨hlow, hhigh⟩

theorem shown_escaped {s : String} (h : ∀ c ∈ s.toList, Shown c) :
    ∀ c ∈ (escaped s).toList, Shown c := by
  have hquote : Shown '"' := ⟨by decide, by decide⟩
  rw [escaped, String.toList_ofList, List.forall_mem_append, List.forall_mem_cons,
    List.forall_mem_singleton]
  refine ⟨⟨hquote, ?_⟩, hquote⟩
  intro d hd
  obtain ⟨c, hc, hd⟩ := List.mem_flatMap.mp hd
  exact shown_escapeChar (h c hc) d hd

theorem shown_intercalate {texts : List String} (h : ∀ s ∈ texts, ∀ c ∈ s.toList, Shown c) :
    ∀ c ∈ (",".intercalate texts).toList, Shown c := by
  induction texts with
  | nil => simp
  | cons s rest ih =>
    obtain ⟨hs, hrest⟩ := List.forall_mem_cons.mp h
    cases rest with
    | nil => simpa using hs
    | cons t rest =>
      rw [String.intercalate_cons_cons, String.toList_append, String.toList_append,
        List.forall_mem_append, List.forall_mem_append]
      exact ⟨⟨hs, by simp [Shown]⟩, ih hrest⟩

/-- **An object of printable members is written in printable characters.** -/
theorem shown_object {members : List (String × Json)}
    (h : ∀ m ∈ members, (∀ c ∈ m.1.toList, Shown c) ∧ ∀ c ∈ (compact m.2).toList, Shown c) :
    ∀ c ∈ (compact (.object members)).toList, Shown c := by
  have hmembers : ∀ s ∈ compactMembers members, ∀ c ∈ s.toList, Shown c := by
    induction members with
    | nil => exact fun s hs => nomatch hs
    | cons m rest ih =>
      obtain ⟨⟨hname, hvalue⟩, hrest⟩ := List.forall_mem_cons.mp h
      rw [compactMembers, List.forall_mem_cons]
      refine ⟨?_, ih hrest⟩
      rw [String.toList_append, String.toList_append, List.forall_mem_append,
        List.forall_mem_append]
      exact ⟨⟨shown_escaped hname, by simp [Shown]⟩, hvalue⟩
  rw [compact, String.toList_append, String.toList_append, List.forall_mem_append,
    List.forall_mem_append]
  exact ⟨⟨by simp [Shown], shown_intercalate hmembers⟩, by simp [Shown]⟩

/-- Printable characters are a byte each. -/
theorem encode_shown {s : String} (h : ∀ c ∈ s.toList, Shown c) :
    ∀ b ∈ Utf8.encode s, 0x20 ≤ b.toNat ∧ b.toNat < 0x7F := by
  intro b hb
  obtain ⟨c, hc, hbyte⟩ :=
    Utf8.mem_encode_ascii (fun c hc => Nat.lt_trans (h c hc).2 (by decide)) hb
  rw [hbyte]
  exact h c hc

/-- An object ends in its brace. -/
theorem object_concat (members : List (String × Json)) :
    ∃ body, Utf8.encode (compact (.object members)) = body ++ [0x7D] := by
  have hclose : Utf8.encode "\x7d" = [0x7D] := rfl
  exact ⟨_, by rw [compact, Utf8.encode_append, hclose]⟩

end Pickaxe.Json
