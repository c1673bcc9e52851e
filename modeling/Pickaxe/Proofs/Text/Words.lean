import Pickaxe.Proofs.Text.Lowercase
import Pickaxe.Text.Blank

/-! The words of a text.

A blank parts the words before it from the words behind it (`words_append`), and what holds no blank is one
word (`words_eq_singleton`). Lowercase letters make no difference to that: blanks stay what they are, and no
other character becomes a blank or nothing (`isBlank_of_mem_lowerChar`), so the words of the text in lowercase are
its words in lowercase (`words_lower`). -/
namespace Pickaxe.Text

/-! ### Cutting at blanks -/

theorem pieces_eq (s : List Char) : pieces s = s.splitOnP isBlank := by
  induction s with
  | nil => rfl
  | cons c rest ih =>
    rw [pieces, ih, List.splitOnP_cons_eq_if_modifyHead]
    split
    · rfl
    · cases hpieces : rest.splitOnP isBlank with
      | nil => exact absurd hpieces (List.splitOnP_ne_nil _ _)
      | cons w ws => rfl

theorem words_eq (s : String) :
    words s = ((s.toList.splitOnP isBlank).filter (· ≠ [])).map String.ofList := by
  rw [words, pieces_eq]

/-- **A blank parts the words.** -/
theorem words_append (a b : String) {w : Char} (hw : isBlank w = true) :
    words (a ++ String.singleton w ++ b) = words a ++ words b := by
  have hlist : (a ++ String.singleton w ++ b).toList = a.toList ++ w :: b.toList := by simp
  rw [words_eq, hlist, List.splitOnP_append_cons _ _ hw, List.filter_append, List.map_append]
  rw [← words_eq, ← words_eq]

/-- **What holds no blank is one word**, unless it is nothing. -/
theorem words_eq_singleton {s : String} (hne : s ≠ "") (hs : ∀ c ∈ s.toList, isBlank c = false) :
    words s = [s] := by
  have hlist : s.toList ≠ [] := fun h => hne (String.toList_inj.mp h)
  rw [words_eq, List.splitOnP_eq_singleton hs]
  simp [hlist]

/-! ### Lowercase words -/

/-- The code points of the blanks. -/
def blankPoints : List Nat :=
  [9, 10, 11, 12, 13, 0x20, 0x85, 0xA0, 0x1680, 0x2000, 0x2001, 0x2002, 0x2003, 0x2004, 0x2005, 0x2006, 0x2007,
    0x2008, 0x2009, 0x200A, 0x2028, 0x2029, 0x202F, 0x205F, 0x3000]

theorem isBlank_iff {c : Char} : isBlank c = true ↔ c.toNat ∈ blankPoints := by
  simp only [isBlank, blankPoints, Bool.or_eq_true, Bool.and_eq_true, decide_eq_true_eq, beq_iff_eq,
    List.mem_cons, List.not_mem_nil, or_false]
  omega

/-- No run of letters begins with blanks or leads to any. -/
theorem notMem_blankPoints {r : CaseRun} (hr : r ∈ caseRuns) {n : Nat} (hn : n ∈ blankPoints) :
    ¬ (r.first ≤ n ∧ n ≤ r.last) ∧ ¬ (r.first + r.offset ≤ n ∧ n ≤ r.last + r.offset) := by
  have hall : ∀ r ∈ caseRuns, ∀ n ∈ blankPoints, ¬ (r.first ≤ n ∧ n ≤ r.last) ∧
      ¬ (r.first + r.offset ≤ n ∧ n ≤ r.last + r.offset) := by decide +kernel
  exact hall r hr n hn

theorem lowerChar_of_isBlank {c : Char} (h : isBlank c = true) : lowerChar c = [c] := by
  have hpoint := isBlank_iff.mp h
  rcases lowerChar_cases c with hc | ⟨hc, -⟩ | ⟨r, hr, hfirst, hlast, -⟩
  · exact hc
  · rw [hc] at hpoint
    exact absurd hpoint (by decide)
  · exact absurd ⟨hfirst, hlast⟩ (notMem_blankPoints hr hpoint).1

/-- Nothing becomes a blank but a blank. -/
theorem isBlank_of_mem_lowerChar {c d : Char} (hc : isBlank c = false) (hd : d ∈ lowerChar c) :
    isBlank d = false := by
  rcases lowerChar_cases c with h | ⟨-, h⟩ | ⟨r, hr, hfirst, hlast, low, h, hlow⟩ <;> rw [h] at hd
  · obtain rfl := List.mem_singleton.mp hd
    exact hc
  · obtain rfl | rfl : d = 'i' ∨ d = Char.ofNat 0x307 := by simpa using hd
    all_goals decide
  · obtain rfl := List.mem_singleton.mp hd
    refine Bool.eq_false_iff.mpr fun hblank => ?_
    exact (notMem_blankPoints hr (isBlank_iff.mp hblank)).2 (by omega)

theorem splitOnP_append_of_unbroken {u : List Char} (hu : ∀ c ∈ u, isBlank c = false) (rest : List Char) :
    (u ++ rest).splitOnP isBlank = (rest.splitOnP isBlank).modifyHead (u ++ ·) := by
  induction u with
  | nil => exact (congrFun List.modifyHead_id _).symm
  | cons c u ih =>
    obtain ⟨hc, hu⟩ := List.forall_mem_cons.mp hu
    rw [List.cons_append, List.splitOnP_cons_eq_if_modifyHead, hc, ih hu]
    exact List.modifyHead_modifyHead ..

/-- The pieces of a text in lowercase are its pieces in lowercase. -/
theorem splitOnP_lower (s : List Char) :
    (s.flatMap lowerChar).splitOnP isBlank = (s.splitOnP isBlank).map (·.flatMap lowerChar) := by
  induction s with
  | nil => rfl
  | cons c rest ih =>
    rw [List.flatMap_cons, List.splitOnP_cons_eq_if_modifyHead]
    split
    · next hc =>
      rw [lowerChar_of_isBlank hc, List.singleton_append, List.splitOnP_cons_eq_if_modifyHead, if_pos hc, ih]
      rfl
    · next hc =>
      have hplain : ∀ d ∈ lowerChar c, isBlank d = false := fun d hd =>
        isBlank_of_mem_lowerChar (Bool.eq_false_iff.mpr hc) hd
      rw [splitOnP_append_of_unbroken hplain, ih]
      cases rest.splitOnP isBlank with
      | nil => rfl
      | cons w ws => rfl

theorem flatMap_lowerChar_eq_nil_iff {w : List Char} : w.flatMap lowerChar = [] ↔ w = [] := by
  rw [List.flatMap_eq_nil_iff]
  exact ⟨fun h => List.eq_nil_iff_forall_not_mem.mpr fun c hc => lowerChar_ne_nil c (h c hc), fun h => by simp [h]⟩

theorem lower_ofList (w : List Char) : lower (String.ofList w) = String.ofList (w.flatMap lowerChar) := by
  rw [lower, String.toList_ofList]

/-- **The words of a text in lowercase are its words in lowercase.** -/
theorem words_lower (s : String) : words (lower s) = (words s).map lower := by
  have hkept (w : List Char) : decide (w.flatMap lowerChar ≠ []) = decide (w ≠ []) := by
    simp only [ne_eq, flatMap_lowerChar_eq_nil_iff]
  rw [words_eq, words_eq, lower, String.toList_ofList, splitOnP_lower, List.filter_map, List.map_map, List.map_map]
  simp only [Function.comp_def, hkept, lower_ofList]

end Pickaxe.Text
