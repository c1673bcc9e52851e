import Mathlib.Data.List.DropRight
import Mathlib.Data.List.TakeWhile
import Pickaxe.Text.Blank

/-! What is left of a text without the blanks at its ends: nothing if there are only blanks
(`trim_eq_empty_iff`), the whole text if there is none at its ends (`trim_eq_self`). -/
namespace Pickaxe.Text

/-- Nothing is left if and only if there is nothing but blanks. -/
theorem trim_eq_empty_iff {s : String} : trim s = "" ↔ ∀ c ∈ s.toList, isBlank c = true := by
  have hempty {cs : List Char} : String.ofList cs = "" ↔ cs = [] := by
    rw [← String.toList_inj, String.toList_ofList, String.toList_empty]
  rw [trim, hempty, trimRight, List.reverse_eq_nil_iff, List.dropWhile_eq_nil_iff]
  constructor
  · intro hleft
    -- what the first cut leaves starts with no blank, and the second cut leaves none of it
    refine List.dropWhile_eq_nil_iff.mp (Decidable.byContradiction fun hne => ?_)
    have hstart : isBlank ((s.toList.dropWhile isBlank).head hne) = true :=
      hleft _ (List.mem_reverse.mpr (List.head_mem hne))
    exact Bool.false_ne_true ((List.head_dropWhile_not isBlank hne).symm.trans hstart)
  · intro hall c hc
    exact hall c ((List.dropWhile_sublist _).mem (List.mem_reverse.mp hc))

theorem toList_trim (s : String) : (trim s).toList = (s.toList.dropWhile isBlank).rdropWhile isBlank :=
  String.toList_ofList ..

/-- What is left begins with no blank. -/
theorem isBlank_head_trim {s : String} {c : Char} (h : (trim s).toList.head? = some c) : isBlank c = false := by
  obtain ⟨cut, hcut⟩ : (trim s).toList <+: s.toList.dropWhile isBlank := by
    rw [toList_trim]
    exact List.rdropWhile_prefix isBlank _
  have hhead : (s.toList.dropWhile isBlank).head? = some c := by
    rw [← hcut, List.head?_append, h]
    rfl
  have hnot := List.head?_dropWhile_not isBlank s.toList
  rwa [hhead] at hnot

/-- What is left ends with no blank. -/
theorem isBlank_getLast_trim {s : String} {c : Char} (h : (trim s).toList.getLast? = some c) :
    isBlank c = false := by
  have hne : (s.toList.dropWhile isBlank).rdropWhile isBlank ≠ [] := fun hnil => by
    rw [toList_trim, hnil] at h
    cases h
  rw [toList_trim, List.getLast?_eq_some_getLast hne] at h
  cases h
  exact Bool.eq_false_iff.mpr (List.rdropWhile_last_not isBlank _ hne)

theorem toList_trim_sublist (s : String) : (trim s).toList.Sublist s.toList := by
  rw [toList_trim]
  exact (List.rdropWhile_prefix isBlank _).sublist.trans (List.dropWhile_sublist isBlank)

theorem length_trim_le (s : String) : (trim s).toList.length ≤ s.toList.length :=
  (toList_trim_sublist s).length_le

/-- A text that gets no shorter stays as it is. -/
theorem trim_eq_self_of_length_le {s : String} (h : s.toList.length ≤ (trim s).toList.length) : trim s = s :=
  String.toList_inj.mp ((toList_trim_sublist s).eq_of_length_le h)

/-- A text without blanks at its ends stays as it is. -/
theorem trim_eq_self {s : String} (hhead : ∀ c ∈ s.toList.head?, isBlank c = false)
    (hlast : ∀ c ∈ s.toList.getLast?, isBlank c = false) : trim s = s := by
  have hleft : s.toList.dropWhile isBlank = s.toList := by
    cases hlist : s.toList with
    | nil => rfl
    | cons c rest => exact List.dropWhile_cons_of_neg (by simp [hhead c (by simp [hlist])])
  have hright : s.toList.rdropWhile isBlank = s.toList :=
    List.rdropWhile_eq_self_iff.mpr fun hne => by simp [hlast _ (List.getLast?_eq_some_getLast hne)]
  rw [← String.toList_inj, toList_trim, hleft, hright]

end Pickaxe.Text
