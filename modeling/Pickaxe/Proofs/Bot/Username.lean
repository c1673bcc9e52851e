import Pickaxe.Bot.Config
import Pickaxe.Proofs.Text.Blank

/-! The name of the player.

A name is trimmed, and what is left is cut to length. Nothing is trimmed behind the cut: where the last
character that it keeps is a blank, the name ends with a blank (`getLast_usableName_iff`). So the names that
stay as they are, are the usable ones (`usableName_eq_self_iff`), but a name is not always usable once it has been
validated, only once it has been validated twice (`validated_username_iff`). -/
namespace Pickaxe.Bot.Config

open Text (isBlank trim)

/-- A name that a player can have. -/
structure Usable (name : String) : Prop where
  nonempty : name ≠ ""
  short : name.length ≤ maxUsername
  first : ∀ c ∈ name.toList.head?, isBlank c = false
  last : ∀ c ∈ name.toList.getLast?, isBlank c = false

/-- Without the blanks around it, the name has a blank where the length of names ends. -/
def CutAtBlank (name : String) : Prop := ∃ c ∈ (trim name).toList[maxUsername - 1]?, isBlank c = true

variable {name : String}

/-! ### Trimmed and cut -/

theorem usable_standard : Usable standardUsername where
  nonempty := by decide
  short := by decide
  first := by
    rintro c ⟨⟩
    rfl
  last := by
    rintro c ⟨⟩
    rfl

theorem usableName_of_blank (h : trim name = "") : usableName name = standardUsername := if_pos h

theorem toList_usableName (h : trim name ≠ "") :
    (usableName name).toList = (trim name).toList.take maxUsername := by
  rw [usableName, if_neg h, String.toList_ofList]

theorem usableName_ne_empty (name : String) : usableName name ≠ "" := by
  by_cases h : trim name = ""
  · rw [usableName_of_blank h]
    exact usable_standard.nonempty
  · intro hempty
    have hcut := toList_usableName h
    rw [hempty, String.toList_empty, eq_comm, List.take_eq_nil_iff] at hcut
    exact hcut.elim (by decide) fun hnil => h (String.toList_inj.mp hnil)

theorem length_usableName_le (name : String) : (usableName name).length ≤ maxUsername := by
  by_cases h : trim name = ""
  · rw [usableName_of_blank h]
    exact usable_standard.short
  · rw [← String.length_toList, toList_usableName h]
    exact List.length_take_le ..

theorem head_usableName (name : String) : ∀ c ∈ (usableName name).toList.head?, isBlank c = false := by
  by_cases h : trim name = ""
  · rw [usableName_of_blank h]
    exact usable_standard.first
  · rw [toList_usableName h, List.head?_take, if_neg (by decide)]
    exact fun c => Text.isBlank_head_trim

/-- **The name ends with a blank where it was cut at one**, and nowhere else. -/
theorem getLast_usableName_iff :
    (∀ c ∈ (usableName name).toList.getLast?, isBlank c = false) ↔ ¬ CutAtBlank name := by
  rw [CutAtBlank]
  by_cases h : trim name = ""
  · rw [usableName_of_blank h, h]
    exact iff_of_true usable_standard.last (by simp)
  · rw [toList_usableName h, List.getLast?_take, if_neg (by decide)]
    cases (trim name).toList[maxUsername - 1]? with
    | none =>
      -- not longer than the cut, the name keeps its own end
      rw [Option.none_or]
      exact iff_of_true (fun c hc => Text.isBlank_getLast_trim (Option.mem_def.mp hc)) (by simp)
    | some c => simp

theorem usable_usableName_iff : Usable (usableName name) ↔ ¬ CutAtBlank name := by
  rw [← getLast_usableName_iff]
  exact ⟨Usable.last,
    fun h => ⟨usableName_ne_empty name, length_usableName_le name, head_usableName name, h⟩⟩

/-! ### Names that stay -/

/-- **A name stays as it is if and only if it is usable.** -/
theorem usableName_eq_self_iff : usableName name = name ↔ Usable name := by
  refine ⟨fun hsame => ?_, fun h => ?_⟩
  · have hlast : ∀ c ∈ name.toList.getLast?, isBlank c = false := by
      by_cases hblank : trim name = ""
      · rw [← hsame, usableName_of_blank hblank]
        exact usable_standard.last
      · -- the name is no longer than what is left of it, so nothing was trimmed off
        have hle : name.toList.length ≤ (trim name).toList.length := by
          have hcut := toList_usableName hblank
          rw [hsame] at hcut
          rw [hcut]
          exact List.length_take_le' ..
        rw [← Text.trim_eq_self_of_length_le hle]
        exact fun c => Text.isBlank_getLast_trim
    have hfirst := head_usableName name
    have hshort := length_usableName_le name
    rw [hsame] at hfirst hshort
    exact ⟨fun hempty => usableName_ne_empty name (hsame.trans hempty), hshort, hfirst, hlast⟩
  · have htrim : trim name = name := Text.trim_eq_self h.first h.last
    have hshort := h.short
    rw [← String.length_toList] at hshort
    rw [← String.toList_inj, toList_usableName (fun hempty => h.nonempty (htrim.symm.trans hempty)), htrim,
      List.take_of_length_le hshort]

/-- A name that is not too long is cut nowhere. -/
theorem not_cutAtBlank_of_length_le (h : name.length ≤ maxUsername) : ¬ CutAtBlank name := by
  rintro ⟨c, hc, hblank⟩
  have hlt : maxUsername - 1 < (trim name).toList.length := (List.getElem?_eq_some_iff.mp hc).1
  have hle := Text.length_trim_le name
  rw [String.length_toList (s := name)] at hle
  have hwhole : (trim name).toList.length = maxUsername := Nat.le_antisymm (Nat.le_trans hle h) hlt
  have hlast : (trim name).toList.getLast? = some c := by
    rw [List.getLast?_eq_getElem?, hwhole]
    exact hc
  rw [Text.isBlank_getLast_trim hlast] at hblank
  cases hblank

theorem username_validated (c : Config) : c.validated.username = usableName c.username := rfl

/-- **A name that has been validated is usable unless it was cut at a blank.** This is also when validating it
again leaves it as it is. In any case it is not empty, not too long, and does not begin with a blank, and
validating it twice makes it usable. It is the name that was asked for if and only if that one is usable. -/
theorem validated_username_iff (c : Config) :
    (Usable c.validated.username ↔ ¬ CutAtBlank c.username) ∧
      (c.validated.validated.username = c.validated.username ↔ ¬ CutAtBlank c.username) ∧
      c.validated.username ≠ "" ∧ c.validated.username.length ≤ maxUsername ∧
      (∀ first ∈ c.validated.username.toList.head?, isBlank first = false) ∧
      (c.validated.username = c.username ↔ Usable c.username) ∧ Usable c.validated.validated.username := by
  simp only [username_validated]
  refine ⟨usable_usableName_iff, usableName_eq_self_iff.trans usable_usableName_iff, usableName_ne_empty _,
    length_usableName_le _, head_usableName _, usableName_eq_self_iff, ?_⟩
  exact usable_usableName_iff.mpr (not_cutAtBlank_of_length_le (length_usableName_le _))

/-- **A name can be cut at a blank.** It ends with this blank, and loses it when it is validated again. -/
theorem username_ends_blank :
    let asked := { standard with username := "an_extremely_lo ng" }
    asked.validated.username = "an_extremely_lo " ∧
      asked.validated.validated.username = "an_extremely_lo" ∧ ¬ ∀ c : Config, Usable c.validated.username := by
  intro asked
  simp only [username_validated]
  have hcut : usableName asked.username = "an_extremely_lo " := by decide +kernel
  refine ⟨hcut, by decide +kernel, fun h => ?_⟩
  have hlast := (h asked).last
  rw [hcut] at hlast
  exact absurd (hlast ' ' rfl) (by decide)

end Pickaxe.Bot.Config
