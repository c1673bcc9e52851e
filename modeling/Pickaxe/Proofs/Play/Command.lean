import Pickaxe.Play.Command
import Pickaxe.Proofs.Text.Words

/-! Which lines are commands.

A word names a command if it is the command's word in any case of ASCII (`Names`), and so do its lowercase
letters and no others (`ofWord?_lower_eq_some_iff`). The words of a line are what its blanks leave
(`Text.words_append`), whatever its letters become in lowercase, so the first word that names a command decides
(`classify_eq`). A word among other characters names none (`not_names_of_glued`), for no command's word is a part
of another's. -/
namespace Pickaxe.Play.Command

open Text (isBlank lower lowerChar words)

variable {c d : Command} {w : String}

/-- The word is that of the command, in any case of ASCII. -/
def Names (w : String) (c : Command) : Prop := w.toList.map Char.toLower = c.word.toList

theorem ofWord?_eq_some_iff : ofWord? w = some c ↔ w = c.word := by
  constructor
  · intro h
    have hfound := List.find?_some h
    exact (of_decide_eq_true hfound).symm
  · rintro rfl
    cases c <;> rfl

theorem ascii_of_mem_word (c : Command) : ∀ x ∈ c.word.toList, x.toNat < 0x80 ∧ x ≠ 'k' ∧ isBlank x = false := by
  have hall : c.word.toList.all (fun x => x.toNat < 0x80 && x != 'k' && !isBlank x) = true := by cases c <;> decide
  simpa [and_assoc] using hall

theorem ofWord?_lower_eq_some_iff : ofWord? (lower w) = some c ↔ Names w c := by
  rw [ofWord?_eq_some_iff, ← String.toList_inj, lower, String.toList_ofList, Names]
  refine Text.flatMap_lowerChar_eq_iff fun x hx => ?_
  obtain ⟨hascii, hk, -⟩ := c.ascii_of_mem_word x hx
  exact ⟨hascii, hk⟩

theorem ofWord?_lower_eq_none_iff : ofWord? (lower w) = none ↔ ∀ c, ¬ Names w c := by
  rw [Option.eq_none_iff_forall_ne_some]
  exact forall_congr' fun c => not_congr ofWord?_lower_eq_some_iff

/-- The words of a line are looked at one after another, each by its lowercase letters. -/
theorem classify_eq (line : String) : classify line = (words line).findSome? fun w => ofWord? (lower w) := by
  rw [classify, Text.words_lower, List.findSome?_map]
  rfl

/-! ### Words among other characters -/

/-- No command's word is a part of another's. -/
theorem eq_of_word_infix (h : c.word.toList <:+: d.word.toList) : c = d := by
  revert h
  cases c <;> cases d <;> decide

theorem not_names_of_glued {before letters after : List Char} (hletters : letters.map Char.toLower = c.word.toList)
    (hglued : before ++ after ≠ []) (d : Command) : ¬ Names (String.ofList (before ++ letters ++ after)) d := by
  intro h
  rw [Names, String.toList_ofList, List.map_append, List.map_append, hletters] at h
  obtain rfl : c = d := eq_of_word_infix ⟨_, _, h⟩
  have hlength := congrArg List.length h
  simp only [List.length_append, List.length_map] at hlength
  exact hglued (List.length_eq_zero_iff.mp (by rw [List.length_append]; omega))

/-- A command's word has no blanks, whatever the case of its letters. -/
theorem isBlank_of_mem_letters {letters : List Char} (h : letters.map Char.toLower = c.word.toList) :
    ∀ x ∈ letters, isBlank x = false := by
  intro x hx
  obtain ⟨hascii, -, hplain⟩ := c.ascii_of_mem_word x.toLower (h ▸ List.mem_map_of_mem hx)
  refine Bool.eq_false_iff.mpr fun hblank => ?_
  have hsame := (Text.lowerChar_ascii (Text.ascii_of_toLower hascii)).symm.trans (Text.lowerChar_of_isBlank hblank)
  rw [List.cons.inj hsame |>.1, hblank] at hplain
  exact absurd hplain (by decide)

/-- **The first command word of a line decides.**

* A line is a command if one of its words is the command's word in any case of ASCII, and no word before it
  names a command.
* A line is none if no word of it names a command.
* Where a blank parts a line, the command is that of what comes before the blank, or else of what comes behind.
* A command's word next to other characters that are no blanks is no command. -/
theorem classify_words :
    (∀ line c, classify line = some c ↔ ∃ before w after, words line = before ++ w :: after ∧ Names w c ∧
      ∀ v ∈ before, ∀ d, ¬ Names v d) ∧
    (∀ line, classify line = none ↔ ∀ w ∈ words line, ∀ c, ¬ Names w c) ∧
    (∀ a w b, isBlank w = true → classify (a ++ String.singleton w ++ b) = (classify a).or (classify b)) ∧
    ∀ (c : Command) (before letters after : List Char), letters.map Char.toLower = c.word.toList →
      before ++ after ≠ [] → (∀ x ∈ before ++ after, isBlank x = false) →
      classify (String.ofList (before ++ letters ++ after)) = none := by
  have hnone (line : String) : classify line = none ↔ ∀ w ∈ words line, ∀ c, ¬ Names w c := by
    rw [classify_eq, List.findSome?_eq_none_iff]
    simp only [ofWord?_lower_eq_none_iff]
  refine ⟨fun line c => ?_, hnone, fun a w b hw => ?_, fun c before letters after hletters hglued hplain => ?_⟩
  · rw [classify_eq, List.findSome?_eq_some_iff]
    simp only [ofWord?_lower_eq_some_iff, ofWord?_lower_eq_none_iff]
  · rw [classify_eq, Text.words_append a b hw, List.findSome?_append, ← classify_eq, ← classify_eq]
  · have hall : ∀ x ∈ before ++ letters ++ after, isBlank x = false := by
      intro x hx
      rcases List.mem_append.mp hx with hx | hx
      · rcases List.mem_append.mp hx with hx | hx
        · exact hplain x (List.mem_append_left _ hx)
        · exact isBlank_of_mem_letters hletters x hx
      · exact hplain x (List.mem_append_right _ hx)
    have hne : String.ofList (before ++ letters ++ after) ≠ "" := by
      intro hempty
      have hnil := congrArg String.toList hempty
      rw [String.toList_ofList, String.toList_empty, List.append_eq_nil_iff, List.append_eq_nil_iff] at hnil
      exact hglued (List.append_eq_nil_iff.mpr ⟨hnil.1.1, hnil.2⟩)
    rw [hnone, Text.words_eq_singleton hne (by rwa [String.toList_ofList])]
    exact List.forall_mem_singleton.mpr (not_names_of_glued hletters hglued)

/-- A command behind another, a word with a comma, and a blank that is no space. -/
theorem classify_words_mixed :
    let line := "<Steve> !Stop" ++ String.singleton (Char.ofNat 0x3000) ++ "!mine"
    isBlank (Char.ofNat 0x3000) = true ∧ classify line = some .stop ∧
      "!MINE".toList.map Char.toLower = mine.word.toList ∧
      classify (String.ofList ([] ++ "!MINE".toList ++ [','])) = none := by
  intro line
  have hblank : isBlank (Char.ofNat 0x3000) = true := by decide
  have hletters : "!MINE".toList.map Char.toLower = mine.word.toList := by decide
  obtain ⟨-, -, hparted, hglued⟩ := classify_words
  have hcomma : isBlank ',' = false := by decide
  refine ⟨hblank, ?_, hletters, hglued mine [] _ [','] hletters (by decide) (List.forall_mem_singleton.mpr hcomma)⟩
  rw [hparted "<Steve> !Stop" (Char.ofNat 0x3000) "!mine" hblank]
  have hfirst : classify "<Steve> !Stop" = some .stop := by decide +kernel
  rw [hfirst]
  rfl

end Pickaxe.Play.Command
