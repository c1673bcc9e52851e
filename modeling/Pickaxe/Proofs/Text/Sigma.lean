import Pickaxe.Client.Login
import Pickaxe.Proofs.Play.Command
import Pickaxe.Server.Status

/-! The word-final sigma.

A capital sigma has two lowercase letters, one of them for the end of a word, and `Text.lower` knows the
other one only. A text in lowercase may have either of them for each of its capital sigmas (`Lowers`). Once
the two letters are not told apart, all these texts are the same (`Lowers.map_fold`), and a word of ASCII
has neither letter. So what is looked for in lowercase is found in one of these texts exactly if it is found
in each: the words that stand for a wrong version (`Client.Login.refusal_of_lowers`) and for a mod loader
(`Server.ModLoader.detect_of_lowers`), and the commands (`Play.Command.classify_of_lowers`). -/
namespace Pickaxe.Text

/-- The capital letter. -/
def capitalSigma : Char := Char.ofNat 0x3A3

def sigma : Char := Char.ofNat 0x3C3

/-- The letter at the end of a word. -/
def finalSigma : Char := Char.ofNat 0x3C2

/-- A text and a form of it in lowercase: any capital sigma may have become the letter for the end of a
word. -/
inductive Lowers : List Char → List Char → Prop where
  | nil : Lowers [] []
  | char (c : Char) {s low : List Char} (h : Lowers s low) : Lowers (c :: s) (lowerChar c ++ low)
  | final {s low : List Char} (h : Lowers s low) : Lowers (capitalSigma :: s) (finalSigma :: low)

/-- A letter for which the end of a word makes no difference. -/
def fold (c : Char) : Char := if c = finalSigma then sigma else c

theorem lowers_lower (s : String) : Lowers s.toList (lower s).toList := by
  rw [lower, String.toList_ofList]
  induction s.toList with
  | nil => exact .nil
  | cons c rest ih => exact ih.char c

/-- **All forms in lowercase are alike**, but for the letters of a sigma. -/
theorem Lowers.map_fold {s low : List Char} (h : Lowers s low) :
    low.map fold = (s.flatMap lowerChar).map fold := by
  induction h with
  | nil => rfl
  | char c _ ih => rw [List.map_append, ih, List.flatMap_cons, List.map_append]
  | final _ ih =>
    have hsigma : lowerChar capitalSigma = [sigma] := by decide +kernel
    rw [List.map_cons, ih, List.flatMap_cons, hsigma, List.singleton_append, List.map_cons]
    rfl

theorem map_fold_lower {s : String} {low : List Char} (h : Lowers s.toList low) :
    low.map fold = (lower s).toList.map fold := by
  rw [h.map_fold, lower, String.toList_ofList]

/-! ### What is found -/

theorem fold_of_ascii {c : Char} (h : c.toNat < 0x80) : fold c = c := by
  have hother : c ≠ finalSigma := by
    intro hfinal
    rw [hfinal] at h
    exact absurd h (by decide)
  rw [fold, if_neg hother]

theorem eq_of_fold_ascii {c : Char} (h : (fold c).toNat < 0x80) : fold c = c := by
  rw [fold] at h ⊢
  split at h
  · exact absurd h (by decide)
  · exact if_neg ‹_›

/-- A word of ASCII comes of no other letters than its own. -/
theorem map_fold_eq_iff {letters word : List Char} (hword : ∀ d ∈ word, d.toNat < 0x80) :
    letters.map fold = word ↔ letters = word := by
  have hsame {letters : List Char} (h : ∀ c ∈ letters, fold c = c) : letters.map fold = letters :=
    (List.map_congr_left h).trans (List.map_id' letters)
  constructor
  · intro h
    rw [← h, hsame fun c hc => eq_of_fold_ascii (hword _ (h ▸ List.mem_map_of_mem hc))]
  · intro h
    rw [hsame fun c hc => fold_of_ascii (hword c (h ▸ hc)), h]

theorem infix_map_fold_iff {word cs : List Char} (hword : ∀ d ∈ word, d.toNat < 0x80) :
    word <:+: cs.map fold ↔ word <:+: cs := by
  rw [List.infix_map_iff]
  constructor
  · intro ⟨letters, hletters, h⟩
    rwa [(map_fold_eq_iff hword).mp h.symm] at hletters
  · intro h
    exact ⟨word, h, ((map_fold_eq_iff hword).mpr rfl).symm⟩

/-- **A word of ASCII is found in each form in lowercase or in none.** -/
theorem Lowers.mentions_eq {s low word : String} (h : Lowers s.toList low.toList)
    (hword : ∀ d ∈ word.toList, d.toNat < 0x80) : mentions low word = mentions (lower s) word := by
  rw [Bool.eq_iff_iff, mentions_iff, mentions_iff, ← infix_map_fold_iff hword, map_fold_lower h,
    infix_map_fold_iff hword]

/-! ### Words -/

theorem isBlank_fold (c : Char) : isBlank (fold c) = isBlank c := by
  rw [fold]
  split
  · next h =>
    rw [h]
    decide
  · rfl

theorem splitOnP_map_fold (s : List Char) :
    (s.map fold).splitOnP isBlank = (s.splitOnP isBlank).map (·.map fold) := by
  induction s with
  | nil => rfl
  | cons c rest ih =>
    rw [List.map_cons, List.splitOnP_cons_eq_if_modifyHead, List.splitOnP_cons_eq_if_modifyHead, isBlank_fold, ih]
    split
    · rfl
    · cases rest.splitOnP isBlank with
      | nil => rfl
      | cons w ws => rfl

/-- The words of a text whose sigmas are not told apart. -/
theorem words_map_fold (s : String) :
    words (String.ofList (s.toList.map fold)) = (words s).map fun w => String.ofList (w.toList.map fold) := by
  rw [words_eq, words_eq, String.toList_ofList, splitOnP_map_fold, List.filter_map, List.map_map, List.map_map]
  simp [Function.comp_def]

end Pickaxe.Text

namespace Pickaxe

open Text (Lowers lower mentions words)

/-! ### What is looked for -/

theorem Client.Login.refusal_of_lowers {reason low : String} (h : Lowers reason.toList low.toList) :
    (if mentions low "outdated" || mentions low "incompatible" then
      Negotiation.ConnectError.incompatibleVersion reason
    else .rejected reason) = refusal reason := by
  have hall (word : String) (hword : ∀ d ∈ word.toList, d.toNat < 0x80) :
      mentions low word = mentions (lower reason) word := h.mentions_eq hword
  rw [hall "outdated" (by simp), hall "incompatible" (by simp)]
  rfl

theorem Server.ModLoader.detect_of_lowers {version motd low lowMotd : String}
    (hversion : Lowers version.toList low.toList) (hmotd : Lowers motd.toList lowMotd.toList) :
    (if mentions low "fabric" || mentions lowMotd "fabric" then ModLoader.fabric
    else if mentions low "forge" || mentions lowMotd "forge" || mentions lowMotd "fml" then .forge
    else .unknown) = detect version motd := by
  have hall (word : String) (hword : ∀ d ∈ word.toList, d.toNat < 0x80) :
      mentions low word = mentions (lower version) word ∧ mentions lowMotd word = mentions (lower motd) word :=
    ⟨hversion.mentions_eq hword, hmotd.mentions_eq hword⟩
  obtain ⟨hfabric, hfabricMotd⟩ := hall "fabric" (by simp)
  obtain ⟨hforge, hforgeMotd⟩ := hall "forge" (by simp)
  rw [hfabric, hfabricMotd, hforge, hforgeMotd, (hall "fml" (by simp)).2]
  rfl

namespace Play.Command

theorem ofWord?_map_fold (w : String) : ofWord? (String.ofList (w.toList.map Text.fold)) = ofWord? w := by
  refine Option.ext fun c => ?_
  rw [ofWord?_eq_some_iff, ofWord?_eq_some_iff, ← String.toList_inj, String.toList_ofList, ← String.toList_inj]
  exact Text.map_fold_eq_iff fun x hx => (c.ascii_of_mem_word x hx).1

/-- **Every form of a line in lowercase is the same command.** -/
theorem classify_of_lowers {line low : String} (h : Lowers line.toList low.toList) :
    (words low).findSome? ofWord? = classify line := by
  have hfold (s : String) :
      (words s).findSome? ofWord? = (words (String.ofList (s.toList.map Text.fold))).findSome? ofWord? := by
    rw [Text.words_map_fold, List.findSome?_map]
    exact congrArg (List.findSome? · (words s)) (funext fun w => (ofWord?_map_fold w).symm)
  rw [classify, hfold low, Text.map_fold_lower h, ← hfold]

end Play.Command

end Pickaxe
