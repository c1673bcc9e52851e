import Pickaxe.Text.Lowercase

/-! Looking for a word in any case.

A character of ASCII has a lowercase form of one character (`lowerChar_ascii`), so a word that stands in a text
in any case of ASCII stands in the lowercase text as it is, among whatever characters (`Says.lower`). -/
namespace Pickaxe.Text

/-- The word stands somewhere in the text, with its letters in any case of ASCII. -/
def Says (s word : String) : Prop := ∃ letters, letters <:+: s.toList ∧ letters.map Char.toLower = word.toList

theorem says_iff {s word : String} : Says s word ↔ word.toList <:+: s.toList.map Char.toLower := by
  rw [List.infix_map_iff]
  exact exists_congr fun letters => and_congr_right fun _ => eq_comm

theorem mentions_iff {s word : String} : mentions s word = true ↔ word.toList <:+: s.toList := by
  have hgo (cs : List Char) : mentions.go word cs = true ↔ word.toList <:+: cs := by
    induction cs with
    | nil => simp [mentions.go]
    | cons c rest ih => rw [mentions.go, Bool.or_eq_true, ih, List.isPrefixOf_iff_prefix, List.infix_cons_iff]
  exact hgo s.toList

theorem lowerChar_ascii {c : Char} (h : c.toNat < 0x80) : lowerChar c = [c.toLower] := by
  have hall : ∀ n < 0x80, lowerChar (Char.ofNat n) = [(Char.ofNat n).toLower] := by decide +kernel
  have hc := hall c.toNat h
  rwa [Char.ofNat_toNat] at hc

/-- What a character becomes. -/
theorem lowerChar_cases (c : Char) : lowerChar c = [c] ∨
    (c.toNat = 0x130 ∧ lowerChar c = ['i', Char.ofNat 0x307]) ∨
      ∃ r ∈ caseRuns, r.first ≤ c.toNat ∧ c.toNat ≤ r.last ∧
        ∃ d : Char, lowerChar c = [d] ∧ (d.toNat : Int) = c.toNat + r.offset := by
  rw [lowerChar]
  split
  · exact .inr (.inl ⟨‹_›, rfl⟩)
  cases hfind : caseRuns.find? (·.holds c.toNat) with
  | none => exact .inl rfl
  | some r =>
    have hr : r ∈ caseRuns := List.mem_of_find?_eq_some hfind
    have hholds := List.find?_some hfind
    simp only [CaseRun.holds, Bool.and_eq_true, decide_eq_true_eq] at hholds
    obtain ⟨⟨hfirst, hlast⟩, -⟩ := hholds
    -- a run leads to characters, never to surrogates
    have hvalid : ∀ r ∈ caseRuns, 0 ≤ r.first + r.offset ∧ (r.last + r.offset < 0xD800 ∨
        0xDFFF < r.first + r.offset ∧ r.last + r.offset < 0x110000) := by decide +kernel
    obtain ⟨hpos, hchar⟩ := hvalid r hr
    have htoNat : (Char.ofNat (c.toNat + r.offset).toNat).toNat = (c.toNat + r.offset).toNat := by
      rw [Char.ofNat, dif_pos (by simp only [Nat.isValidChar]; omega)]
      rfl
    refine .inr (.inr ⟨r, hr, hfirst, hlast, _, rfl, ?_⟩)
    rw [htoNat, Int.toNat_of_nonneg (by omega)]

theorem lowerChar_ne_nil (c : Char) : lowerChar c ≠ [] := by
  rcases lowerChar_cases c with h | ⟨-, h⟩ | ⟨r, -, -, -, d, h, -⟩ <;> rw [h] <;> exact List.cons_ne_nil _ _

/-- Characters beyond ASCII do not become characters of ASCII alone, but for the sign of the kelvin. -/
theorem ascii_of_lowerChar {c : Char} (h : ∀ d ∈ lowerChar c, d.toNat < 0x80 ∧ d ≠ 'k') : c.toNat < 0x80 := by
  rcases lowerChar_cases c with hc | ⟨-, hc⟩ | ⟨r, hr, hfirst, hlast, d, hc, hd⟩ <;> rw [hc] at h
  · exact (h c (List.mem_singleton_self c)).1
  · exact absurd (h (Char.ofNat 0x307) (by simp)).1 (by decide)
  · obtain ⟨hascii, hkelvin⟩ := h d (List.mem_singleton_self d)
    have hruns : ∀ r ∈ caseRuns, 0x80 ≤ r.first + r.offset ∨ r.last < 0x80 ∨
        (r.first = 0x212A ∧ r.last = 0x212A ∧ r.offset = -8383) := by decide +kernel
    rcases hruns r hr with hhigh | hlow | ⟨hone, hother, hoffset⟩
    · omega
    · omega
    · have hk : d.toNat = 'k'.toNat := by
        rw [hoffset] at hd
        show d.toNat = 0x6B
        omega
      exact absurd (Char.toNat_inj.mp hk) hkelvin

/-- Only characters of ASCII become such. -/
theorem ascii_of_toLower {c : Char} (h : c.toLower.toNat < 0x80) : c.toNat < 0x80 := by
  unfold Char.toLower at h
  split at h
  · next hcapital =>
    have hle : c.toNat ≤ 'Z'.toNat := hcapital.2
    exact Nat.lt_of_le_of_lt hle (by decide)
  · exact h

theorem flatMap_lowerChar {letters : List Char} (h : ∀ c ∈ letters, c.toNat < 0x80) :
    letters.flatMap lowerChar = letters.map Char.toLower := by
  induction letters with
  | nil => rfl
  | cons c rest ih =>
    obtain ⟨hc, hrest⟩ := List.forall_mem_cons.mp h
    rw [List.flatMap_cons, lowerChar_ascii hc, ih hrest, List.singleton_append, List.map_cons]

/-- A word of ASCII without a k comes of no other letters than its own. -/
theorem flatMap_lowerChar_eq_iff {letters word : List Char} (hword : ∀ d ∈ word, d.toNat < 0x80 ∧ d ≠ 'k') :
    letters.flatMap lowerChar = word ↔ letters.map Char.toLower = word := by
  constructor
  · rintro rfl
    refine (flatMap_lowerChar fun c hc => ascii_of_lowerChar fun d hd => ?_).symm
    exact hword d (List.mem_flatMap.mpr ⟨c, hc, hd⟩)
  · rintro rfl
    refine flatMap_lowerChar fun c hc => ascii_of_toLower ?_
    exact (hword _ (List.mem_map_of_mem hc)).1

/-- A part of a text stays a part of it. -/
theorem lower_infix {letters : List Char} {s : String} (h : letters <:+: s.toList) :
    letters.flatMap lowerChar <:+: (lower s).toList := by
  obtain ⟨before, after, h⟩ := h
  rw [lower, String.toList_ofList, ← h, List.flatMap_append, List.flatMap_append]
  exact ⟨_, _, rfl⟩

/-- **A word in any case is there in lowercase.** -/
theorem Says.lower {s word : String} (h : Says s word) (hword : ∀ c ∈ word.toList, c.toNat < 0x80) :
    mentions (lower s) word = true := by
  obtain ⟨letters, hletters, hcase⟩ := h
  have hascii : ∀ c ∈ letters, c.toNat < 0x80 := by
    intro c hc
    refine ascii_of_toLower (hword _ ?_)
    rw [← hcase]
    exact List.mem_map_of_mem hc
  rw [mentions_iff, ← hcase, ← flatMap_lowerChar hascii]
  exact lower_infix hletters

/-! ### Words in any text -/

/-- A word that is looked for: its letters are those of ASCII, but for the k, which the sign of the kelvin
becomes as well, and an i does not end it, for the dotted capital I becomes an i and a dot. -/
structure Plain (word : List Char) : Prop where
  ascii : ∀ d ∈ word, d.toNat < 0x80 ∧ d ≠ 'k'
  last : word.getLast? ≠ some 'i'

theorem Plain.tail {d : Char} {word : List Char} (h : Plain (d :: word)) : Plain word := by
  refine ⟨(List.forall_mem_cons.mp h.ascii).2, fun hlast => h.last ?_⟩
  rw [List.getLast?_cons, hlast]
  rfl

/-- What a character becomes, as far as it can be part of a word. -/
theorem lowerChar_eq_or (c : Char) : (∃ d, lowerChar c = [d]) ∨ lowerChar c = ['i', Char.ofNat 0x307] := by
  rcases lowerChar_cases c with hc | ⟨-, hc⟩ | ⟨r, -, -, -, d, hc, -⟩
  · exact .inl ⟨c, hc⟩
  · exact .inr hc
  · exact .inl ⟨d, hc⟩

theorem Plain.not_dot {word : List Char} (h : Plain (Char.ofNat 0x307 :: word)) : False :=
  absurd (h.ascii _ List.mem_cons_self).1 (by decide)

/-- A word that the lowercase text starts with is that of its first letters. -/
theorem exists_of_prefix {word cs : List Char} (h : Plain word) (hword : word <+: cs.flatMap lowerChar) :
    ∃ letters, letters <+: cs ∧ letters.flatMap lowerChar = word := by
  induction cs generalizing word with
  | nil => exact ⟨[], List.nil_prefix, (List.prefix_nil.mp hword).symm⟩
  | cons c cs ih =>
    obtain _ | ⟨d, word⟩ := word
    · exact ⟨[], List.nil_prefix, rfl⟩
    rw [List.flatMap_cons] at hword
    rcases lowerChar_eq_or c with ⟨e, hc⟩ | hc
    · rw [hc, List.singleton_append, List.cons_prefix_cons] at hword
      obtain ⟨letters, hletters, hrest⟩ := ih h.tail hword.2
      refine ⟨c :: letters, List.cons_prefix_cons.mpr ⟨rfl, hletters⟩, ?_⟩
      rw [List.flatMap_cons, hc, hrest, ← hword.1, List.singleton_append]
    · rw [hc, List.cons_append, List.cons_prefix_cons] at hword
      obtain ⟨rfl, hword⟩ := hword
      obtain _ | ⟨d, word⟩ := word
      · exact absurd rfl h.last
      · rw [List.singleton_append, List.cons_prefix_cons] at hword
        exact (hword.1 ▸ h.tail).not_dot.elim

/-- A word that stands in the lowercase text is that of some letters of the text. -/
theorem exists_of_infix {word cs : List Char} (h : Plain word) (hword : word <:+: cs.flatMap lowerChar) :
    ∃ letters, letters <:+: cs ∧ letters.flatMap lowerChar = word := by
  induction cs with
  | nil => exact ⟨[], List.nil_infix, (List.infix_nil.mp hword).symm⟩
  | cons c cs ih =>
    have hrest (hword : word <:+: cs.flatMap lowerChar) :
        ∃ letters, letters <:+: c :: cs ∧ letters.flatMap lowerChar = word := by
      obtain ⟨letters, hletters, hlower⟩ := ih hword
      exact ⟨letters, List.infix_cons hletters, hlower⟩
    have hhere (hword : word <+: (c :: cs).flatMap lowerChar) :
        ∃ letters, letters <:+: c :: cs ∧ letters.flatMap lowerChar = word := by
      obtain ⟨letters, hletters, hlower⟩ := exists_of_prefix h hword
      exact ⟨letters, hletters.isInfix, hlower⟩
    rw [List.flatMap_cons] at hword hhere
    rcases lowerChar_eq_or c with ⟨e, hc⟩ | hc
    · rw [hc, List.singleton_append] at hword hhere
      exact (List.infix_cons_iff.mp hword).elim hhere hrest
    · rw [hc, List.cons_append, List.singleton_append] at hword hhere
      rcases List.infix_cons_iff.mp hword with hstart | hword
      · exact hhere hstart
      rcases List.infix_cons_iff.mp hword with hdot | hword
      · obtain _ | ⟨d, word⟩ := word
        · exact ⟨[], List.nil_infix, rfl⟩
        · exact ((List.cons_prefix_cons.mp hdot).1 ▸ h).not_dot.elim
      · exact hrest hword

/-- **A word is there in lowercase if the text says it, and only then**, whatever other characters there
are. -/
theorem mentions_lower_iff_said {s word : String} (h : Plain word.toList) :
    mentions (lower s) word = true ↔ Says s word := by
  refine ⟨fun hword => ?_, fun hsaid => hsaid.lower fun c hc => (h.ascii c hc).1⟩
  rw [mentions_iff, lower, String.toList_ofList] at hword
  obtain ⟨letters, hletters, hlower⟩ := exists_of_infix h hword
  exact ⟨letters, hletters, (flatMap_lowerChar_eq_iff h.ascii).mp hlower⟩

/-- What a part of a text says, the text says. -/
theorem Says.of_infix {s t word : String} (h : Says s word) (hpart : s.toList <:+: t.toList) : Says t word := by
  obtain ⟨letters, hletters, hcase⟩ := h
  exact ⟨letters, hletters.trans hpart, hcase⟩

end Pickaxe.Text
