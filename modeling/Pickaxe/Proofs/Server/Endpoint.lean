import Pickaxe.Proofs.Text.Blank
import Pickaxe.Server.Endpoint

/-! What a typed address stands for.

A text without its outer blanks is a host, or a host and a port with one colon between them (`Denotes`), and
`parse_eq_ok_iff` says that those addresses and no others are read. The text of an address that was read is the
host with a colon and the port behind it. It begins with no blank and ends with a digit, so nothing is taken off
when it is read again; if the host has a colon of its own, the whole is a host then. `typed_address` puts this
together. -/
namespace Pickaxe.Server.Endpoint

open Text (isBlank trim)

variable {s before after host : List Char} {port : UInt16} {e : Endpoint}

/-! ### The last colon -/

theorem splitLast_append (before : List Char) (h : ':' ∉ after) :
    splitLast (before ++ ':' :: after) = some (before, after) := by
  have hreverse : (before ++ ':' :: after).reverse = after.reverse ++ ':' :: before.reverse := by simp
  have hafter : ∀ c ∈ after.reverse, decide (c ≠ ':') = true := by
    intro c hc
    exact decide_eq_true fun hcolon => h (hcolon ▸ List.mem_reverse.mp hc)
  rw [splitLast, hreverse, List.dropWhile_append_of_pos hafter, List.takeWhile_append_of_pos hafter]
  simp

theorem splitLast_of_notMem (h : ':' ∉ s) : splitLast s = none := by
  have hnone : s.reverse.dropWhile (· ≠ ':') = [] := by
    refine List.dropWhile_eq_nil_iff.mpr fun c hc => ?_
    exact decide_eq_true fun hcolon => h (hcolon ▸ List.mem_reverse.mp hc)
  rw [splitLast, hnone]

/-- A text with a colon has a last one. -/
theorem exists_last_colon (h : ':' ∈ s) : ∃ before after, s = before ++ ':' :: after ∧ ':' ∉ after := by
  obtain ⟨after, before, hreverse, hafter⟩ := List.eq_append_cons_of_mem (List.mem_reverse.mpr h)
  refine ⟨before.reverse, after.reverse, ?_, fun hmem => hafter (List.mem_reverse.mp hmem)⟩
  rw [← List.reverse_reverse s, hreverse]
  simp

/-- There are as many colons as before the last one, and that one. -/
theorem count_colon (before : List Char) (h : ':' ∉ after) :
    (before ++ ':' :: after).count ':' = before.count ':' + 1 := by
  rw [List.count_append, List.count_cons_self, List.count_eq_zero.mpr h]

/-! ### Ports -/

/-- A port's text: decimal digits for the number, behind a plus sign or not. -/
def SpellsPort (s : List Char) (port : UInt16) : Prop :=
  ∃ digits, (s = digits ∨ s = '+' :: digits) ∧ digits ≠ [] ∧ (∀ d ∈ digits, d.isDigit = true) ∧
    Nat.ofDigitChars 10 digits 0 = port.toNat

theorem decimal?_eq_some_iff {n : Nat} : decimal? s = some n ↔
    s ≠ [] ∧ (∀ d ∈ s, d.isDigit = true) ∧ Nat.ofDigitChars 10 s 0 = n := by
  cases s with
  | nil => simp [decimal?]
  | cons c rest =>
    have hvalue : (c :: rest).foldl (fun n c => n * 10 + (c.toNat - 48)) 0 =
        Nat.ofDigitChars 10 (c :: rest) 0 := by
      simp only [Nat.ofDigitChars_eq_foldl, Nat.mul_comm 10]
      rfl
    rw [decimal?, hvalue]
    · by_cases hall : (c :: rest).all Char.isDigit = true
      · rw [if_pos hall, Option.some_inj]
        exact ⟨fun h => ⟨List.cons_ne_nil c rest, List.all_eq_true.mp hall, h⟩, fun h => h.2.2⟩
      · rw [if_neg hall]
        exact ⟨nofun, fun h => absurd (List.all_eq_true.mpr h.2.1) hall⟩
    · exact List.cons_ne_nil c rest

/-- Digits are a port if their number has 16 bits. -/
theorem bind_decimal?_eq_some_iff {digits : List Char} :
    ((decimal? digits).bind fun n => if n < UInt16.size then some (UInt16.ofNat n) else none) = some port ↔
      digits ≠ [] ∧ (∀ d ∈ digits, d.isDigit = true) ∧ Nat.ofDigitChars 10 digits 0 = port.toNat := by
  rw [← decimal?_eq_some_iff]
  constructor
  · intro h
    obtain ⟨n, hdigits, hn⟩ := Option.bind_eq_some_iff.mp h
    split at hn
    · next hlt =>
      cases hn
      rw [hdigits, UInt16.toNat_ofNat', Nat.mod_eq_of_lt hlt]
    · cases hn
  · intro h
    rw [h, Option.bind_some, if_pos port.toNat_lt, UInt16.ofNat_toNat]

theorem port?_eq_some_iff : port? s = some port ↔ SpellsPort s port := by
  unfold port?
  split
  · next rest =>
    rw [bind_decimal?_eq_some_iff]
    constructor
    · exact fun h => ⟨rest, .inr rfl, h⟩
    · rintro ⟨digits, hdigits | hdigits, h⟩
      · exact absurd (h.2.1 '+' (hdigits ▸ List.mem_cons_self ..)) (by decide)
      · obtain rfl := List.cons.inj hdigits |>.2
        exact h
  · next hplus =>
    rw [bind_decimal?_eq_some_iff]
    constructor
    · exact fun h => ⟨s, .inl rfl, h⟩
    · rintro ⟨digits, rfl | hdigits, h⟩
      · exact h
      · exact absurd hdigits (hplus digits)

theorem not_isBlank_of_isDigit {c : Char} (h : c.isDigit = true) : isBlank c = false := by
  have hrange : 48 ≤ c.toNat ∧ c.toNat ≤ 57 := Char.isDigit_iff_toNat.mp h
  simp only [isBlank, Bool.or_eq_false_iff, Bool.and_eq_false_iff, beq_eq_false_iff_ne, decide_eq_false_iff_not]
  omega

theorem notMem_of_isDigit (h : ∀ d ∈ s, d.isDigit = true) : ':' ∉ s :=
  fun hmem => absurd (h ':' hmem) (by decide)

theorem notMem_of_spellsPort (h : SpellsPort s port) : ':' ∉ s := by
  obtain ⟨digits, hs, -, hdigits, -⟩ := h
  have hnone : ':' ∉ digits := notMem_of_isDigit hdigits
  rcases hs with rfl | rfl
  · exact hnone
  · exact List.not_mem_cons_of_ne_of_not_mem (by decide) hnone

/-! ### Addresses -/

/-- What a text without outer blanks denotes, if it denotes an address. -/
inductive Denotes (t : List Char) : Endpoint → Prop where
  /-- A host without a colon. -/
  | plain (hne : t ≠ []) (hcolons : t.count ':' = 0) : Denotes t ⟨String.ofList t, 25565⟩
  /-- Several colons belong to the host. -/
  | crowded (hcolons : 2 ≤ t.count ':') : Denotes t ⟨String.ofList t, 25565⟩
  /-- One colon is between a host and a port. -/
  | ported {host text : List Char} {port : UInt16} (ht : t = host ++ ':' :: text) (hcolons : t.count ':' = 1)
      (hne : host ≠ []) (hport : SpellsPort text port) : Denotes t ⟨String.ofList host, port⟩

/-- Without just one colon, there is nothing but a host. -/
theorem parse_of_count_ne_one {typed : String} (hcolons : (trim typed).toList.count ':' ≠ 1) :
    parse typed = .ok e ↔ (trim typed).toList ≠ [] ∧ e = ⟨String.ofList (trim typed).toList, 25565⟩ := by
  have hwhole : parse typed = if (trim typed).toList = []
      then .error (.invalidMessage s!"missing host in {Text.quote (trim typed)}")
      else .ok ⟨String.ofList (trim typed).toList, defaultPort⟩ := by
    by_cases hcolon : ':' ∈ (trim typed).toList
    · obtain ⟨before, after, ht, hafter⟩ := exists_last_colon hcolon
      have hbefore : ':' ∈ before := by
        refine List.count_pos_iff.mp (Nat.pos_of_ne_zero fun hnone => hcolons ?_)
        rw [ht, count_colon before hafter, hnone]
      simp only [parse, ht ▸ splitLast_append before hafter, if_pos hbefore]
    · simp only [parse, splitLast_of_notMem hcolon]
  rw [hwhole]
  split
  · next hempty => exact ⟨nofun, fun h => absurd hempty h.1⟩
  · next hne => exact ⟨fun h => ⟨hne, (Except.ok.inj h).symm⟩, fun h => congrArg _ h.2.symm⟩

/-- With one colon, there are a host and a port around it. -/
theorem parse_of_count_eq_one {typed : String} (ht : (trim typed).toList = host ++ ':' :: after)
    (hcolons : (trim typed).toList.count ':' = 1) :
    parse typed = .ok e ↔ host ≠ [] ∧ ∃ port, SpellsPort after port ∧ e = ⟨String.ofList host, port⟩ := by
  rw [ht, List.count_append, List.count_cons_self] at hcolons
  have hhost : ':' ∉ host := List.count_eq_zero.mp (by omega)
  have hafter : ':' ∉ after := List.count_eq_zero.mp (by omega)
  simp only [parse, ht ▸ splitLast_append host hafter, if_neg hhost, ← port?_eq_some_iff]
  split
  · next port hport =>
    rw [hport]
    split
    · next hempty => exact ⟨nofun, fun h => absurd hempty h.1⟩
    · next hne =>
      constructor
      · exact fun h => ⟨hne, port, rfl, (Except.ok.inj h).symm⟩
      · rintro ⟨-, _, ⟨rfl⟩, rfl⟩
        rfl
  · next hport =>
    rw [hport]
    exact ⟨nofun, fun ⟨_, _, h, _⟩ => nomatch h⟩

theorem parse_eq_ok_iff (typed : String) : parse typed = .ok e ↔ Denotes (trim typed).toList e := by
  by_cases hcolons : (trim typed).toList.count ':' = 1
  · obtain ⟨host, after, ht, -⟩ := exists_last_colon (List.count_pos_iff.mp (hcolons ▸ Nat.one_pos))
    rw [parse_of_count_eq_one ht hcolons]
    constructor
    · rintro ⟨hne, port, hport, rfl⟩
      exact .ported ht hcolons hne hport
    · rintro (⟨-, hnone⟩ | hmany | ⟨hsplit, -, hne, hport⟩)
      · omega
      · omega
      · exact (parse_of_count_eq_one ht hcolons).mp
          ((parse_of_count_eq_one hsplit hcolons).mpr ⟨hne, _, hport, rfl⟩)
  · rw [parse_of_count_ne_one hcolons]
    constructor
    · rintro ⟨hne, rfl⟩
      by_cases hnone : (trim typed).toList.count ':' = 0
      · exact .plain hne hnone
      · exact .crowded (by omega)
    · rintro (⟨hne, -⟩ | hmany | ⟨-, hone⟩)
      · exact ⟨hne, rfl⟩
      · exact ⟨fun hempty => by simp [hempty] at hmany, rfl⟩
      · exact absurd hone hcolons

/-! ### The text of an address -/

theorem toList_text (e : Endpoint) : e.text.toList = e.host.toList ++ ':' :: Nat.toDigits 10 e.port.toNat := by
  have hport : (toString e.port.toNat).toList = Nat.toDigits 10 e.port.toNat := by
    rw [Nat.toString_eq_ofList_toDigits, String.toList_ofList]
  rw [← hport]
  simp [text]
  rfl

theorem spellsPort_toDigits (port : UInt16) : SpellsPort (Nat.toDigits 10 port.toNat) port :=
  ⟨_, .inl rfl, Nat.toDigits_ne_nil, fun _ => Nat.isDigit_of_mem_toDigits (by decide) (by decide),
    Nat.ofDigitChars_ten_toDigits⟩

/-- A text that begins with no blank is not cut: its last character is a digit. -/
theorem trim_text (hhead : ∀ c ∈ e.host.toList.head?, isBlank c = false) : trim e.text = e.text := by
  refine Text.trim_eq_self ?_ ?_
  · rw [toList_text, List.head?_append]
    cases hhost : e.host.toList.head? with
    | none =>
      rintro _ ⟨⟩
      decide
    | some c => simpa using hhead c hhost
  · intro c hlast
    have hdigit : c.isDigit = true := by
      rw [toList_text, List.getLast?_append_of_ne_nil _ (List.cons_ne_nil _ _)] at hlast
      rw [List.getLast?_cons_of_ne_nil Nat.toDigits_ne_nil] at hlast
      exact Nat.isDigit_of_mem_toDigits (by decide) (by decide) (List.mem_of_getLast? hlast)
    exact not_isBlank_of_isDigit hdigit

/-- The host of an address is a text, and it begins where the address begins. -/
theorem Denotes.begins (h : Denotes s e) : e.host.toList ≠ [] ∧ e.host.toList <+: s := by
  cases h with
  | plain hne => simpa using hne
  | crowded hcolons =>
    refine ⟨fun hempty => ?_, by simp⟩
    rw [String.toList_ofList] at hempty
    simp [hempty] at hcolons
  | ported ht _ hne => exact ⟨by simpa using hne, by simp [ht]⟩

/-- Reading the text of an address again gives the address, or the whole text for a host with a colon. -/
theorem parse_text (hhost : e.host.toList ≠ []) (hhead : ∀ c ∈ e.host.toList.head?, isBlank c = false) :
    parse e.text = .ok (if ':' ∈ e.host.toList then ⟨e.text, 25565⟩ else e) := by
  have hdigits : ':' ∉ Nat.toDigits 10 e.port.toNat := notMem_of_spellsPort (spellsPort_toDigits e.port)
  have hcount : e.text.toList.count ':' = e.host.toList.count ':' + 1 := by
    rw [toList_text, count_colon _ hdigits]
  rw [parse_eq_ok_iff, trim_text hhead]
  split
  · next hcolon =>
    have hmany : 2 ≤ e.text.toList.count ':' := by
      have := List.count_pos_iff.mpr hcolon
      omega
    simpa using Denotes.crowded hmany
  · next hnone =>
    rw [List.count_eq_zero.mpr hnone] at hcount
    simpa using Denotes.ported (toList_text e) hcount hhost (spellsPort_toDigits e.port)

/-- The addresses a typed text is read as, and which of them are read again from their texts. -/
theorem typed_address (typed : String) :
    (∀ e, parse typed = .ok e ↔ Denotes (trim typed).toList e) ∧
    ∀ e, parse typed = .ok e → (parse e.text = .ok e ↔ ':' ∉ e.host.toList) := by
  refine ⟨fun e => parse_eq_ok_iff typed, fun e he => ?_⟩
  obtain ⟨hhost, hprefix⟩ := ((parse_eq_ok_iff typed).mp he).begins
  have hhead : ∀ c ∈ e.host.toList.head?, isBlank c = false := by
    intro c hc
    obtain ⟨rest, hrest⟩ := hprefix
    refine Text.isBlank_head_trim (s := typed) ?_
    rw [← hrest, List.head?_append, hc]
    rfl
  rw [parse_text hhost hhead]
  split
  · next hcolon =>
    refine ⟨fun h => ?_, fun hnone => absurd hcolon hnone⟩
    -- the text of an address is longer than its host
    have hsame : e.text = e.host := congrArg Endpoint.host (Except.ok.inj h)
    have := congrArg (fun s => s.toList.length) hsame
    simp [toList_text] at this
  · next hnone => exact ⟨fun _ => hnone, fun _ => rfl⟩

/-- A host with a port is read again from its text; a bare address of IP version 6 is not. -/
theorem typed_address_reread :
    (parse " mc.test:+0080 " = .ok ⟨"mc.test", 80⟩ ∧ parse (text ⟨"mc.test", 80⟩) = .ok ⟨"mc.test", 80⟩) ∧
    (parse "::1" = .ok ⟨"::1", 25565⟩ ∧ parse (text ⟨"::1", 25565⟩) ≠ .ok ⟨"::1", 25565⟩) := by
  have hnamed : parse " mc.test:+0080 " = .ok ⟨"mc.test", 80⟩ := by decide +kernel
  have hbare : parse "::1" = .ok ⟨"::1", 25565⟩ := by decide +kernel
  refine ⟨⟨hnamed, ?_⟩, hbare, fun hagain => ?_⟩
  · exact ((typed_address " mc.test:+0080 ").2 _ hnamed).mpr (by decide +kernel)
  · exact ((typed_address "::1").2 _ hbare).mp hagain (by decide +kernel)

end Pickaxe.Server.Endpoint
