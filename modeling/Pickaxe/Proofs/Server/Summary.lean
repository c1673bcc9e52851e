import Pickaxe.Proofs.Json.Line
import Pickaxe.Server.Status

/-! A status on one line.

Around the name of the version there are printable characters only, so the line is broken if and only if
that name is (`line_unbroken_iff`). The number in front of the name holds no blank, and what is behind it
ends with another letter for each kind of mods. So the line has one reading, whatever the name holds
(`line_eq_line_iff`). -/
namespace Pickaxe.Server

open Json (Shown)

namespace Status

/-- The characters that end a line. -/
def lineEnds : List Char := ['\n', '\x0B', '\x0C', '\r', '\u0085', '\u2028', '\u2029']

/-- The text holds no end of a line. -/
def Unbroken (s : String) : Prop := ∀ c ∈ s.toList, c ∉ lineEnds

theorem unbroken_of_shown {s : String} (h : ∀ c ∈ s.toList, Shown c) : Unbroken s := by
  intro c hc hend
  have hends : lineEnds.all (fun c => ¬ Shown c) = true := by decide
  exact of_decide_eq_true (List.all_eq_true.mp hends c hend) (h c hc)

theorem unbroken_of_all {s : String} (h : s.toList.all (fun c => Shown c) = true) : Unbroken s :=
  unbroken_of_shown fun c hc => of_decide_eq_true (List.all_eq_true.mp h c hc)

theorem unbroken_append {s t : String} : Unbroken (s ++ t) ↔ Unbroken s ∧ Unbroken t := by
  rw [Unbroken, String.toList_append, List.forall_mem_append]
  rfl

theorem line_eq (s : Status) : s.line = "PROTOCOL=" ++ s.protocol.toInt.repr ++ " VERSION_NAME=\"" ++
    s.versionName ++ "\" MODDED=" ++ s.modLoader.name := rfl

/-- **The line is broken if and only if the name of the version is.** -/
theorem line_unbroken_iff (s : Status) : Unbroken s.line ↔ Unbroken s.versionName := by
  have hkey : Unbroken "PROTOCOL=" := unbroken_of_all (by decide)
  have hnumber : Unbroken s.protocol.toInt.repr := unbroken_of_shown (Json.shown_repr _)
  have hopen : Unbroken " VERSION_NAME=\"" := unbroken_of_all (by decide)
  have hclose : Unbroken "\" MODDED=" := unbroken_of_all (by decide)
  have hloader : Unbroken s.modLoader.name := by
    cases s.modLoader <;> exact unbroken_of_all (by decide)
  simp only [line_eq, unbroken_append, hkey, hnumber, hopen, hclose, hloader, and_true, true_and]

/-! ### Reading the line -/

theorem getLast?_append_name (front : List Char) (m : ModLoader) :
    (front ++ m.name.toList).getLast? = m.name.toList.getLast? := by
  rw [List.getLast?_append]
  cases m <;> rfl

/-- A kind of mods is known by the last letter of its name. -/
theorem modLoader_eq_of_append {front front' : List Char} {a b : ModLoader}
    (h : front ++ a.name.toList = front' ++ b.name.toList) : a = b := by
  have hlast := congrArg List.getLast? h
  rw [getLast?_append_name, getLast?_append_name] at hlast
  revert hlast
  cases a <;> cases b <;> decide

/-- The first part of a text is what comes before its first blank. -/
theorem append_blank_inj {front front' rest rest' : List Char} (hfront : ' ' ∉ front) (hfront' : ' ' ∉ front')
    (h : front ++ ' ' :: rest = front' ++ ' ' :: rest') : front = front' ∧ rest = rest' := by
  have hcut {front rest : List Char} (hfront : ' ' ∉ front) :
      (front ++ ' ' :: rest).takeWhile (· != ' ') = front := by
    rw [List.takeWhile_append_of_pos fun c hc => bne_iff_ne.mpr (ne_of_mem_of_not_mem hc hfront)]
    simp
  obtain rfl : front = front' := by rw [← hcut hfront, h, hcut hfront']
  exact ⟨rfl, List.tail_eq_of_cons_eq (List.append_cancel_left h)⟩

theorem blank_notMem_repr (n : Int) : ' ' ∉ n.repr.toList := by
  intro h
  cases Json.mem_repr h <;> contradiction

/-- **Lines agree if and only if all that they tell agrees**: the number and the name of the version, and the kind
of mods. -/
theorem line_eq_line_iff (s t : Status) : s.line = t.line ↔
    s.protocol = t.protocol ∧ s.versionName = t.versionName ∧ s.modLoader = t.modLoader := by
  refine ⟨fun h => ?_, fun ⟨hprotocol, hname, hloader⟩ => by rw [line_eq, line_eq, hprotocol, hname, hloader]⟩
  have hlist := congrArg String.toList h
  simp only [line_eq, String.toList_append] at hlist
  have hloader : s.modLoader = t.modLoader := modLoader_eq_of_append hlist
  rw [hloader] at hlist
  have hfront := List.append_cancel_right hlist
  have hopen : " VERSION_NAME=\"".toList = ' ' :: "VERSION_NAME=\"".toList := rfl
  simp only [hopen, List.append_assoc, List.cons_append] at hfront
  obtain ⟨hnumber, hrest⟩ := append_blank_inj (blank_notMem_repr _) (blank_notMem_repr _)
    (List.append_cancel_left hfront)
  have hname := List.append_cancel_right (List.append_cancel_left hrest)
  have hprotocol := Int32.toInt_inj.mp (Json.eq_of_repr_eq (String.toList_inj.mp hnumber))
  exact ⟨hprotocol, String.toList_inj.mp hname, hloader⟩

/-- **The line of a status has one reading, and is one line unless the name of the version is broken.** -/
theorem line_told (s t : Status) :
    (Unbroken s.line ↔ Unbroken s.versionName) ∧
      (s.line = t.line ↔
        s.protocol = t.protocol ∧ s.versionName = t.versionName ∧ s.modLoader = t.modLoader) :=
  ⟨line_unbroken_iff s, line_eq_line_iff s t⟩

/-- **A document can break the line.** The name of its version goes on on a line of its own, and what is printed
are the lines of two other statuses. -/
theorem line_broken :
    let name := "1.21\" MODDED=unknown\nPROTOCOL=47 VERSION_NAME=\"1.8"
    let document := "\x7b\"version\":\x7b\"name\":\"1.21\\\" MODDED=unknown\\nPROTOCOL=47 VERSION_NAME=\\\"1.8\"" ++
      ",\"protocol\":767\x7d\x7d"
    let status (version : String) (protocol : Packet.Version) : Status := ⟨version, protocol, none, .null, none⟩
    parse? document = some (status name 767) ∧
      (status name 767).line = (status "1.21" 767).line ++ "\n" ++ (status "1.8" 47).line ∧
      ¬ ∀ document s, parse? document = some s → Unbroken s.line := by
  intro name document status
  have hparse : parse? document = some (status name 767) := rfl
  have hline : (status name 767).line = (status "1.21" 767).line ++ "\n" ++ (status "1.8" 47).line := by
    decide +kernel
  refine ⟨hparse, hline, fun h => ?_⟩
  have hbroken := h _ _ hparse
  rw [hline, unbroken_append, unbroken_append] at hbroken
  exact hbroken.1.2 '\n' (by simp) (by simp [lineEnds])

end Status

end Pickaxe.Server
