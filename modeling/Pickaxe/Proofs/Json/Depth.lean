import Pickaxe.Proofs.Json.Written

/-! How deep a JSON text may go.

A document that stands for a value does so wherever there is room for its containers, for the same value each
time, and nowhere else (`value?_eq`). So what is parsed is what is written with no more than `maxDepth` containers
around one another (`parse?_eq`). -/
namespace Pickaxe.Json

/-! ### Depth -/

mutual

/-- How many containers stand around one another, at the deepest place. -/
def Document.depth : Document → Nat
  | .array items => depths items + 1
  | .object members => memberDepths members + 1
  | _ => 0

def depths : List Document → Nat
  | [] => 0
  | d :: rest => max d.depth (depths rest)

def memberDepths : List (List Glyph × Document) → Nat
  | [] => 0
  | (_, d) :: rest => max d.depth (memberDepths rest)

end

mutual

theorem value?_of_lt_depth {room : Nat} : ∀ {d : Document}, room < d.depth → d.value? room = none
  | .array items, h => by
    cases room with
    | zero => rfl
    | succ room =>
      rw [Document.value?, values?_of_lt_depths (Nat.lt_of_succ_lt_succ h)]
      rfl
  | .object members, h => by
    cases room with
    | zero => rfl
    | succ room =>
      rw [Document.value?, members?_of_lt_depths (Nat.lt_of_succ_lt_succ h)]
      rfl

theorem values?_of_lt_depths {room : Nat} : ∀ {ds : List Document}, room < depths ds → values? room ds = none
  | d :: rest, h => by
    rw [depths] at h
    have hdeep : room < d.depth ∨ room < depths rest := by omega
    rw [values?]
    cases hdeep with
    | inl hhead =>
      rw [value?_of_lt_depth hhead]
      rfl
    | inr hrest =>
      rw [values?_of_lt_depths hrest]
      cases d.value? room <;> rfl

theorem members?_of_lt_depths {room : Nat} :
    ∀ {ds : List (List Glyph × Document)}, room < memberDepths ds → members? room ds = none
  | (key, d) :: rest, h => by
    rw [memberDepths] at h
    have hdeep : room < d.depth ∨ room < memberDepths rest := by omega
    rw [members?]
    cases hdeep with
    | inl hhead =>
      rw [value?_of_lt_depth hhead]
      cases Glyph.text? key <;> rfl
    | inr hrest =>
      rw [members?_of_lt_depths hrest]
      cases Glyph.text? key <;> cases d.value? room <;> rfl

end

mutual

theorem value?_congr {room other : Nat} :
    ∀ {d : Document}, d.depth ≤ room → d.depth ≤ other → d.value? room = d.value? other
  | .null, _, _ | .bool _, _, _ | .number _, _, _ | .text _, _, _ => rfl
  | .array items, hroom, hother => by
    obtain ⟨room, rfl⟩ := Nat.exists_eq_add_of_le' (Nat.le_trans (Nat.succ_pos _) hroom)
    obtain ⟨other, rfl⟩ := Nat.exists_eq_add_of_le' (Nat.le_trans (Nat.succ_pos _) hother)
    rw [Document.value?, Document.value?,
      values?_congr (Nat.le_of_succ_le_succ hroom) (Nat.le_of_succ_le_succ hother)]
  | .object members, hroom, hother => by
    obtain ⟨room, rfl⟩ := Nat.exists_eq_add_of_le' (Nat.le_trans (Nat.succ_pos _) hroom)
    obtain ⟨other, rfl⟩ := Nat.exists_eq_add_of_le' (Nat.le_trans (Nat.succ_pos _) hother)
    rw [Document.value?, Document.value?,
      members?_congr (Nat.le_of_succ_le_succ hroom) (Nat.le_of_succ_le_succ hother)]

theorem values?_congr {room other : Nat} :
    ∀ {ds : List Document}, depths ds ≤ room → depths ds ≤ other → values? room ds = values? other ds
  | [], _, _ => rfl
  | d :: rest, hroom, hother => by
    rw [depths, Nat.max_le] at hroom hother
    rw [values?, values?, value?_congr hroom.1 hother.1, values?_congr hroom.2 hother.2]

theorem members?_congr {room other : Nat} : ∀ {ds : List (List Glyph × Document)},
    memberDepths ds ≤ room → memberDepths ds ≤ other → members? room ds = members? other ds
  | [], _, _ => rfl
  | (key, d) :: rest, hroom, hother => by
    rw [memberDepths, Nat.max_le] at hroom hother
    rw [members?, members?, value?_congr hroom.1 hother.1, members?_congr hroom.2 hother.2]

end

/-- **Depth decides** whether a document has its value. -/
theorem value?_eq (d : Document) (room : Nat) :
    d.value? room = if d.depth ≤ room then d.value? d.depth else none := by
  by_cases h : d.depth ≤ room
  · rw [if_pos h, value?_congr h (Nat.le_refl _)]
  · rw [if_neg h, value?_of_lt_depth (Nat.lt_of_not_le h)]

theorem parse?_eq {bytes : List UInt8} {d : Document} (h : Document.read? bytes = some d) :
    parse? bytes = if d.depth ≤ maxDepth then d.value? d.depth else none := by
  rw [parse?, h, Option.bind_some, value?_eq]

/-! ### Arrays around a value -/

/-- As many arrays around a document, each with the next one as its only item. -/
def Document.boxed (d : Document) : Nat → Document
  | 0 => d
  | n + 1 => .array [d.boxed n]

/-- As many arrays around a value. -/
def boxed (v : Json) : Nat → Json
  | 0 => v
  | n + 1 => .array [v.boxed n]

theorem depth_boxed (d : Document) (n : Nat) : (d.boxed n).depth = d.depth + n := by
  induction n with
  | zero => rfl
  | succ n ih => rw [Document.boxed, Document.depth, depths, depths, Nat.max_zero, ih, Nat.add_assoc]

theorem value?_boxed (d : Document) (room n : Nat) :
    (d.boxed n).value? (room + n) = (d.value? room).map (·.boxed n) := by
  induction n with
  | zero => exact Option.map_id_apply.symm
  | succ n ih =>
    rw [Document.boxed, ← Nat.add_assoc, Document.value?, values?, ih]
    cases d.value? room <;> rfl

namespace Scanner

/-- The text is not the end of an array, nor begins with a blank. -/
def Starts (bytes : List UInt8) : Prop := ∃ b rest, bytes = b :: rest ∧ isSpace b = false ∧ b ≠ 0x5D

theorem Closes.array {bytes : List UInt8} {d : Document} (h : Closes bytes d) (hstarts : Starts bytes) :
    Closes (0x5B :: (bytes ++ [0x5D])) (.array [d]) := by
  intro stack
  obtain ⟨b, rest, rfl, hspace, hend⟩ := hstarts
  have hopened : (⟨stack, .value, none⟩ : Scanner).step 0x5B = some ⟨.array [] :: stack, .firstItem, none⟩ := rfl
  have hfirst : (⟨.array [] :: stack, .firstItem, none⟩ : Scanner).step b =
      (⟨.array [] :: stack, .value, none⟩ : Scanner).step b := by
    simp [step, hspace, hend]
  have hitem := h (.array [] :: stack)
  rw [run_cons, ← hfirst, ← run_cons] at hitem
  rw [run_cons, hopened, Option.bind_some, run_append, hitem]
  rfl

theorem Closes.boxed {bytes : List UInt8} {d : Document} (h : Closes bytes d) (hstarts : Starts bytes) (n : Nat) :
    Closes (List.replicate n 0x5B ++ bytes ++ List.replicate n 0x5D) (d.boxed n) ∧
      Starts (List.replicate n 0x5B ++ bytes ++ List.replicate n 0x5D) := by
  induction n with
  | zero =>
    simp only [List.replicate_zero, List.nil_append, List.append_nil]
    exact ⟨h, hstarts⟩
  | succ n ih =>
    have hround : List.replicate (n + 1) 0x5B ++ bytes ++ List.replicate (n + 1) 0x5D =
        0x5B :: (List.replicate n 0x5B ++ bytes ++ List.replicate n 0x5D ++ [0x5D]) := by
      rw [List.replicate_succ, List.replicate_succ']
      simp only [List.cons_append, List.append_assoc]
    rw [hround]
    exact ⟨ih.1.array ih.2, _, _, rfl, rfl, by decide⟩

end Scanner

end Pickaxe.Json
