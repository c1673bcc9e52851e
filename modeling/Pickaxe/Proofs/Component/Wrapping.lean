import Pickaxe.Component
import Pickaxe.Proofs.Nbt.Grammar

/-! Strings that are wrapped.

The items of an NBT list are of one kind, so a string among objects is sent as an object that holds it under no
name. Such an object shows what the string shows, and nothing looks at a string in an array but to show it: a
component is flattened alike whichever of these strings are wrapped (`flatten_wrapped`), and one that was sent
with wrapped strings reads as the component without (`wrapping_unseen`). -/
namespace Pickaxe.Component

/-- A string in an object of its own. -/
def wrap (s : String) : Json := .object [("", .text s)]

mutual

/-- The component with some of the strings in its arrays wrapped. A place is the way to it from the top: which
item or member to go to, again and again. -/
def wrapped (chosen : List Nat → Bool) : Json → Json
  | .array items => .array (wrappedItems chosen 0 items)
  | .object members => .object (wrappedMembers chosen 0 members)
  | v => v

/-- The items of an array from the `i`-th on. -/
def wrappedItems (chosen : List Nat → Bool) (i : Nat) : List Json → List Json
  | [] => []
  | .text s :: rest => (if chosen [i] then wrap s else .text s) :: wrappedItems chosen (i + 1) rest
  | v :: rest => wrapped (fun way => chosen (i :: way)) v :: wrappedItems chosen (i + 1) rest

/-- The members of an object from the `i`-th on. A string that is a member itself is never wrapped. -/
def wrappedMembers (chosen : List Nat → Bool) (i : Nat) : List (String × Json) → List (String × Json)
  | [] => []
  | (name, v) :: rest =>
    (name, wrapped (fun way => chosen (i :: way)) v) :: wrappedMembers chosen (i + 1) rest

end

theorem flatten_wrap (s : String) : flatten (wrap s) = s := by
  simp [wrap, flatten, visible, Visible.flatten, Visible.none]

/-! ### Flattened alike -/

mutual

/-- **Wrapped strings show as they are.** -/
theorem flatten_wrapped (chosen : List Nat → Bool) : ∀ v, flatten (wrapped chosen v) = flatten v
  | .null | .bool _ | .int _ | .float _ | .text _ => rfl
  | .array items => by rw [wrapped, flatten, flatten, flattened_wrappedItems]
  | .object members => by rw [wrapped, flatten, flatten, visible_wrappedMembers]

theorem flattened_wrappedItems (chosen : List Nat → Bool) (i : Nat) :
    ∀ items, flattened (wrappedItems chosen i items) = flattened items
  | [] => rfl
  | v :: rest => by
    have hrest := flattened_wrappedItems chosen (i + 1) rest
    cases v with
    | text s =>
      rw [wrappedItems, flattened, flattened, hrest]
      split
      · rw [flatten_wrap, flatten]
      · rfl
    | _ =>
      rw [wrappedItems, flattened, flattened, hrest, flatten_wrapped]
      nofun

/-- A member keeps its kind, so what an object takes from its members is taken from the same ones. -/
theorem visible_wrappedMembers (chosen : List Nat → Bool) (i : Nat) :
    ∀ members, visible (wrappedMembers chosen i members) = visible members
  | [] => rfl
  | (name, v) :: rest => by
    have hrest := visible_wrappedMembers chosen (i + 1) rest
    cases v with
    | array items =>
      have hitems := flattened_wrappedItems (fun way => chosen (i :: way)) 0 items
      rw [wrappedMembers, wrapped, visible, visible, hrest, hitems]
    | _ => rw [wrappedMembers, wrapped, visible, visible, hrest] <;> nofun

end

/-! ### Components on the wire -/

/-- A tree is read as the text of its image. -/
theorem read_tree {t : Nbt.Tree} (hlawful : t.Lawful) (hheight : t.height ≤ 64) (rest : List UInt8) :
    read (t.kind :: t.payload ++ rest) = (.ok (flatten t.json), rest) :=
  (Nbt.takes_read.map flatten).read ⟨t.json, .inr ⟨t, hlawful, hheight, rfl, rfl⟩, rfl⟩ rest

/-- **Wrapping strings changes nothing that is seen.** Whichever strings in the arrays of a component are
wrapped, in arrays at any depth, the component is flattened to the same text. So one that was sent as a tree with
its strings wrapped is read as the component is flattened without. -/
theorem wrapping_unseen (chosen : List Nat → Bool) (v : Json) :
    flatten (wrapped chosen v) = flatten v ∧
      ∀ (t : Nbt.Tree) (rest : List UInt8), t.Lawful → t.height ≤ 64 → t.json = wrapped chosen v →
        read (t.kind :: t.payload ++ rest) = (.ok (flatten v), rest) := by
  refine ⟨flatten_wrapped chosen v, fun t rest hlawful hheight hjson => ?_⟩
  rw [read_tree hlawful hheight, hjson, flatten_wrapped]

/-- A list of a string and an object, with such a list behind the text of the object. -/
theorem wrapping_unseen_nested :
    let lone (c : UInt8) : Nbt.Tree := .compound [([], .text [c])]
    let named (c : UInt8) : Nbt.Tree := .compound [([0x74, 0x65, 0x78, 0x74], .text [c])]
    let inner : Nbt.Tree := .list 10 2 [lone 0x63, named 0x64]
    let outer : Nbt.Tree :=
      .compound [([0x74, 0x65, 0x78, 0x74], .text [0x62]), ([0x65, 0x78, 0x74, 0x72, 0x61], inner)]
    let t : Nbt.Tree := .list 10 2 [lone 0x61, outer]
    let plain : Json := .array [.text "a",
      .object [("extra", .array [.text "c", .object [("text", .text "d")]]), ("text", .text "b")]]
    t.Lawful ∧ t.height ≤ 64 ∧ t.json = wrapped (fun _ => true) plain ∧
      read (t.kind :: t.payload) = (.ok "abcd", []) := by
  intro lone named inner outer t plain
  have htext (c : UInt8) : (Nbt.Tree.text [c]).Lawful := .text (by simp)
  have hlone (c : UInt8) : (lone c).Lawful := .compound (by simp) (by simp [htext])
  have hnamed (c : UInt8) : (named c).Lawful := .compound (by simp) (by simp [htext])
  have hinner : inner.Lawful :=
    .list (by decide) (by decide) (by decide) (by simp [lone, named, Nbt.Tree.kind]) (by simp [hlone, hnamed])
  have houter : outer.Lawful := .compound (by simp) (by simp [htext, hinner])
  have hlawful : t.Lawful :=
    .list (by decide) (by decide) (by decide) (by simp [lone, outer, Nbt.Tree.kind]) (by simp [hlone, houter])
  have hheight : t.height ≤ 64 := by simp [t, outer, inner, lone, named, Nbt.Tree.height]
  have hjson : t.json = wrapped (fun _ => true) plain := by
    simp only [t, outer, inner, lone, named, Nbt.Tree.json, List.map_cons, List.map_nil]
    rfl
  have hread := (wrapping_unseen (fun _ => true) plain).2 t [] hlawful hheight hjson
  rw [List.append_nil] at hread
  exact ⟨hlawful, hheight, hjson, hread.trans rfl⟩

end Pickaxe.Component
