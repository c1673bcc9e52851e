import Pickaxe.Proofs.Json.Object

/-! How large a value is.

A value has its nodes, and they stand on levels. An object that is made of members has no more nodes than all the
members together (`nodes_ofMembers_le`), and no more levels than the deepest of them has with the object around it
(`levels_ofMembers_le`), as the members of a name that comes again give way. -/
namespace Pickaxe.Json

mutual

/-- The scalars, arrays and objects in a value. -/
def nodes : Json → Nat
  | .array items => itemNodes items + 1
  | .object members => memberNodes members + 1
  | _ => 1

def itemNodes : List Json → Nat
  | [] => 0
  | v :: rest => v.nodes + itemNodes rest

def memberNodes : List (String × Json) → Nat
  | [] => 0
  | (_, v) :: rest => v.nodes + memberNodes rest

end

mutual

/-- How many nodes stand around one another at the deepest place, the innermost among them. -/
def levels : Json → Nat
  | .array items => itemLevels items + 1
  | .object members => memberLevels members + 1
  | _ => 1

def itemLevels : List Json → Nat
  | [] => 0
  | v :: rest => max v.levels (itemLevels rest)

def memberLevels : List (String × Json) → Nat
  | [] => 0
  | (_, v) :: rest => max v.levels (memberLevels rest)

end

/-! ### Nodes -/

@[simp]
theorem nodes_int (n : Int) : (int n).nodes = 1 := rfl

@[simp]
theorem nodes_text (s : String) : (text s).nodes = 1 := rfl

@[simp]
theorem nodes_array (items : List Json) : (array items).nodes = itemNodes items + 1 := rfl

theorem nodes_pos (v : Json) : 0 < v.nodes := by
  cases v <;> simp [nodes]

@[simp]
theorem nodes_ofFloat (x : Float) : (ofFloat x).nodes = 1 := by
  rw [ofFloat]
  split <;> rfl

theorem memberNodes_eq (members : List (String × Json)) : memberNodes members = itemNodes (members.map (·.2)) := by
  induction members with
  | nil => rfl
  | cons m rest ih => rw [memberNodes, ih, List.map_cons, itemNodes]

theorem memberNodes_insert_le (name : String) (v : Json) (members : List (String × Json)) :
    memberNodes (insert name v members) ≤ v.nodes + memberNodes members := by
  induction members with
  | nil => exact Nat.le_refl _
  | cons head rest ih =>
    rw [insert]
    split
    · exact Nat.le_refl _
    · split
      · rw [memberNodes, memberNodes]
        omega
      · rw [memberNodes, memberNodes]
        omega

theorem memberNodes_foldl_insert_le (members acc : List (String × Json)) :
    memberNodes (members.foldl (fun ms m => insert m.1 m.2 ms) acc) ≤ memberNodes members + memberNodes acc := by
  induction members generalizing acc with
  | nil => exact Nat.le_add_left ..
  | cons head rest ih =>
    have hhead := memberNodes_insert_le head.1 head.2 acc
    have hrest := ih (insert head.1 head.2 acc)
    rw [List.foldl_cons, memberNodes]
    omega

theorem nodes_ofMembers_le (members : List (String × Json)) : (ofMembers members).nodes ≤ memberNodes members + 1 :=
  Nat.succ_le_succ (memberNodes_foldl_insert_le members [])

/-- Items that take as many bytes as they have nodes do so together. -/
theorem itemNodes_map_le {α : Type} {value : α → Json} {spell : α → List UInt8} {items : List α}
    (h : ∀ x ∈ items, (value x).nodes ≤ (spell x).length) :
    itemNodes (items.map value) ≤ (items.flatMap spell).length := by
  induction items with
  | nil => exact Nat.le_refl _
  | cons x rest ih =>
    obtain ⟨hx, hrest⟩ := List.forall_mem_cons.mp h
    rw [List.map_cons, itemNodes, List.flatMap_cons, List.length_append]
    exact Nat.add_le_add hx (ih hrest)

/-! ### Levels -/

@[simp]
theorem levels_int (n : Int) : (int n).levels = 1 := rfl

@[simp]
theorem levels_text (s : String) : (text s).levels = 1 := rfl

@[simp]
theorem levels_ofFloat (x : Float) : (ofFloat x).levels = 1 := by
  rw [ofFloat]
  split <;> rfl

theorem itemLevels_le {items : List Json} {n : Nat} (h : ∀ v ∈ items, v.levels ≤ n) : itemLevels items ≤ n := by
  induction items with
  | nil => exact Nat.zero_le n
  | cons v rest ih =>
    obtain ⟨hv, hrest⟩ := List.forall_mem_cons.mp h
    exact Nat.max_le.mpr ⟨hv, ih hrest⟩

theorem levels_array_le {items : List Json} {n : Nat} (h : ∀ v ∈ items, v.levels ≤ n) :
    (array items).levels ≤ n + 1 := Nat.succ_le_succ (itemLevels_le h)

theorem memberLevels_le {members : List (String × Json)} {n : Nat} (h : ∀ m ∈ members, m.2.levels ≤ n) :
    memberLevels members ≤ n := by
  induction members with
  | nil => exact Nat.zero_le n
  | cons m rest ih =>
    obtain ⟨hm, hrest⟩ := List.forall_mem_cons.mp h
    exact Nat.max_le.mpr ⟨hm, ih hrest⟩

theorem levels_ofMembers_le {members : List (String × Json)} {n : Nat} (h : ∀ m ∈ members, m.2.levels ≤ n) :
    (ofMembers members).levels ≤ n + 1 := by
  refine Nat.succ_le_succ (memberLevels_le fun m hm => ?_)
  exact (mem_foldl_insert hm).elim (h m) fun hnil => by cases hnil

end Pickaxe.Json
