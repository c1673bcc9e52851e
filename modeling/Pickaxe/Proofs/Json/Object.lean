import Pickaxe.Json.Basic

/-! The members of an object.

An object is made by putting one member after another in its place. Its names go upwards, each name once
(`Ordered`), and of the members of one name it keeps the last (`exists_ofMembers`). -/
namespace Pickaxe.Json

variable {members : List (String × Json)} {name : String} {v : Json}

/-- The names go upwards, each name once. -/
def Ordered (members : List (String × Json)) : Prop := members.Pairwise fun a b => a.1 < b.1

theorem mem_insert {m : String × Json} (h : m ∈ insert name v members) :
    m = (name, v) ∨ m ∈ members := by
  induction members with
  | nil => exact .inl (List.mem_singleton.mp h)
  | cons head rest ih =>
    rw [insert] at h
    split at h
    · exact List.mem_cons.mp h
    · split at h
      · exact (List.mem_cons.mp h).imp_right (List.mem_cons_of_mem head)
      · rcases List.mem_cons.mp h with rfl | hrest
        · exact .inr (List.mem_cons_self ..)
        · exact (ih hrest).imp_right (List.mem_cons_of_mem head)

theorem Ordered.insert (h : Ordered members) : Ordered (insert name v members) := by
  induction members with
  | nil => exact List.pairwise_singleton ..
  | cons head rest ih =>
    obtain ⟨hhead, hrest⟩ := List.pairwise_cons.mp h
    rw [Json.insert]
    split
    · rename_i hbefore
      refine List.pairwise_cons.mpr ⟨List.forall_mem_cons.mpr ⟨hbefore, fun m hm => ?_⟩, h⟩
      exact String.lt_trans hbefore (hhead m hm)
    · rename_i hnot
      split
      · rename_i heq
        subst heq
        exact List.pairwise_cons.mpr ⟨hhead, hrest⟩
      · rename_i hne
        have hbehind : head.1 < name := Classical.byContradiction fun hnone =>
          hne (String.le_antisymm (String.not_lt.mp hnone) (String.not_lt.mp hnot))
        refine List.pairwise_cons.mpr ⟨fun m hm => ?_, ih hrest⟩
        rcases mem_insert hm with rfl | hm
        · exact hbehind
        · exact hhead m hm

/-- A member that was put in its place is found under its name, and the others under theirs. -/
theorem find?_insert (name : String) (v : Json) (members : List (String × Json)) (other : String) :
    (insert name v members).find? (·.1 = other) =
      if name = other then some (name, v) else members.find? (·.1 = other) := by
  induction members with
  | nil => by_cases h : name = other <;> simp [insert, h]
  | cons head rest ih =>
    rw [insert]
    split
    · by_cases h : name = other <;> simp [h]
    · split
      · rename_i heq
        subst heq
        by_cases h : head.1 = other <;> simp [h]
      · rename_i hne
        rw [List.find?_cons, ih]
        by_cases h : head.1 = other
        · have hother : name ≠ other := fun heq => hne (heq.trans h.symm)
          simp [h, hother]
        · simp [h]

/-- What is kept when members are put in their places one after another. -/
theorem foldl_insert (members : List (String × Json)) {acc : List (String × Json)} (hacc : Ordered acc) :
    let kept := members.foldl (fun ms m => insert m.1 m.2 ms) acc
    Ordered kept ∧ ∀ name, kept.find? (·.1 = name) =
      (members.reverse.find? (·.1 = name)).or (acc.find? (·.1 = name)) := by
  induction members generalizing acc with
  | nil => exact ⟨hacc, fun _ => rfl⟩
  | cons m members ih =>
    obtain ⟨name, v⟩ := m
    obtain ⟨hordered, hfind⟩ := ih hacc.insert
    refine ⟨hordered, fun other => (hfind other).trans ?_⟩
    rw [find?_insert, List.reverse_cons, List.find?_append, Option.or_assoc]
    by_cases h : name = other <;> simp [h]

/-- No member comes from anywhere else. -/
theorem mem_foldl_insert {m : String × Json} {acc : List (String × Json)}
    (h : m ∈ members.foldl (fun ms m => insert m.1 m.2 ms) acc) : m ∈ members ∨ m ∈ acc := by
  induction members generalizing acc with
  | nil => exact .inr h
  | cons head rest ih =>
    rcases ih h with hrest | hacc
    · exact .inl (List.mem_cons_of_mem head hrest)
    · rcases mem_insert hacc with rfl | hacc
      · exact .inl (List.mem_cons_self ..)
      · exact .inr hacc

/-- **An object keeps the last member of each name**, its names upwards. -/
theorem exists_ofMembers (members : List (String × Json)) : ∃ kept, ofMembers members = .object kept ∧
    Ordered kept ∧ ∀ name, kept.find? (·.1 = name) = members.reverse.find? (·.1 = name) := by
  obtain ⟨hordered, hfind⟩ := foldl_insert members List.Pairwise.nil
  exact ⟨_, rfl, hordered, fun name => (hfind name).trans (Option.or_none ..)⟩

end Pickaxe.Json
