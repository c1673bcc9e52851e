import Pickaxe.Json.Value
import Pickaxe.Proofs.Json.Object

/-! The objects of a value that was parsed.

All of them have their names upwards, each name once, at any depth (`sorted_of_parse?`). A scan of all members
for the one of some name therefore comes to what stands under that name (`scan_eq`). -/
namespace Pickaxe.Json

/-! ### Sorted values -/

/-- The names of every object in the value go upwards, each name once. -/
inductive Sorted : Json → Prop where
  | null : Sorted .null
  | bool (b : Bool) : Sorted (.bool b)
  | int (n : Int) : Sorted (.int n)
  | float (x : Float) : Sorted (.float x)
  | text (s : String) : Sorted (.text s)
  | array {items : List Json} (h : ∀ v ∈ items, Sorted v) : Sorted (.array items)
  | object {members : List (String × Json)} (hnames : Ordered members) (h : ∀ m ∈ members, Sorted m.2) :
    Sorted (.object members)

theorem sorted_ofMembers {members : List (String × Json)} (h : ∀ m ∈ members, Sorted m.2) :
    Sorted (ofMembers members) := by
  refine .object (foldl_insert members List.Pairwise.nil).1 fun m hm => ?_
  exact (mem_foldl_insert hm).elim (h m) fun hnil => by cases hnil

theorem sorted_of_numeral {n : Numeral} {v : Json} (h : n.value? = some v) : Sorted v := by
  unfold Numeral.value? at h
  simp only at h
  split at h
  · cases h
    exact .int _
  · obtain ⟨x, -, rfl⟩ := Option.map_eq_some_iff.mp h
    exact .float _

mutual

theorem sorted_of_value? {room : Nat} {v : Json} : ∀ {d : Document}, d.value? room = some v → Sorted v
  | .null, h => by
    cases h
    exact .null
  | .bool b, h => by
    cases h
    exact .bool b
  | .number n, h => sorted_of_numeral h
  | .text glyphs, h => by
    obtain ⟨s, -, rfl⟩ := Option.map_eq_some_iff.mp h
    exact .text s
  | .array items, h => by
    cases room with
    | zero => cases h
    | succ room =>
      obtain ⟨vs, hvs, rfl⟩ := Option.map_eq_some_iff.mp h
      exact .array (sorted_of_values? hvs)
  | .object members, h => by
    cases room with
    | zero => cases h
    | succ room =>
      obtain ⟨ms, hms, rfl⟩ := Option.map_eq_some_iff.mp h
      exact sorted_ofMembers (sorted_of_members? hms)

theorem sorted_of_values? {room : Nat} {vs : List Json} :
    ∀ {ds : List Document}, values? room ds = some vs → ∀ v ∈ vs, Sorted v
  | [], h => by
    cases h
    exact List.forall_mem_nil _
  | d :: rest, h => by
    obtain ⟨v, hv, h⟩ := Option.bind_eq_some_iff.mp h
    obtain ⟨vs, hvs, h⟩ := Option.bind_eq_some_iff.mp h
    cases h
    exact List.forall_mem_cons.mpr ⟨sorted_of_value? hv, sorted_of_values? hvs⟩

theorem sorted_of_members? {room : Nat} {ms : List (String × Json)} :
    ∀ {ds : List (List Glyph × Document)}, members? room ds = some ms → ∀ m ∈ ms, Sorted m.2
  | [], h => by
    cases h
    exact List.forall_mem_nil _
  | (key, d) :: rest, h => by
    obtain ⟨name, -, h⟩ := Option.bind_eq_some_iff.mp h
    obtain ⟨v, hv, h⟩ := Option.bind_eq_some_iff.mp h
    obtain ⟨ms, hms, h⟩ := Option.bind_eq_some_iff.mp h
    cases h
    exact List.forall_mem_cons.mpr ⟨sorted_of_value? hv, sorted_of_members? hms⟩

end

/-- **What is parsed is sorted.** -/
theorem sorted_of_parse? {bytes : List UInt8} {v : Json} (h : parse? bytes = some v) : Sorted v := by
  obtain ⟨d, -, hd⟩ := Option.bind_eq_some_iff.mp h
  exact sorted_of_value? hd

/-! ### Members by name -/

theorem member_cons (name other : String) (v : Json) (rest : List (String × Json)) :
    member name (.object ((other, v) :: rest)) = if other = name then v else member name (.object rest) := by
  by_cases h : other = name <;> simp [member, h]

theorem member_of_forall_ne {name : String} {members : List (String × Json)} (h : ∀ m ∈ members, m.1 ≠ name) :
    member name (.object members) = .null := by
  have hnone : members.find? (·.1 = name) = none := by simpa using h
  rw [member, hnone]
  rfl

/-- A value that stands under a name, or null. -/
theorem member_mem (name : String) (members : List (String × Json)) :
    member name (.object members) = .null ∨ (name, member name (.object members)) ∈ members := by
  cases hfind : members.find? (·.1 = name) with
  | none =>
    rw [member, hfind]
    exact .inl rfl
  | some m =>
    obtain ⟨other, v⟩ := m
    obtain rfl : other = name := by simpa using List.find?_some hfind
    rw [member, hfind]
    exact .inr (List.mem_of_find?_eq_some hfind)

theorem Sorted.member {name : String} {members : List (String × Json)} (h : Sorted (.object members)) :
    Sorted (member name (.object members)) := by
  cases h with
  | object _ hvalues =>
    cases member_mem name members with
    | inl hnull => exact hnull ▸ .null
    | inr hmem => exact hvalues _ hmem

section
variable {α : Type} {name : String} {f : List (String × Json) → α} {found : Json → Option α}

/-- A scan that takes what it looks for from the first member of its name that has it, takes it from what stands
under the name. -/
theorem scan_eq (hnull : found .null = none)
    (hcons : ∀ other v rest, f ((other, v) :: rest) = if other = name then (found v).getD (f rest) else f rest)
    {members : List (String × Json)} (h : Ordered members) :
    f members = (found (member name (.object members))).getD (f []) := by
  induction members with
  | nil =>
    have hnone : member name (.object []) = .null := rfl
    rw [hnone, hnull]
    rfl
  | cons head rest ih =>
    obtain ⟨other, v⟩ := head
    obtain ⟨hhead, hrest⟩ := List.pairwise_cons.mp h
    rw [hcons, member_cons, ih hrest]
    by_cases heq : other = name
    · subst heq
      have habsent : member other (.object rest) = .null :=
        member_of_forall_ne fun m hm hname => String.lt_irrefl _ (hname ▸ hhead m hm)
      rw [if_pos rfl, if_pos rfl, habsent, hnull]
      rfl
    · rw [if_neg heq, if_neg heq]

end

end Pickaxe.Json
