import Pickaxe.Component
import Pickaxe.Proofs.Json.Depth
import Pickaxe.Proofs.Json.Sorted

/-! What a component shows.

`strings` are the strings that a component shows, in the order of its parts: an object shows its text, its key
with the arguments, and what is behind them, and `Shows` is the same for a single one of them. Flattened, a
component of sorted objects is made of what stands under the names (`flatten_object`), so each of these strings
is there in one piece, one after another (`inOrder_flatten`). -/
namespace Pickaxe.Component

open Json (Ordered Sorted member)

/-! ### Members -/

def textOf? : Json → Option String
  | .text s => some s
  | _ => none

def itemsOf? : Json → Option (List Json)
  | .array items => some items
  | _ => none

/-- The items of an array. Nothing else has any. -/
def itemsOf (v : Json) : List Json := (itemsOf? v).getD []

/-- The text of an object: without one, what stands under no name. -/
def ownText? (o : Json) : Option String := (textOf? (member "text" o)).or (textOf? (member "" o))

theorem flattened_eq (items : List Json) : flattened items = items.map flatten := by
  induction items with
  | nil => rfl
  | cons v rest ih => rw [flattened, ih, List.map_cons]

/-- A member counts before those behind it. -/
theorem visible_cons (name : String) (v : Json) (rest : List (String × Json)) :
    let text := (textOf? v).map some
    let items := (itemsOf? v).map (·.map flatten)
    let others := visible rest
    visible ((name, v) :: rest) =
      { text := if name = "text" then text.getD others.text else others.text
        unnamed := if name = "" then text.getD others.unnamed else others.unnamed
        translate := if name = "translate" then text.getD others.translate else others.translate
        arguments := if name = "with" then items.getD others.arguments else others.arguments
        extra := if name = "extra" then items.getD others.extra else others.extra } := by
  cases v with
  | text s =>
    simp only [visible, textOf?, itemsOf?]
    by_cases htext : name = "text"
    · simp [htext]
    · by_cases hunnamed : name = ""
      · simp [hunnamed]
      · by_cases htranslate : name = "translate" <;> simp [htext, hunnamed, htranslate]
  | array items =>
    simp only [visible, textOf?, itemsOf?, flattened_eq]
    by_cases harguments : name = "with"
    · simp [harguments]
    · by_cases hextra : name = "extra" <;> simp [harguments, hextra]
  | _ => simp [visible, textOf?, itemsOf?]

theorem visible_eq {members : List (String × Json)} (h : Ordered members) :
    let o := Json.object members
    visible members =
      { text := textOf? (member "text" o)
        unnamed := textOf? (member "" o)
        translate := textOf? (member "translate" o)
        arguments := (itemsOf (member "with" o)).map flatten
        extra := (itemsOf (member "extra" o)).map flatten } := by
  intro o
  have htext {field : Visible → Option String} {name : String} (hnone : field .none = none)
      (hcons : ∀ other v rest, field (visible ((other, v) :: rest)) =
        if other = name then ((textOf? v).map some).getD (field (visible rest)) else field (visible rest)) :
      field (visible members) = textOf? (member name o) := by
    have hscan := Json.scan_eq (f := fun ms => field (visible ms)) rfl hcons h
    have hnil : field (visible []) = none := hnone
    rw [hscan, hnil]
    cases textOf? (member name o) <;> rfl
  have hitems {field : Visible → List String} {name : String} (hnone : field .none = [])
      (hcons : ∀ other v rest, field (visible ((other, v) :: rest)) = if other = name then
        ((itemsOf? v).map (·.map flatten)).getD (field (visible rest)) else field (visible rest)) :
      field (visible members) = (itemsOf (member name o)).map flatten := by
    have hscan := Json.scan_eq (f := fun ms => field (visible ms)) rfl hcons h
    have hnil : field (visible []) = [] := hnone
    rw [hscan, hnil, itemsOf]
    cases itemsOf? (member name o) <;> rfl
  have hfields : visible members = ⟨(visible members).text, (visible members).unnamed,
    (visible members).translate, (visible members).arguments, (visible members).extra⟩ := rfl
  rw [hfields, htext rfl fun other v rest => congrArg Visible.text (visible_cons other v rest),
    htext rfl fun other v rest => congrArg Visible.unnamed (visible_cons other v rest),
    htext rfl fun other v rest => congrArg Visible.translate (visible_cons other v rest),
    hitems rfl fun other v rest => congrArg Visible.arguments (visible_cons other v rest),
    hitems rfl fun other v rest => congrArg Visible.extra (visible_cons other v rest)]

/-- What an object shows for its key and the arguments of it. -/
def keyed (o : Json) : String :=
  match textOf? (member "translate" o) with
  | some key => key ++ String.join ((itemsOf (member "with" o)).map fun v => " " ++ flatten v)
  | none => ""

/-- **An object is flattened by its names.** -/
theorem flatten_object {members : List (String × Json)} (h : Ordered members) :
    let o := Json.object members
    flatten o = (ownText? o).getD "" ++ keyed o ++ String.join ((itemsOf (member "extra" o)).map flatten) := by
  intro o
  rw [flatten, visible_eq h, Visible.flatten]
  simp only [List.map_map]
  rfl

theorem flatten_array (items : List Json) : flatten (.array items) = String.join (items.map flatten) := by
  rw [flatten, flattened_eq]

/-! ### The strings that are shown -/

theorem sizeOf_lt_of_mem {name : String} {members : List (String × Json)} {v : Json}
    (h : v ∈ itemsOf (member name (.object members))) : sizeOf v < sizeOf (Json.object members) := by
  cases Json.member_mem name members with
  | inl hnull =>
    rw [hnull] at h
    cases h
  | inr hmem =>
    have hlt : sizeOf (member name (.object members)) < sizeOf members := by
      have hpair := List.sizeOf_lt_of_mem hmem
      rw [Prod.mk.sizeOf_spec] at hpair
      omega
    cases hmember : member name (.object members) with
    | array items =>
      rw [hmember] at h hlt
      have hitem : sizeOf v < sizeOf items := List.sizeOf_lt_of_mem h
      rw [Json.array.sizeOf_spec] at hlt
      rw [Json.object.sizeOf_spec]
      omega
    | _ =>
      rw [hmember] at h
      cases h

/-- The strings that a component shows, in the order of its parts. -/
def strings : Json → List String
  | .text s => [s]
  | .array items => items.flatMap strings
  | .object members =>
    (ownText? (.object members)).toList ++
      (match textOf? (member "translate" (.object members)) with
        | some key => key :: (itemsOf (member "with" (.object members))).attach.flatMap fun v => strings v.1
        | none => []) ++
      (itemsOf (member "extra" (.object members))).attach.flatMap fun v => strings v.1
  | _ => []
decreasing_by
  · decreasing_tactic
  · exact sizeOf_lt_of_mem v.2
  · exact sizeOf_lt_of_mem v.2

/-- A component shows a string: it is the string, or the string is the text or the key of an object in it, however
deep, where arguments count only under a key. -/
inductive Shows : Json → String → Prop where
  | text (s : String) : Shows (.text s) s
  | item {items : List Json} {v : Json} {s : String} (hv : v ∈ items) (h : Shows v s) : Shows (.array items) s
  | own {members : List (String × Json)} {s : String} (h : ownText? (.object members) = some s) :
    Shows (.object members) s
  | key {members : List (String × Json)} {s : String} (h : textOf? (member "translate" (.object members)) = some s) :
    Shows (.object members) s
  | argument {members : List (String × Json)} {key s : String} {v : Json}
    (hkey : textOf? (member "translate" (.object members)) = some key)
    (hv : v ∈ itemsOf (member "with" (.object members))) (h : Shows v s) : Shows (.object members) s
  | extra {members : List (String × Json)} {v : Json} {s : String}
    (hv : v ∈ itemsOf (member "extra" (.object members))) (h : Shows v s) : Shows (.object members) s

/-- The strings of the key of an object and of the arguments of it. -/
def keyedStrings (o : Json) : List String :=
  match textOf? (member "translate" o) with
  | some key => key :: (itemsOf (member "with" o)).flatMap strings
  | none => []

theorem strings_array (items : List Json) : strings (.array items) = items.flatMap strings := by rw [strings]

theorem strings_object (members : List (String × Json)) :
    let o := Json.object members
    strings o = (ownText? o).toList ++ keyedStrings o ++ (itemsOf (member "extra" o)).flatMap strings := by
  have hattach (items : List Json) : (items.attach.flatMap fun v => strings v.1) = items.flatMap strings := by
    rw [← List.flatMap_map Subtype.val strings, List.attach_map_subtype_val]
  intro o
  simp only [o, strings, hattach]
  rfl

theorem Shows.of_mem {v : Json} {s : String} (h : s ∈ strings v) : Shows v s := by
  induction v using strings.induct generalizing s with
  | case1 t =>
    rw [strings, List.mem_singleton] at h
    exact h ▸ .text t
  | case2 items ih =>
    rw [strings_array] at h
    obtain ⟨v, hv, hs⟩ := List.mem_flatMap.mp h
    exact .item hv (ih v hv hs)
  | case3 members iharguments ihextra =>
    rw [strings_object, List.append_assoc, List.mem_append, List.mem_append] at h
    obtain hown | hkeyed | hextra := h
    · exact .own (Option.mem_toList.mp hown)
    · unfold keyedStrings at hkeyed
      cases hkey : textOf? (member "translate" (.object members)) with
      | none =>
        rw [hkey] at hkeyed
        cases hkeyed
      | some key =>
        rw [hkey] at hkeyed
        cases List.mem_cons.mp hkeyed with
        | inl heq => exact heq ▸ .key hkey
        | inr hargument =>
          obtain ⟨v, hv, hs⟩ := List.mem_flatMap.mp hargument
          exact .argument hkey hv (iharguments ⟨v, hv⟩ hs)
    · obtain ⟨v, hv, hs⟩ := List.mem_flatMap.mp hextra
      exact .extra hv (ihextra ⟨v, hv⟩ hs)
  | case4 v =>
    rw [strings] at h <;> first | assumption | cases h

theorem Shows.mem {v : Json} {s : String} (h : Shows v s) : s ∈ strings v := by
  induction h with
  | text s => rw [strings, List.mem_singleton]
  | item hv _ ih =>
    rw [strings_array]
    exact List.mem_flatMap.mpr ⟨_, hv, ih⟩
  | own h =>
    rw [strings_object]
    exact List.mem_append_left _ (List.mem_append_left _ (Option.mem_toList.mpr h))
  | key h =>
    rw [strings_object, keyedStrings, h]
    exact List.mem_append_left _ (List.mem_append_right _ List.mem_cons_self)
  | argument hkey hv _ ih =>
    rw [strings_object, keyedStrings, hkey]
    have hmem := List.mem_flatMap.mpr ⟨_, hv, ih⟩
    exact List.mem_append_left _ (List.mem_append_right _ (List.mem_cons_of_mem _ hmem))
  | extra hv _ ih =>
    rw [strings_object]
    exact List.mem_append_right _ (List.mem_flatMap.mpr ⟨_, hv, ih⟩)

/-- **The strings are those that are shown.** -/
theorem mem_strings_iff {v : Json} {s : String} : s ∈ strings v ↔ Shows v s :=
  ⟨Shows.of_mem, Shows.mem⟩

theorem Shows.boxed {v : Json} {s : String} (h : Shows v s) : ∀ n, Shows (v.boxed n) s
  | 0 => h
  | n + 1 => .item (List.mem_singleton.mpr rfl) (h.boxed n)

/-! ### Where they stand -/

/-- The strings stand in the text, each in one piece, one behind another. -/
inductive InOrder : List String → String → Prop where
  | nil (text : String) : InOrder [] text
  | cons (before s : String) {rest : List String} {text : String} (h : InOrder rest text) :
    InOrder (s :: rest) (before ++ s ++ text)

namespace InOrder

variable {ss ts : List String} {text more : String}

theorem behind (before : String) (h : InOrder ss text) : InOrder ss (before ++ text) := by
  cases h with
  | nil => exact .nil _
  | cons gap s h =>
    rw [← String.append_assoc, ← String.append_assoc]
    exact .cons (before ++ gap) s h

theorem append (h : InOrder ss text) (hmore : InOrder ts more) : InOrder (ss ++ ts) (text ++ more) := by
  induction h with
  | nil text => exact hmore.behind text
  | cons before s _ ih =>
    rw [String.append_assoc]
    exact .cons before s ih

theorem single (s : String) : InOrder [s] s := by
  have h := cons "" s (nil "")
  rwa [String.empty_append, String.append_empty] at h

/-- Items that hold their strings hold them together. -/
theorem join {items : List Json} {f : Json → String} (h : ∀ v ∈ items, InOrder (strings v) (f v)) :
    InOrder (items.flatMap strings) (String.join (items.map f)) := by
  induction items with
  | nil => exact .nil _
  | cons v rest ih =>
    obtain ⟨hv, hrest⟩ := List.forall_mem_cons.mp h
    rw [List.flatMap_cons, List.map_cons, String.join_cons]
    exact hv.append (ih hrest)

/-- Each of the strings is a part of the text. -/
theorem infix_of_mem {s : String} (h : InOrder ss text) (hs : s ∈ ss) : s.toList <:+: text.toList := by
  induction h with
  | nil => cases hs
  | cons before t h ih =>
    rw [String.toList_append, String.toList_append]
    cases List.mem_cons.mp hs with
    | inl heq =>
      subst heq
      exact ⟨_, _, rfl⟩
    | inr hrest => exact (ih hrest).trans (List.suffix_append _ _).isInfix

end InOrder

theorem sorted_of_mem {name : String} {members : List (String × Json)} {v : Json}
    (h : Sorted (.object members)) (hv : v ∈ itemsOf (member name (.object members))) : Sorted v := by
  have hmember : Sorted (member name (.object members)) := h.member
  generalize member name (.object members) = items at hmember hv
  cases hmember with
  | array hitems => exact hitems v hv
  | _ => cases hv

/-- **Flattened, a component shows all of its strings**, each in one piece and in their order. -/
theorem inOrder_flatten {v : Json} (h : Sorted v) : InOrder (strings v) (flatten v) := by
  induction v using strings.induct with
  | case1 t =>
    rw [strings, flatten]
    exact .single t
  | case2 items ih =>
    cases h with
    | array hitems =>
      rw [strings_array, flatten_array]
      exact InOrder.join fun v hv => ih v hv (hitems v hv)
  | case3 members iharguments ihextra =>
    have hargument : ∀ v ∈ itemsOf (member "with" (.object members)), InOrder (strings v) (" " ++ flatten v) :=
      fun v hv => (iharguments ⟨v, hv⟩ (sorted_of_mem h hv)).behind " "
    have hextra : ∀ v ∈ itemsOf (member "extra" (.object members)), InOrder (strings v) (flatten v) :=
      fun v hv => ihextra ⟨v, hv⟩ (sorted_of_mem h hv)
    have hown (own : Option String) : InOrder own.toList (own.getD "") := by
      cases own with
      | none => exact .nil _
      | some s => exact .single s
    have hkeyed : InOrder (keyedStrings (.object members)) (keyed (.object members)) := by
      unfold keyedStrings keyed
      cases textOf? (member "translate" (.object members)) with
      | none => exact .nil _
      | some key => exact (InOrder.single key).append (InOrder.join hargument)
    cases h with
    | object hnames =>
      rw [strings_object, flatten_object hnames]
      exact ((hown _).append hkeyed).append (InOrder.join hextra)
  | case4 v =>
    rw [strings] <;> first | assumption | exact .nil _

end Pickaxe.Component
