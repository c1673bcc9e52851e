import Mathlib.Data.List.Chain
import Pickaxe.Proofs.Json.Size
import Pickaxe.Proofs.Nbt.Grammar

/-! The work of reading network NBT.

The image of a tree has no more nodes than the tree has bytes (`Tree.nodes_json_le`), and two levels more than the
deepest node lies deep (`Tree.levels_json_le`). A read that takes account of its loops goes through lists and arrays
as the plain read does (`Watched.erase_read`), and whatever comes of it, every round of a loop that goes to its end
takes a byte at least. So a peer that promises many items has to send them (`read_bounded`). -/
namespace Pickaxe.Nbt

open Wire Reader
open Json (itemNodes)

/-! ### Values -/

namespace Tree

theorem length_payload_compound (members : List (List UInt8 × Tree)) :
    (compound members).payload.length = (members.flatMap entry).length + 1 := by
  rw [payload, List.length_append, List.length_singleton]
  rfl

/-- Numbers of an array that take a byte each at least. -/
theorem nodes_numbers_le {α : Type} (value : α → Int) {spell : α → List UInt8} (h : ∀ x, 0 < (spell x).length)
    (items : List α) : (Json.array (items.map fun x => .int (value x))).nodes ≤
      (bigEndianBytes 4 items.length ++ items.flatMap spell).length := by
  have hitems : itemNodes (items.map fun x => .int (value x)) ≤ (items.flatMap spell).length :=
    Json.itemNodes_map_le fun x _ => h x
  rw [Json.nodes_array, List.length_append, length_bigEndianBytes, Nat.add_comm]
  exact Nat.add_le_add (by decide) hitems

/-- **The image has no more nodes than the payload has bytes.** -/
theorem nodes_json_le (t : Tree) : t.json.nodes ≤ t.payload.length := by
  induction t using payload.induct with
  | case1 v => rw [json, payload, Json.nodes_int, List.length_singleton]
  | case2 v | case3 v | case4 v =>
    rw [json, payload, Json.nodes_int]
    exact bigEndianBytes_pos _ _
  | case5 bits | case6 bits =>
    rw [json, payload, Json.nodes_ofFloat]
    exact bigEndianBytes_pos _ _
  | case7 items =>
    rw [json, payload, List.map_eq_flatMap (f := Int8.toUInt8)]
    refine nodes_numbers_le _ (fun v => ?_) items
    exact Nat.one_pos
  | case8 spelling =>
    rw [json, payload, Json.nodes_text, spelled, List.length_append, length_bigEndianBytes]
    omega
  | case9 item count items ih =>
    have hitems := Json.itemNodes_map_le ih
    rw [json, payload, Json.nodes_array, List.length_append, List.length_cons, length_bigEndianBytes]
    omega
  | case10 members ih =>
    have hmembers : itemNodes (members.map fun m => m.2.json) ≤ (members.flatMap entry).length := by
      refine Json.itemNodes_map_le fun m hm => Nat.le_trans (ih m hm) ?_
      rw [entry, List.length_append]
      exact Nat.le_add_left ..
    have hkept := Json.nodes_ofMembers_le (members.map image)
    rw [Json.memberNodes_eq, List.map_map] at hkept
    rw [json, length_payload_compound]
    exact Nat.le_trans hkept (Nat.succ_le_succ hmembers)
  | case11 items =>
    rw [json, payload]
    exact nodes_numbers_le _ (fun _ => bigEndianBytes_pos 3 _) items
  | case12 items =>
    rw [json, payload]
    exact nodes_numbers_le _ (fun _ => bigEndianBytes_pos 7 _) items

theorem payload_pos (t : Tree) : 0 < t.payload.length := Nat.lt_of_lt_of_le t.json.nodes_pos t.nodes_json_le

/-- **The image has a level for each depth**, and one more for the numbers of an array. -/
theorem levels_json_le {t : Tree} {n : Nat} (h : t.height < n) : t.json.levels ≤ n + 1 := by
  have hnumbers {α : Type} (value : α → Int) (items : List α) {n : Nat} (hn : 0 < n) :
      (Json.array (items.map fun x => .int (value x))).levels ≤ n + 1 :=
    Json.levels_array_le (List.forall_mem_map.mpr fun x _ => hn)
  induction t using payload.induct generalizing n with
  | case1 v | case2 v | case3 v | case4 v =>
    rw [json, Json.levels_int]
    exact Nat.le_add_left ..
  | case5 bits | case6 bits =>
    rw [json, Json.levels_ofFloat]
    exact Nat.le_add_left ..
  | case8 spelling =>
    rw [json, Json.levels_text]
    exact Nat.le_add_left ..
  | case7 items | case11 items | case12 items =>
    rw [json]
    exact hnumbers _ _ (Nat.zero_lt_of_lt h)
  | case9 item count items ih =>
    cases n with
    | zero => cases h
    | succ n =>
      rw [json]
      refine Json.levels_array_le (List.forall_mem_map.mpr fun t ht => ?_)
      exact ih t ht (height_list_lt.mp h t ht)
  | case10 members ih =>
    cases n with
    | zero => cases h
    | succ n =>
      rw [json]
      refine Json.levels_ofMembers_le (List.forall_mem_map.mpr fun m hm => ?_)
      exact ih m hm (height_compound_lt.mp h m hm)

end Tree

/-! ### Loops -/

/-- Of two places in the bytes, the second lies behind the first: a byte at least was taken between them. -/
def Spends (before after : List UInt8) : Prop := after <:+ before ∧ after.length < before.length

/-- A loop over the items of a list or an array: the bytes that were left when it began, the number of items it was
told, and the bytes that were left after each of the rounds that went to their end. -/
structure Loop where
  start : List UInt8
  count : Nat
  behind : List (List UInt8)

/-- Each round that went to its end spent a byte, and there were no more of them than the loop was told. -/
structure Loop.Bounded (l : Loop) : Prop where
  spends : (l.start :: l.behind).IsChain Spends
  told : l.behind.length ≤ l.count

theorem length_le_of_isChain {start : List UInt8} {behind : List (List UInt8)}
    (h : (start :: behind).IsChain Spends) : behind.length ≤ start.length := by
  induction behind generalizing start with
  | nil => exact Nat.zero_le _
  | cons next behind ih =>
    obtain ⟨⟨-, hlt⟩, hrest⟩ := List.isChain_cons_cons.mp h
    exact Nat.lt_of_le_of_lt (ih hrest) hlt

/-- What is left after each of at most `n` rounds that go to their end. -/
def passes {α : Type} (r : Reader α) : (n : Nat) → List UInt8 → List (List UInt8)
  | 0, _ => []
  | n + 1, bytes => match r bytes with
    | (.ok _, rest) => rest :: passes r n rest
    | (.error _, _) => []

/-- A value costs a byte at least. -/
def Costs {α : Type} (r : Reader α) : Prop := ∀ bytes a rest, r bytes = (.ok a, rest) → Spends bytes rest

section Passes

variable {α : Type} {r : Reader α}

theorem Costs.of_takes {F : α → List UInt8 → Prop} (h : r.Takes F) (hpos : ∀ a form, F a form → 0 < form.length) :
    Costs r := by
  intro bytes a rest hread
  obtain ⟨form, hform, rfl⟩ := (h _ _ _).mp hread
  have hlength := hpos a form hform
  refine ⟨List.suffix_append form rest, ?_⟩
  rw [List.length_append]
  omega

theorem length_passes_le (r : Reader α) (n : Nat) (bytes : List UInt8) : (passes r n bytes).length ≤ n := by
  induction n generalizing bytes with
  | zero => exact Nat.le_refl 0
  | succ n ih =>
    rw [passes]
    split
    · exact Nat.succ_le_succ (ih _)
    · exact Nat.zero_le _

theorem isChain_passes (h : Costs r) (n : Nat) (bytes : List UInt8) :
    (bytes :: passes r n bytes).IsChain Spends := by
  induction n generalizing bytes with
  | zero => exact .singleton bytes
  | succ n ih =>
    rw [passes]
    split
    · rename_i a rest hread
      exact .cons_cons (h bytes a rest hread) (ih rest)
    · exact .singleton bytes

end Passes

theorem costs_u8 : Costs u8 := .of_takes takes_u8 fun _ _ h => h ▸ Nat.one_pos

theorem costs_i32 : Costs i32 := .of_takes takes_i32 fun _ _ h => h ▸ bigEndianBytes_pos 3 _

theorem costs_i64 : Costs i64 := .of_takes takes_i64 fun _ _ h => h ▸ bigEndianBytes_pos 7 _

theorem costs_payload (levels : Nat) (kind : UInt8) : Costs (payload levels kind) :=
  .of_takes (takes_payload levels kind) fun _ _ ⟨t, _, hform, _⟩ => hform ▸ t.payload_pos

/-! ### Taking account -/

/-- A read with the loops it goes through. -/
def Watched (α : Type) : Type := List UInt8 → (Except PacketError α × List UInt8) × List Loop

namespace Watched

def pure {α : Type} (a : α) : Watched α := fun bytes => ((.ok a, bytes), [])

def bind {α β : Type} (t : Watched α) (f : α → Watched β) : Watched β := fun bytes =>
  match t bytes with
  | ((.ok a, rest), loops) => ((f a rest).1, loops ++ (f a rest).2)
  | ((.error e, rest), loops) => ((.error e, rest), loops)

instance : Monad Watched where
  pure := Watched.pure
  bind := Watched.bind

/-- A read without loops. -/
def plain {α : Type} (r : Reader α) : Watched α := fun bytes => (r bytes, [])

/-- The read without the account. -/
def erase {α : Type} (t : Watched α) : Reader α := fun bytes => (t bytes).1

/-- The same read `n` times. -/
def rounds {α : Type} (t : Watched α) : Nat → Watched (List α)
  | 0 => return []
  | n + 1 => do
    let a ← t
    return a :: (← t.rounds n)

/-- A loop of `n` rounds. -/
def times {α : Type} (t : Watched α) (n : Nat) : Watched (List α) := fun bytes =>
  ((t.rounds n bytes).1, ⟨bytes, n, passes t.erase n bytes⟩ :: (t.rounds n bytes).2)

/-- The bytes of an array are taken at once, and each of them counts as a round. -/
def bytes (n : Nat) : Watched (List UInt8) := fun bytes =>
  (Reader.bytes n bytes, [⟨bytes, n, passes u8 n bytes⟩])

def members (value : UInt8 → Watched Json) : (rounds : Nat) → Watched (List (String × Json))
  | 0 => plain (fail (.truncated 1 0))
  | rounds + 1 => do
    let kind ← plain u8
    if kind = 0 then return []
    else
      let name ← plain text
      let v ← value kind
      return (name, v) :: (← members value rounds)

def payload : (levels : Nat) → UInt8 → Watched Json
  | 0, _ => plain (fail (.invalidNbt "nesting too deep"))
  | levels + 1, kind => match Kind.ofByte? kind with
    | none => plain (fail (.invalidNbt s!"unknown tag type {kind.toNat}"))
    | some .byte => do return .int (← plain i8).toInt
    | some .short => do return .int (← plain i16).toInt
    | some .int => do return .int (← plain i32).toInt
    | some .long => do return .int (← plain i64).toInt
    | some .float => do return .ofFloat (← plain f32).toFloat
    | some .double => do return .ofFloat (← plain f64)
    | some .byteArray => do
      let n ← plain count
      return .array ((← bytes n).map fun b => .int (Int8.ofNat b.toNat).toInt)
    | some .text => do return .text (← plain text)
    | some .list => do
      let item ← plain u8
      let n ← plain i32
      if n.toInt ≤ 0 ∨ item = 0 then return .array []
      else return .array (← times (payload levels item) n.toInt.toNat)
    | some .compound => do
      let left ← plain remaining
      return .ofMembers (← members (payload levels) (left + 1))
    | some .intArray => do
      let n ← plain count
      return .array ((← times (plain i32) n).map fun i => .int i.toInt)
    | some .longArray => do
      let n ← plain count
      return .array ((← times (plain i64) n).map fun i => .int i.toInt)

/-- Reading a value, with the loops over its lists and arrays. -/
def read : Watched Json := do
  let kind ← plain u8
  if kind = 0 then return .null else payload maxLevels kind

/-! ### The plain read -/

variable {α β : Type}

@[simp]
theorem erase_pure (a : α) : (Pure.pure a : Watched α).erase = Pure.pure a := rfl

@[simp]
theorem erase_plain (r : Reader α) : (plain r).erase = r := rfl

@[simp]
theorem erase_bytes (n : Nat) : (bytes n).erase = Reader.bytes n := rfl

@[simp]
theorem erase_bind (t : Watched α) (f : α → Watched β) : (t >>= f).erase = t.erase >>= fun a => (f a).erase := by
  funext bytes
  change (Watched.bind t f bytes).1 = Reader.bind t.erase (fun a => (f a).erase) bytes
  rw [Watched.bind, Reader.bind, erase]
  rcases t bytes with ⟨⟨_ | _, _⟩, _⟩ <;> rfl

@[simp]
theorem erase_ite (p : Prop) [Decidable p] (t u : Watched α) :
    (if p then t else u).erase = if p then t.erase else u.erase := by
  split <;> rfl

@[simp]
theorem erase_times (t : Watched α) (n : Nat) : (t.times n).erase = Nbt.times t.erase n := by
  change (t.rounds n).erase = _
  induction n with
  | zero => rfl
  | succ n ih => simp only [rounds, Nbt.times, erase_bind, erase_pure, ih]

theorem erase_members {value : UInt8 → Watched Json} {node : UInt8 → Reader Json}
    (h : ∀ kind, (value kind).erase = node kind) (rounds : Nat) :
    (members value rounds).erase = Nbt.members node rounds := by
  induction rounds with
  | zero => rfl
  | succ rounds ih => simp only [members, Nbt.members, erase_bind, erase_ite, erase_plain, erase_pure, h, ih]

theorem erase_payload (levels : Nat) (kind : UInt8) : (payload levels kind).erase = Nbt.payload levels kind := by
  induction levels generalizing kind with
  | zero => rfl
  | succ levels ih =>
    rw [payload, Nbt.payload]
    cases Kind.ofByte? kind with
    | none => rfl
    | some k =>
      cases k <;> simp only [erase_bind, erase_ite, erase_plain, erase_pure, erase_bytes, erase_times,
        erase_members ih, ih]

/-- **The account changes nothing.** -/
theorem erase_read : read.erase = Nbt.read := by
  rw [read, Nbt.read, erase_bind, erase_plain]
  congr 1
  funext kind
  rw [erase_ite, erase_pure, erase_payload]

/-! ### What a read spends -/

/-- A read that gives a value leaves what is behind it, and whatever comes of it, it goes through bounded loops. -/
structure Frugal (t : Watched α) : Prop where
  onward : ∀ {bytes a rest}, t.erase bytes = (.ok a, rest) → rest <:+ bytes
  loops : ∀ {bytes l}, l ∈ (t bytes).2 → l.start <:+ bytes ∧ l.Bounded

theorem frugal_plain {r : Reader α} {F : α → List UInt8 → Prop} (h : r.Takes F) : (plain r).Frugal where
  onward hread := by
    obtain ⟨form, -, rfl⟩ := (h _ _ _).mp hread
    exact List.suffix_append form _
  loops hl := by cases hl

theorem frugal_pure (a : α) : (Pure.pure a : Watched α).Frugal := frugal_plain (takes_pure a)

theorem frugal_fail (e : PacketError) : (plain (fail e) : Watched α).Frugal := frugal_plain (takes_fail e)

theorem frugal_remaining : (plain remaining).Frugal where
  onward hread := by
    cases hread
    exact List.suffix_refl _
  loops hl := by cases hl

theorem frugal_count : (plain count).Frugal where
  onward hread := by
    obtain ⟨-, -, rfl⟩ := count_eq_ok.mp hread
    exact List.suffix_append _ _
  loops hl := by cases hl

theorem Frugal.bind {t : Watched α} {f : α → Watched β} (ht : t.Frugal) (hf : ∀ a, (f a).Frugal) :
    (t >>= f).Frugal where
  onward hread := by
    rw [erase_bind] at hread
    obtain ⟨a, left, hfirst, hsecond⟩ := bind_eq_ok.mp hread
    exact ((hf a).onward hsecond).trans (ht.onward hfirst)
  loops {bytes l} hl := by
    change l ∈ (Watched.bind t f bytes).2 at hl
    rw [Watched.bind] at hl
    split at hl
    · rename_i a rest loops hfirst
      rcases List.mem_append.mp hl with hl | hl
      · exact ht.loops (hfirst ▸ hl)
      · obtain ⟨hstart, hbounded⟩ := (hf a).loops hl
        exact ⟨hstart.trans (ht.onward (congrArg Prod.fst hfirst)), hbounded⟩
    · rename_i e rest loops hfirst
      exact ht.loops (hfirst ▸ hl)

theorem Frugal.map {t : Watched α} (ht : t.Frugal) (f : α → β) : (do return f (← t) : Watched β).Frugal :=
  ht.bind fun a => frugal_pure (f a)

theorem Frugal.ite {p : Prop} [Decidable p] {t u : Watched α} (ht : t.Frugal) (hu : u.Frugal) :
    (if p then t else u).Frugal := by
  split
  · exact ht
  · exact hu

theorem bounded_passes {r : Reader α} (h : Costs r) (n : Nat) (bytes : List UInt8) :
    (Loop.mk bytes n (passes r n bytes)).Bounded := ⟨isChain_passes h n bytes, length_passes_le r n bytes⟩

theorem Frugal.rounds {t : Watched α} (ht : t.Frugal) (n : Nat) : (t.rounds n).Frugal := by
  induction n with
  | zero => exact frugal_pure []
  | succ n ih => exact ht.bind fun a => ih.map (a :: ·)

theorem Frugal.times {t : Watched α} (ht : t.Frugal) (hcosts : Costs t.erase) (n : Nat) : (t.times n).Frugal where
  onward := (ht.rounds n).onward
  loops {bytes l} hl := by
    rcases List.mem_cons.mp hl with rfl | hl
    · exact ⟨List.suffix_refl bytes, bounded_passes hcosts n bytes⟩
    · exact (ht.rounds n).loops hl

theorem frugal_bytes (n : Nat) : (bytes n).Frugal where
  onward := (frugal_plain (takes_bytes n)).onward
  loops {bytes l} hl := by
    obtain rfl := List.mem_singleton.mp hl
    exact ⟨List.suffix_refl bytes, bounded_passes costs_u8 n bytes⟩

theorem frugal_members {value : UInt8 → Watched Json} (h : ∀ kind, (value kind).Frugal) (rounds : Nat) :
    (members value rounds).Frugal := by
  induction rounds with
  | zero => exact frugal_fail _
  | succ rounds ih =>
    refine (frugal_plain takes_u8).bind fun kind => .ite (frugal_pure []) ?_
    exact (frugal_plain takes_text).bind fun name => (h kind).bind fun v => ih.map ((name, v) :: ·)

theorem frugal_payload (levels : Nat) (kind : UInt8) : (payload levels kind).Frugal := by
  induction levels generalizing kind with
  | zero => exact frugal_fail _
  | succ levels ih =>
    rw [payload]
    cases Kind.ofByte? kind with
    | none => exact frugal_fail _
    | some k =>
      cases k with
      | byte => exact (frugal_plain takes_i8).map _
      | short => exact (frugal_plain takes_i16).map _
      | int => exact (frugal_plain takes_i32).map _
      | long => exact (frugal_plain takes_i64).map _
      | float => exact (frugal_plain takes_f32).map _
      | double => exact (frugal_plain takes_f64).map Json.ofFloat
      | text => exact (frugal_plain takes_text).map Json.text
      | byteArray => exact frugal_count.bind fun n => (frugal_bytes n).map _
      | list =>
        refine (frugal_plain takes_u8).bind fun item => (frugal_plain takes_i32).bind fun n => ?_
        refine .ite (frugal_pure _) (((ih item).times ?_ _).map Json.array)
        rw [erase_payload]
        exact costs_payload levels item
      | compound =>
        exact frugal_remaining.bind fun left => (frugal_members ih (left + 1)).map Json.ofMembers
      | intArray => exact frugal_count.bind fun n => ((frugal_plain takes_i32).times costs_i32 n).map _
      | longArray => exact frugal_count.bind fun n => ((frugal_plain takes_i64).times costs_i64 n).map _

theorem frugal_read : read.Frugal :=
  (frugal_plain takes_u8).bind fun kind => .ite (frugal_pure Json.null) (frugal_payload maxLevels kind)

end Watched

/-! ### Bounds -/

/-- **Work is bounded by what was sent.** A value that is read has no more nodes than it took bytes, and 66 levels at
most. A read that takes account of its loops comes to the same, and whatever it comes to, every round of a loop over a
list or an array that went to its end took a byte at least. So there were no more of these rounds than bytes left when
the loop began, whatever number of items it was told. -/
theorem read_bounded (bytes : List UInt8) :
    (∀ v rest, read bytes = (.ok v, rest) →
      rest <:+ bytes ∧ v.nodes ≤ bytes.length - rest.length ∧ v.levels ≤ 66) ∧
    (Watched.read bytes).1 = read bytes ∧
    ∀ l ∈ (Watched.read bytes).2, l.start <:+ bytes ∧ (l.start :: l.behind).IsChain Spends ∧
      l.behind.length ≤ l.start.length ∧ l.behind.length ≤ l.count := by
  refine ⟨fun v rest hread => ?_, congrFun Watched.erase_read bytes, fun l hl => ?_⟩
  · obtain ⟨form, hform, rfl⟩ := (takes_read _ _ _).mp hread
    rw [List.length_append, Nat.add_sub_cancel]
    refine ⟨List.suffix_append form rest, ?_⟩
    obtain ⟨rfl, rfl⟩ | ⟨t, -, hheight, rfl, rfl⟩ := hform
    · decide
    · exact ⟨Nat.le_succ_of_le t.nodes_json_le, t.levels_json_le (Nat.lt_succ_of_le hheight)⟩
  · obtain ⟨hstart, hspends, htold⟩ := Watched.frugal_read.loops hl
    exact ⟨hstart, hspends, length_le_of_isChain hspends, htold⟩

/-- A list that is told to have 2³¹ - 1 bytes, of which two are sent. -/
example : Watched.read [9, 1, 0x7f, 0xff, 0xff, 0xff, 7, 8] =
    ((.error (.truncated 1 0), []), [⟨[7, 8], 2 ^ 31 - 1, [[8], []]⟩]) := by rfl

end Pickaxe.Nbt
