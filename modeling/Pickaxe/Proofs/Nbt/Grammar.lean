import Pickaxe.Nbt
import Mathlib.Data.List.Forall2
import Pickaxe.Proofs.Json.Object
import Pickaxe.Proofs.Text.Lossy
import Pickaxe.Proofs.Wire.Reader

/-! The grammar of network NBT.

A tree has a kind, a payload and an image in JSON, and reading takes the payloads of lawful trees that are
not too high, for their images (`takes_payload`). `read_eq_ok_iff` says the same of the whole value, and
that reading takes nothing else. -/
namespace Pickaxe.Nbt

open Wire Reader

/-! ### Trees -/

/-- A value with all that is written of it. Names and texts are bytes, whether they are UTF-8 or not, and
floating-point numbers are bits. A list names the kind and the number of its items. -/
inductive Tree where
  | byte (v : Int8)
  | short (v : Int16)
  | int (v : Int32)
  | long (v : Int64)
  | float (bits : UInt32)
  | double (bits : UInt64)
  | byteArray (items : List Int8)
  | text (spelling : List UInt8)
  | list (item : UInt8) (count : Int32) (items : List Tree)
  | compound (members : List (List UInt8 × Tree))
  | intArray (items : List Int32)
  | longArray (items : List Int64)

/-- The bytes of a text behind their number. -/
def spelled (spelling : List UInt8) : List UInt8 := bigEndianBytes 2 spelling.length ++ spelling

namespace Tree

def kind : Tree → UInt8
  | .byte _ => 1
  | .short _ => 2
  | .int _ => 3
  | .long _ => 4
  | .float _ => 5
  | .double _ => 6
  | .byteArray _ => 7
  | .text _ => 8
  | .list .. => 9
  | .compound _ => 10
  | .intArray _ => 11
  | .longArray _ => 12

theorem sizeOf_lt_of_mem {members : List (List UInt8 × Tree)} {m : List UInt8 × Tree}
    (h : m ∈ members) : sizeOf m.2 < sizeOf (compound members) := by
  have hmember : sizeOf m < sizeOf members := List.sizeOf_lt_of_mem h
  have hvalue : sizeOf m.2 < sizeOf m := by
    obtain ⟨name, value⟩ := m
    rw [Prod.mk.sizeOf_spec]
    exact Nat.lt_add_of_pos_left (by omega)
  rw [compound.sizeOf_spec]
  omega

def payload : Tree → List UInt8
  | .byte v => [v.toUInt8]
  | .short v => bigEndianBytes 2 v.toUInt16.toNat
  | .int v => bigEndianBytes 4 v.toUInt32.toNat
  | .long v => bigEndianBytes 8 v.toUInt64.toNat
  | .float bits => bigEndianBytes 4 bits.toNat
  | .double bits => bigEndianBytes 8 bits.toNat
  | .byteArray items => bigEndianBytes 4 items.length ++ items.map (·.toUInt8)
  | .text spelling => spelled spelling
  | .list item count items => item :: bigEndianBytes 4 count.toUInt32.toNat ++ items.flatMap payload
  | .compound members => members.flatMap (fun m => m.2.kind :: spelled m.1 ++ m.2.payload) ++ [0]
  | .intArray items =>
    bigEndianBytes 4 items.length ++ items.flatMap (bigEndianBytes 4 ·.toUInt32.toNat)
  | .longArray items =>
    bigEndianBytes 4 items.length ++ items.flatMap (bigEndianBytes 8 ·.toUInt64.toNat)
decreasing_by
  · decreasing_tactic
  · exact sizeOf_lt_of_mem ‹_›

/-- The image of a tree. Numbers are exact or null, and texts are read lossily. -/
def json : Tree → Json
  | .byte v => .int v.toInt
  | .short v => .int v.toInt
  | .int v => .int v.toInt
  | .long v => .int v.toInt
  | .float bits => .ofFloat (Float32.ofBits bits).toFloat
  | .double bits => .ofFloat (Float.ofBits bits)
  | .byteArray items => .array (items.map fun v => .int v.toInt)
  | .text spelling => .text (Text.Utf8.decodeLossy spelling)
  | .list _ _ items => .array (items.map json)
  | .compound members => .ofMembers (members.map fun m => (Text.Utf8.decodeLossy m.1, m.2.json))
  | .intArray items => .array (items.map fun v => .int v.toInt)
  | .longArray items => .array (items.map fun v => .int v.toInt)
decreasing_by
  · decreasing_tactic
  · exact sizeOf_lt_of_mem ‹_›

/-- How deep the deepest node lies. The root is at depth 0. -/
def height : Tree → Nat
  | .list _ _ items => (items.map (·.height + 1)).foldr max 0
  | .compound members => (members.map (·.2.height + 1)).foldr max 0
  | .byte _ | .short _ | .int _ | .long _ | .float _ | .double _ | .byteArray _ | .text _ | .intArray _
  | .longArray _ => 0
decreasing_by
  · decreasing_tactic
  · exact sizeOf_lt_of_mem ‹_›

/-- Lengths fit in their fields, and the items of a list are of the kind and the number that it names. A
list of no items may name any kind where its number is not positive, and any number where its kind is 0. -/
inductive Lawful : Tree → Prop where
  | byte (v : Int8) : Lawful (.byte v)
  | short (v : Int16) : Lawful (.short v)
  | int (v : Int32) : Lawful (.int v)
  | long (v : Int64) : Lawful (.long v)
  | float (bits : UInt32) : Lawful (.float bits)
  | double (bits : UInt64) : Lawful (.double bits)
  | byteArray {items : List Int8} (h : items.length < 2 ^ 31) : Lawful (.byteArray items)
  | text {spelling : List UInt8} (h : spelling.length < 2 ^ 16) : Lawful (.text spelling)
  | hollow {item : UInt8} {count : Int32} (h : count.toInt ≤ 0 ∨ item = 0) :
    Lawful (.list item count [])
  | list {item : UInt8} {count : Int32} {items : List Tree} (hpos : 0 < count.toInt) (hitem : item ≠ 0)
      (hcount : count.toInt = items.length) (hkinds : ∀ t ∈ items, t.kind = item)
      (hitems : ∀ t ∈ items, Lawful t) : Lawful (.list item count items)
  | compound {members : List (List UInt8 × Tree)} (hnames : ∀ m ∈ members, m.1.length < 2 ^ 16)
      (hvalues : ∀ m ∈ members, Lawful m.2) : Lawful (.compound members)
  | intArray {items : List Int32} (h : items.length < 2 ^ 31) : Lawful (.intArray items)
  | longArray {items : List Int64} (h : items.length < 2 ^ 31) : Lawful (.longArray items)

theorem foldr_max_lt {ns : List Nat} {n : Nat} : ns.foldr max 0 < n + 1 ↔ ∀ m ∈ ns, m < n + 1 := by
  induction ns with
  | nil => simp
  | cons m ns ih => rw [List.foldr_cons, Nat.max_lt, ih, List.forall_mem_cons]

theorem height_list_lt {item : UInt8} {count : Int32} {items : List Tree} {n : Nat} :
    (list item count items).height < n + 1 ↔ ∀ t ∈ items, t.height < n := by
  rw [height, foldr_max_lt, List.forall_mem_map]
  exact forall₂_congr fun t _ => Nat.succ_lt_succ_iff

theorem height_compound_lt {members : List (List UInt8 × Tree)} {n : Nat} :
    (compound members).height < n + 1 ↔ ∀ m ∈ members, m.2.height < n := by
  rw [height, foldr_max_lt, List.forall_mem_map]
  exact forall₂_congr fun m _ => Nat.succ_lt_succ_iff

theorem kind_ne_zero (t : Tree) : t.kind ≠ 0 := by
  cases t <;> simp [kind]

end Tree

/-- The bytes are the payload of such a tree, and the value is its image. -/
def Spells (P : Tree → Prop) (v : Json) (form : List UInt8) : Prop :=
  ∃ t, P t ∧ form = t.payload ∧ v = t.json

/-! ### Numbers and texts -/

theorem takes_text : text.Takes fun s form => ∃ spelling : List UInt8, spelling.length < 2 ^ 16 ∧
    form = spelled spelling ∧ s = Text.Utf8.decodeLossy spelling := by
  refine (takes_u16.bind fun n => (takes_bytes n.toNat).map Text.Utf8.decodeLossy).congr
    fun s form => ⟨?_, ?_⟩
  · rintro ⟨n, _, spelling, rfl, ⟨_, ⟨rfl, hlength⟩, rfl⟩, rfl⟩
    exact ⟨_, hlength ▸ n.toNat_lt, by rw [spelled, hlength], rfl⟩
  · rintro ⟨spelling, hlength, rfl, rfl⟩
    have hn : (UInt16.ofNat spelling.length).toNat = spelling.length := UInt16.toNat_ofNat_of_lt hlength
    exact ⟨UInt16.ofNat spelling.length, _, spelling, rfl, ⟨_, ⟨rfl, hn.symm⟩, rfl⟩, by rw [hn, spelled]⟩

/-! ### Items, counted -/

theorem toNat_toUInt32 {i : Int32} (h : 0 ≤ i.toInt) : i.toUInt32.toNat = i.toInt.toNat := by
  have hbits : i.toInt = (i.toUInt32.toNat : Int).bmod (2 ^ 32) := BitVec.toInt_eq_toNat_bmod i.toBitVec
  have hlt : i.toUInt32.toNat < 2 ^ 32 := i.toUInt32.toNat_lt
  rw [Int.bmod] at hbits
  split at hbits <;> omega

/-- The number of items is positive, and there is a byte for each of them at least. -/
theorem count_eq_ok {bytes rest : List UInt8} {n : Nat} : count bytes = (.ok n, rest) ↔
    n < 2 ^ 31 ∧ n ≤ rest.length ∧ bytes = bigEndianBytes 4 n ++ rest := by
  refine ⟨fun h => ?_, ?_⟩
  · obtain ⟨i, left, hi, h⟩ := bind_eq_ok.mp h
    obtain ⟨_, _, hleft, h⟩ := bind_eq_ok.mp h
    cases hleft
    obtain ⟨_, ⟨⟨hpos, hle⟩, rfl, rfl⟩, rfl⟩ := (takes_guard _ _ _ _ _ _).mp h
    obtain ⟨_, rfl, rfl⟩ := (takes_i32 _ _ _).mp hi
    refine ⟨?_, ?_, by rw [toNat_toUInt32 hpos]⟩
    · have := i.toInt_lt
      omega
    · exact Int.toNat_le.mpr hle
  · rintro ⟨hlt, hle, rfl⟩
    have hint : (Int32.ofNat n).toInt = n := Int32.toInt_ofNat_of_lt hlt
    have hnat : n = (Int32.ofNat n).toInt.toNat := by rw [hint, Int.toNat_natCast]
    have hbytes : bigEndianBytes 4 n = bigEndianBytes 4 (Int32.ofNat n).toUInt32.toNat := by
      rw [toNat_toUInt32 (hint ▸ Int.natCast_nonneg n), ← hnat]
    refine bind_eq_ok.mpr ⟨Int32.ofNat n, rest, takes_i32.read hbytes rest, ?_⟩
    refine bind_eq_ok.mpr ⟨rest.length, rest, rfl, (takes_guard _ _ _).read ⟨?_, hnat, rfl⟩ rest⟩
    rw [hint]
    exact ⟨Int.natCast_nonneg n, Int.ofNat_le.mpr hle⟩

theorem takes_counted {α : Type} {f : Nat → Reader α} {F : Nat → α → List UInt8 → Prop}
    (hf : ∀ n, (f n).Takes (F n)) (hroom : ∀ n a form, F n a form → n ≤ form.length) :
    (count >>= f).Takes fun a form => ∃ n body, n < 2 ^ 31 ∧ F n a body ∧
      form = bigEndianBytes 4 n ++ body := by
  intro bytes a rest
  rw [bind_eq_ok]
  refine ⟨?_, ?_⟩
  · rintro ⟨n, left, hcount, h⟩
    obtain ⟨hlt, -, rfl⟩ := count_eq_ok.mp hcount
    obtain ⟨body, hbody, rfl⟩ := (hf n _ _ _).mp h
    exact ⟨_, ⟨n, body, hlt, hbody, rfl⟩, (List.append_assoc ..).symm⟩
  · rintro ⟨_, ⟨n, body, hlt, hbody, rfl⟩, rfl⟩
    have hleft : n ≤ (body ++ rest).length :=
      Nat.le_trans (hroom n a body hbody) (List.length_append ▸ Nat.le_add_right _ _)
    exact ⟨n, body ++ rest, count_eq_ok.mpr ⟨hlt, hleft, List.append_assoc ..⟩, (hf n).read hbody rest⟩

/-- The same read again and again takes the forms of as many things. -/
theorem takes_times {α τ : Type} {P : τ → Prop} {value : τ → α} {spell : τ → List UInt8} {r : Reader α}
    (hr : r.Takes fun a form => ∃ t, P t ∧ form = spell t ∧ a = value t) (n : Nat) :
    (times r n).Takes fun as form => ∃ ts : List τ, ts.length = n ∧ (∀ t ∈ ts, P t) ∧
      form = ts.flatMap spell ∧ as = ts.map value := by
  induction n with
  | zero =>
    refine (takes_pure []).congr fun as form => ⟨?_, ?_⟩
    · rintro ⟨rfl, rfl⟩
      exact ⟨[], rfl, List.forall_mem_nil _, rfl, rfl⟩
    · rintro ⟨ts, hlength, -, rfl, rfl⟩
      rw [List.eq_nil_of_length_eq_zero hlength]
      exact ⟨rfl, rfl⟩
  | succ n ih =>
    refine (hr.bind fun a => ih.map (a :: ·)).congr fun as form => ⟨?_, ?_⟩
    · rintro ⟨_, _, _, ⟨t, ht, rfl, rfl⟩, ⟨_, ⟨ts, hlength, hts, rfl, rfl⟩, rfl⟩, rfl⟩
      exact ⟨t :: ts, congrArg (· + 1) hlength, List.forall_mem_cons.mpr ⟨ht, hts⟩, rfl, rfl⟩
    · rintro ⟨_ | ⟨t, ts⟩, hlength, hall, rfl, rfl⟩
      · cases hlength
      · obtain ⟨ht, hts⟩ := List.forall_mem_cons.mp hall
        exact ⟨_, _, _, ⟨t, ht, rfl, rfl⟩, ⟨_, ⟨ts, Nat.succ.inj hlength, hts, rfl, rfl⟩, rfl⟩, rfl⟩

theorem length_le_flatMap {α β : Type} {f : α → List β} (h : ∀ x, 0 < (f x).length) (xs : List α) :
    xs.length ≤ (xs.flatMap f).length := by
  induction xs with
  | nil => exact Nat.le_refl _
  | cons x xs ih =>
    have hhead := h x
    rw [List.flatMap_cons, List.length_append, List.length_cons]
    omega

/-- An array of numbers, each of which takes a byte at least. -/
theorem takes_array {τ : Type} {r : Reader τ} {spell : τ → List UInt8}
    (hr : r.Takes fun x form => form = spell x) (hspell : ∀ x, 0 < (spell x).length) (value : τ → Json) :
    (do return .array ((← times r (← count)).map value) : Reader Json).Takes fun v form =>
      ∃ items : List τ, items.length < 2 ^ 31 ∧
        form = bigEndianBytes 4 items.length ++ items.flatMap spell ∧ v = .array (items.map value) := by
  have hself : r.Takes fun x form => ∃ y, True ∧ form = spell y ∧ x = id y :=
    hr.congr fun x form => ⟨fun h => ⟨x, trivial, h, rfl⟩, fun ⟨_, _, h, hx⟩ => hx ▸ h⟩
  have hitems (n : Nat) := (takes_times hself n).map fun items => Json.array (items.map value)
  refine (takes_counted hitems ?_).congr fun v form => ⟨?_, ?_⟩
  · rintro _ _ _ ⟨_, ⟨items, rfl, -, rfl, rfl⟩, rfl⟩
    exact length_le_flatMap hspell items
  · rintro ⟨_, _, hlt, ⟨_, ⟨items, rfl, -, rfl, rfl⟩, rfl⟩, rfl⟩
    exact ⟨items, hlt, rfl, by rw [List.map_id]⟩
  · rintro ⟨items, hlt, rfl, rfl⟩
    exact ⟨_, _, hlt, ⟨_, ⟨items, rfl, fun _ _ => trivial, rfl, rfl⟩, by rw [List.map_id]⟩, rfl⟩

theorem bigEndianBytes_pos (width n : Nat) : 0 < (bigEndianBytes (width + 1) n).length := by
  rw [length_bigEndianBytes]
  exact Nat.succ_pos width

/-- An array of bytes is read at once. -/
theorem takes_byteArray :
    (do return .array ((← bytes (← count)).map fun b => .int (Int8.ofNat b.toNat).toInt) :
      Reader Json).Takes fun v form => ∃ items : List Int8, items.length < 2 ^ 31 ∧
        form = bigEndianBytes 4 items.length ++ items.map (·.toUInt8) ∧
        v = .array (items.map fun x => .int x.toInt) := by
  have hof (x : Int8) : Int8.ofNat x.toUInt8.toNat = x := Int8.toBitVec_inj.mp (by simp)
  have hitems (n : Nat) := (takes_bytes n).map fun found =>
    Json.array (found.map fun b => .int (Int8.ofNat b.toNat).toInt)
  refine (takes_counted hitems ?_).congr fun v form => ⟨?_, ?_⟩
  · rintro _ _ _ ⟨_, ⟨rfl, rfl⟩, rfl⟩
    exact Nat.le_refl _
  · rintro ⟨_, _, hlt, ⟨found, ⟨rfl, rfl⟩, rfl⟩, rfl⟩
    refine ⟨found.map fun b => Int8.ofNat b.toNat, by rwa [List.length_map], ?_, ?_⟩
    · simp [Function.comp_def]
    · simp [Function.comp_def]
  · rintro ⟨items, hlt, rfl, rfl⟩
    refine ⟨_, _, hlt, ⟨_, ⟨rfl, List.length_map ..⟩, ?_⟩, rfl⟩
    simp [Function.comp_def, hof]

/-! ### Lists and compounds -/

/-- The bytes of a member. -/
def entry (m : List UInt8 × Tree) : List UInt8 := m.2.kind :: spelled m.1 ++ m.2.payload

/-- The image of a member. -/
def image (m : List UInt8 × Tree) : String × Json := (Text.Utf8.decodeLossy m.1, m.2.json)

section Nodes

variable {levels : Nat} {node : UInt8 → Reader Json}
  (hnode : ∀ kind, (node kind).Takes (Spells fun t => t.kind = kind ∧ t.Lawful ∧ t.height < levels))

include hnode

/-- What comes behind the head of a list. -/
theorem takes_items (item : UInt8) (count : Int32) :
    (if count.toInt ≤ 0 ∨ item = 0 then Pure.pure (.array [])
      else do return .array (← times (node item) count.toInt.toNat) : Reader Json).Takes fun v form =>
    ∃ items, (Tree.list item count items).Lawful ∧ (∀ t ∈ items, t.height < levels) ∧
      form = items.flatMap Tree.payload ∧ v = .array (items.map Tree.json) := by
  by_cases hhollow : count.toInt ≤ 0 ∨ item = 0
  · rw [if_pos hhollow]
    refine (takes_pure _).congr fun v form => ⟨?_, ?_⟩
    · rintro ⟨rfl, rfl⟩
      exact ⟨[], .hollow hhollow, List.forall_mem_nil _, rfl, rfl⟩
    · rintro ⟨items, hlawful, -, rfl, rfl⟩
      cases hlawful with
      | hollow => exact ⟨rfl, rfl⟩
      | list hpos hitem => exact absurd hhollow (not_or.mpr ⟨Int.not_le.mpr hpos, hitem⟩)
  · rw [if_neg hhollow]
    obtain ⟨hpos, hitem⟩ := not_or.mp hhollow
    refine ((takes_times (hnode item) _).map Json.array).congr fun v form => ⟨?_, ?_⟩
    · rintro ⟨_, ⟨items, hlength, hitems, rfl, rfl⟩, rfl⟩
      have hcount : count.toInt = items.length := by omega
      exact ⟨items, .list (Int.not_le.mp hpos) hitem hcount (fun t ht => (hitems t ht).1)
        fun t ht => (hitems t ht).2.1, fun t ht => (hitems t ht).2.2, rfl, rfl⟩
    · rintro ⟨items, hlawful, hheight, rfl, rfl⟩
      cases hlawful with
      | hollow h => exact absurd h hhollow
      | list _ _ hcount hkinds hitems =>
        exact ⟨_, ⟨items, by omega, fun t ht => ⟨hkinds t ht, hitems t ht, hheight t ht⟩, rfl, rfl⟩, rfl⟩

theorem takes_list : (do
      let item ← u8
      let n ← i32
      if n.toInt ≤ 0 ∨ item = 0 then return .array []
      else return .array (← times (node item) n.toInt.toNat) : Reader Json).Takes fun v form =>
    ∃ item count items, (Tree.list item count items).Lawful ∧ (∀ t ∈ items, t.height < levels) ∧
      form = (Tree.list item count items).payload ∧ v = (Tree.list item count items).json := by
  refine (takes_u8.bind fun item => takes_i32.bind fun n => takes_items hnode item n).congr
    fun v form => ⟨?_, ?_⟩
  · rintro ⟨item, _, _, rfl, ⟨count, _, _, rfl, ⟨items, hlawful, hheight, rfl, rfl⟩, rfl⟩, rfl⟩
    exact ⟨item, count, items, hlawful, hheight, by rw [Tree.payload]; rfl, by rw [Tree.json]⟩
  · rintro ⟨item, count, items, hlawful, hheight, rfl, rfl⟩
    refine ⟨item, _, _, rfl, ⟨count, _, _, rfl, ⟨items, hlawful, hheight, rfl, by rw [Tree.json]⟩, rfl⟩, ?_⟩
    rw [Tree.payload]
    rfl

/-- What comes behind the kind of a member, or of the end. -/
theorem takes_member {more : Reader (List (String × Json))} {n : Nat}
    (hmore : more.Takes fun ms form => ∃ entries : List (List UInt8 × Tree), entries.length < n ∧
      (∀ e ∈ entries, e.1.length < 2 ^ 16 ∧ e.2.Lawful ∧ e.2.height < levels) ∧
      form = entries.flatMap entry ++ [0] ∧ ms = entries.map image) (kind : UInt8) :
    (if kind = 0 then Pure.pure [] else do
      let name ← text
      let v ← node kind
      return (name, v) :: (← more) : Reader (List (String × Json))).Takes fun ms form =>
    (kind = 0 ∧ form = [] ∧ ms = []) ∨ ∃ m entries, m.2.kind = kind ∧ entries.length < n ∧
      (∀ e ∈ m :: entries, e.1.length < 2 ^ 16 ∧ e.2.Lawful ∧ e.2.height < levels) ∧
      form = spelled m.1 ++ (m.2.payload ++ (entries.flatMap entry ++ [0])) ∧
      ms = image m :: entries.map image := by
  by_cases hkind : kind = 0
  · rw [if_pos hkind]
    refine (takes_pure _).congr fun ms form => ⟨fun ⟨hms, hform⟩ => .inl ⟨hkind, hform, hms⟩, ?_⟩
    rintro (⟨-, rfl, rfl⟩ | ⟨m, _, rfl, -⟩)
    · exact ⟨rfl, rfl⟩
    · exact absurd hkind m.2.kind_ne_zero
  · rw [if_neg hkind]
    refine (takes_text.bind fun name => (hnode kind).bind fun v => hmore.map ((name, v) :: ·)).congr
      fun ms form => ⟨?_, ?_⟩
    · rintro ⟨_, _, _, ⟨name, hname, rfl, rfl⟩, ⟨_, _, _, ⟨t, ⟨rfl, hlawful, hheight⟩, rfl, rfl⟩,
        ⟨_, ⟨entries, hlength, hall, rfl, rfl⟩, rfl⟩, rfl⟩, rfl⟩
      exact .inr ⟨(name, t), entries, rfl, hlength,
        List.forall_mem_cons.mpr ⟨⟨hname, hlawful, hheight⟩, hall⟩, rfl, rfl⟩
    · rintro (⟨hzero, -⟩ | ⟨⟨name, t⟩, entries, rfl, hlength, hall, rfl, rfl⟩)
      · exact absurd hzero hkind
      · obtain ⟨⟨hname, hlawful, hheight⟩, hentries⟩ := List.forall_mem_cons.mp hall
        exact ⟨_, _, _, ⟨name, hname, rfl, rfl⟩, ⟨_, _, _, ⟨t, ⟨rfl, hlawful, hheight⟩, rfl, rfl⟩,
          ⟨_, ⟨entries, hlength, hentries, rfl, rfl⟩, rfl⟩, rfl⟩, rfl⟩

/-- Members, read in so many rounds: one for each of them and one for the end. -/
theorem takes_members (rounds : Nat) : (members node rounds).Takes fun ms form =>
    ∃ entries : List (List UInt8 × Tree), entries.length < rounds ∧
      (∀ e ∈ entries, e.1.length < 2 ^ 16 ∧ e.2.Lawful ∧ e.2.height < levels) ∧
      form = entries.flatMap entry ++ [0] ∧ ms = entries.map image := by
  induction rounds with
  | zero => exact (takes_fail _).congr fun ms form => ⟨False.elim, fun ⟨_, hlt, _⟩ => by cases hlt⟩
  | succ rounds ih =>
    refine (takes_u8.bind (takes_member hnode ih)).congr fun ms form => ⟨?_, ?_⟩
    · rintro ⟨kind, _, _, rfl, ⟨rfl, rfl, rfl⟩ | ⟨m, entries, rfl, hlength, hall, rfl, rfl⟩, rfl⟩
      · exact ⟨[], Nat.succ_pos _, List.forall_mem_nil _, rfl, rfl⟩
      · exact ⟨m :: entries, Nat.succ_lt_succ hlength, hall, by simp [entry], rfl⟩
    · rintro ⟨_ | ⟨m, entries⟩, hlength, hall, rfl, rfl⟩
      · exact ⟨0, _, _, rfl, .inl ⟨rfl, rfl, rfl⟩, rfl⟩
      · exact ⟨_, _, _, rfl, .inr ⟨m, entries, rfl, Nat.lt_of_succ_lt_succ hlength, hall, rfl, rfl⟩,
          by simp [entry]⟩

/-- There are never more members than bytes. -/
theorem takes_compound : (do
      let left ← remaining
      return .ofMembers (← members node (left + 1)) : Reader Json).Takes fun v form =>
    ∃ entries : List (List UInt8 × Tree), (Tree.compound entries).Lawful ∧
      (∀ e ∈ entries, e.2.height < levels) ∧
      form = (Tree.compound entries).payload ∧ v = (Tree.compound entries).json := by
  have hpayload (entries : List (List UInt8 × Tree)) :
      (Tree.compound entries).payload = entries.flatMap entry ++ [0] := by rw [Tree.payload]; rfl
  have hjson (entries : List (List UInt8 × Tree)) :
      (Tree.compound entries).json = .ofMembers (entries.map image) := by rw [Tree.json]; rfl
  have htakes (rounds : Nat) := (takes_members hnode rounds).map Json.ofMembers
  intro bytes v rest
  rw [bind_eq_ok]
  refine ⟨?_, ?_⟩
  · rintro ⟨_, _, hleft, h⟩
    cases hleft
    obtain ⟨_, ⟨_, ⟨entries, -, hall, rfl, rfl⟩, rfl⟩, rfl⟩ := (htakes _ _ _ _).mp h
    exact ⟨_, ⟨entries, .compound (fun e he => (hall e he).1) fun e he => (hall e he).2.1,
      fun e he => (hall e he).2.2, (hpayload entries).symm, (hjson entries).symm⟩, rfl⟩
  · rintro ⟨_, ⟨entries, hlawful, hheight, rfl, rfl⟩, rfl⟩
    cases hlawful with
    | compound hnames hvalues =>
      rw [hpayload, hjson]
      -- As each member takes a byte and the end takes one more, the rounds do not run out.
      refine ⟨_, _, rfl, (htakes _).read ⟨_, ⟨entries, ?_, fun e he =>
        ⟨hnames e he, hvalues e he, hheight e he⟩, rfl, rfl⟩, rfl⟩ rest⟩
      have hlength : entries.length ≤ (entries.flatMap entry).length :=
        length_le_flatMap (f := entry) (fun _ => Nat.succ_pos _) entries
      rw [List.length_append, List.length_append]
      omega

end Nodes

/-! ### Trees of any kind -/

def Kind.number : Kind → UInt8
  | .byte => 1
  | .short => 2
  | .int => 3
  | .long => 4
  | .float => 5
  | .double => 6
  | .byteArray => 7
  | .text => 8
  | .list => 9
  | .compound => 10
  | .intArray => 11
  | .longArray => 12

theorem Kind.eq_of_ofByte? {b : UInt8} {k : Kind} (h : ofByte? b = some k) : b = k.number := by
  unfold ofByte? at h
  split at h <;> cases h <;> exact UInt8.toNat_inj.mp ‹_›

section Payload

variable {levels : Nat} {kind : UInt8} (hnode : ∀ kind,
  (payload levels kind).Takes (Spells fun t => t.kind = kind ∧ t.Lawful ∧ t.height < levels))

include hnode

/-- What is read is the payload of a tree. -/
theorem payload_sound {bytes rest : List UInt8} {v : Json}
    (h : payload (levels + 1) kind bytes = (.ok v, rest)) : ∃ form,
      Spells (fun t => t.kind = kind ∧ t.Lawful ∧ t.height < levels + 1) v form ∧
        bytes = form ++ rest := by
  -- The numbers, texts and arrays have no nodes below them.
  have hleaf {t : Tree} {form : List UInt8} {image : Json} (hlawful : t.Lawful) (hzero : t.height = 0)
      (hform : form = t.payload) (himage : image = t.json) : ∃ taken,
        Spells (fun u => u.kind = t.kind ∧ u.Lawful ∧ u.height < levels + 1) image taken ∧
          form ++ rest = taken ++ rest :=
    ⟨form, ⟨t, ⟨rfl, hlawful, hzero ▸ Nat.succ_pos levels⟩, hform, himage⟩, rfl⟩
  rw [payload] at h
  cases hkind : Kind.ofByte? kind with
  | none =>
    rw [hkind] at h
    cases h
  | some k =>
    rw [hkind] at h
    obtain rfl := Kind.eq_of_ofByte? hkind
    cases k with
    | byte =>
      obtain ⟨_, ⟨x, rfl, rfl⟩, rfl⟩ := (takes_i8.map _ _ _ _).mp h
      exact hleaf (t := .byte x) (.byte x)
        (by rw [Tree.height]) (by rw [Tree.payload]) (by rw [Tree.json])
    | short =>
      obtain ⟨_, ⟨x, rfl, rfl⟩, rfl⟩ := (takes_i16.map _ _ _ _).mp h
      exact hleaf (t := .short x) (.short x)
        (by rw [Tree.height]) (by rw [Tree.payload]) (by rw [Tree.json])
    | int =>
      obtain ⟨_, ⟨x, rfl, rfl⟩, rfl⟩ := (takes_i32.map _ _ _ _).mp h
      exact hleaf (t := .int x) (.int x)
        (by rw [Tree.height]) (by rw [Tree.payload]) (by rw [Tree.json])
    | long =>
      obtain ⟨_, ⟨x, rfl, rfl⟩, rfl⟩ := (takes_i64.map _ _ _ _).mp h
      exact hleaf (t := .long x) (.long x)
        (by rw [Tree.height]) (by rw [Tree.payload]) (by rw [Tree.json])
    | float =>
      obtain ⟨_, ⟨_, ⟨bits, rfl, rfl⟩, rfl⟩, rfl⟩ := (takes_f32.map _ _ _ _).mp h
      exact hleaf (t := .float bits) (.float bits)
        (by rw [Tree.height]) (by rw [Tree.payload]) (by rw [Tree.json])
    | double =>
      obtain ⟨_, ⟨_, ⟨bits, rfl, rfl⟩, rfl⟩, rfl⟩ := (takes_f64.map _ _ _ _).mp h
      exact hleaf (t := .double bits) (.double bits)
        (by rw [Tree.height]) (by rw [Tree.payload]) (by rw [Tree.json])
    | byteArray =>
      obtain ⟨_, ⟨items, hlength, rfl, rfl⟩, rfl⟩ := (takes_byteArray _ _ _).mp h
      exact hleaf (t := .byteArray items) (.byteArray hlength)
        (by rw [Tree.height]) (by rw [Tree.payload]) (by rw [Tree.json])
    | text =>
      obtain ⟨_, ⟨_, ⟨spelling, hlength, rfl, rfl⟩, rfl⟩, rfl⟩ := (takes_text.map _ _ _ _).mp h
      exact hleaf (t := .text spelling) (.text hlength)
        (by rw [Tree.height]) (by rw [Tree.payload]) (by rw [Tree.json])
    | list =>
      obtain ⟨form, ⟨item, count, items, hlawful, hheight, hform, hv⟩, rfl⟩ :=
        (takes_list hnode _ _ _).mp h
      exact ⟨form, ⟨_, ⟨rfl, hlawful, Tree.height_list_lt.mpr hheight⟩, hform, hv⟩, rfl⟩
    | compound =>
      obtain ⟨form, ⟨entries, hlawful, hheight, hform, hv⟩, rfl⟩ := (takes_compound hnode _ _ _).mp h
      exact ⟨form, ⟨_, ⟨rfl, hlawful, Tree.height_compound_lt.mpr hheight⟩, hform, hv⟩, rfl⟩
    | intArray =>
      obtain ⟨_, ⟨items, hlength, rfl, rfl⟩, rfl⟩ :=
        (takes_array takes_i32 (fun _ => bigEndianBytes_pos _ _) _ _ _ _).mp h
      exact hleaf (t := .intArray items) (.intArray hlength)
        (by rw [Tree.height]) (by rw [Tree.payload]) (by rw [Tree.json])
    | longArray =>
      obtain ⟨_, ⟨items, hlength, rfl, rfl⟩, rfl⟩ :=
        (takes_array takes_i64 (fun _ => bigEndianBytes_pos _ _) _ _ _ _).mp h
      exact hleaf (t := .longArray items) (.longArray hlength)
        (by rw [Tree.height]) (by rw [Tree.payload]) (by rw [Tree.json])

/-- The payload of a tree is read. -/
theorem payload_complete {t : Tree} (hlawful : t.Lawful) (hheight : t.height < levels + 1)
    (rest : List UInt8) : payload (levels + 1) t.kind (t.payload ++ rest) = (.ok t.json, rest) := by
  cases hlawful with
  | byte v =>
    rw [Tree.payload, Tree.json]
    exact (takes_i8.map fun x => Json.int x.toInt).read ⟨v, rfl, rfl⟩ rest
  | short v =>
    rw [Tree.payload, Tree.json]
    exact (takes_i16.map fun x => Json.int x.toInt).read ⟨v, rfl, rfl⟩ rest
  | int v =>
    rw [Tree.payload, Tree.json]
    exact (takes_i32.map fun x => Json.int x.toInt).read ⟨v, rfl, rfl⟩ rest
  | long v =>
    rw [Tree.payload, Tree.json]
    exact (takes_i64.map fun x => Json.int x.toInt).read ⟨v, rfl, rfl⟩ rest
  | float bits =>
    rw [Tree.payload, Tree.json]
    exact (takes_f32.map fun x => Json.ofFloat x.toFloat).read ⟨_, ⟨bits, rfl, rfl⟩, rfl⟩ rest
  | double bits =>
    rw [Tree.payload, Tree.json]
    exact (takes_f64.map Json.ofFloat).read ⟨_, ⟨bits, rfl, rfl⟩, rfl⟩ rest
  | byteArray hlength =>
    rw [Tree.payload, Tree.json]
    exact takes_byteArray.read ⟨_, hlength, rfl, rfl⟩ rest
  | text hlength =>
    rw [Tree.payload, Tree.json]
    exact (takes_text.map Json.text).read ⟨_, ⟨_, hlength, rfl, rfl⟩, rfl⟩ rest
  | intArray hlength =>
    rw [Tree.payload, Tree.json]
    exact (takes_array takes_i32 (fun _ => bigEndianBytes_pos _ _) _).read ⟨_, hlength, rfl, rfl⟩ rest
  | longArray hlength =>
    rw [Tree.payload, Tree.json]
    exact (takes_array takes_i64 (fun _ => bigEndianBytes_pos _ _) _).read ⟨_, hlength, rfl, rfl⟩ rest
  | hollow h =>
    exact (takes_list hnode).read ⟨_, _, _, .hollow h, List.forall_mem_nil _, rfl, rfl⟩ rest
  | list hpos hitem hcount hkinds hitems =>
    exact (takes_list hnode).read ⟨_, _, _, .list hpos hitem hcount hkinds hitems,
      Tree.height_list_lt.mp hheight, rfl, rfl⟩ rest
  | compound hnames hvalues =>
    exact (takes_compound hnode).read ⟨_, .compound hnames hvalues, Tree.height_compound_lt.mp hheight,
      rfl, rfl⟩ rest

end Payload

theorem takes_payload (levels : Nat) (kind : UInt8) : (payload levels kind).Takes
    (Spells fun t => t.kind = kind ∧ t.Lawful ∧ t.height < levels) := by
  -- The levels are what a list or a compound hands on to its nodes, less one.
  induction levels generalizing kind with
  | zero => exact (takes_fail _).congr fun v form => ⟨False.elim, fun ⟨_, ⟨_, _, hlt⟩, _⟩ => by cases hlt⟩
  | succ levels ih =>
    intro bytes v rest
    refine ⟨payload_sound ih, ?_⟩
    rintro ⟨_, ⟨t, ⟨rfl, hlawful, hheight⟩, rfl, rfl⟩, rfl⟩
    exact payload_complete ih hlawful hheight rest

/-- The forms of a whole value. -/
theorem takes_read : read.Takes fun v form => (form = [0] ∧ v = .null) ∨
    ∃ t : Tree, t.Lawful ∧ t.height ≤ 64 ∧ form = t.kind :: t.payload ∧ v = t.json := by
  have hvalue (kind : UInt8) : (if kind = 0 then Pure.pure .null else payload maxLevels kind).Takes
      fun v form => (kind = 0 ∧ form = [] ∧ v = .null) ∨
        ∃ t : Tree, t.kind = kind ∧ t.Lawful ∧ t.height ≤ 64 ∧ form = t.payload ∧ v = t.json := by
    by_cases hkind : kind = 0
    · rw [if_pos hkind]
      refine (takes_pure _).congr fun v form => ⟨fun ⟨hv, hform⟩ => .inl ⟨hkind, hform, hv⟩, ?_⟩
      rintro (⟨-, rfl, rfl⟩ | ⟨t, rfl, -⟩)
      · exact ⟨rfl, rfl⟩
      · exact absurd hkind t.kind_ne_zero
    · rw [if_neg hkind]
      refine (takes_payload maxLevels kind).congr fun v form => ⟨?_, ?_⟩
      · rintro ⟨t, ⟨ht, hlawful, hheight⟩, hform, hv⟩
        exact .inr ⟨t, ht, hlawful, Nat.le_of_lt_succ hheight, hform, hv⟩
      · rintro (⟨hzero, -⟩ | ⟨t, ht, hlawful, hheight, hform, hv⟩)
        · exact absurd hzero hkind
        · exact ⟨t, ⟨ht, hlawful, Nat.lt_succ_of_le hheight⟩, hform, hv⟩
  refine (takes_u8.bind hvalue).congr fun v form => ⟨?_, ?_⟩
  · rintro ⟨kind, _, _, rfl, ⟨rfl, rfl, rfl⟩ | ⟨t, rfl, hlawful, hheight, rfl, rfl⟩, rfl⟩
    · exact .inl ⟨rfl, rfl⟩
    · exact .inr ⟨t, hlawful, hheight, rfl, rfl⟩
  · rintro (⟨rfl, rfl⟩ | ⟨t, hlawful, hheight, rfl, rfl⟩)
    · exact ⟨0, [0], [], rfl, .inl ⟨rfl, rfl, rfl⟩, rfl⟩
    · exact ⟨t.kind, [t.kind], t.payload, rfl, .inr ⟨t, rfl, hlawful, hheight, rfl, rfl⟩, rfl⟩

/-- The names and the values of members, as they are shown. -/
theorem shows_image (entries : List (List UInt8 × Tree)) : List.Forall₂
    (fun e m => Text.Utf8.Shows e.1 m.1.toList ∧ m.2 = e.2.json) entries (entries.map image) := by
  rw [List.forall₂_map_right_iff, List.forall₂_same]
  exact fun e _ => ⟨Text.Utf8.decodeLossy_eq_iff.mp rfl, rfl⟩

/-- **Reading takes the trees of the grammar, and nothing else.**

* It gives a value and leaves what comes behind it exactly where the bytes start with 0, for null, or with
  the kind and the payload of a lawful tree whose nodes lie at depth 64 at the most, for the image of that
  tree. Everywhere else it gives an error.
* The image of a text are the characters that its bytes show: those that are spelled, and a replacement for
  each part of the bytes that breaks off or starts none.
* The image of a floating-point number is the number, or null if it is not finite.
* In the image of a compound, names are shown like texts and go upwards, and of the members whose names show
  the same the last is kept. -/
theorem read_eq_ok_iff (bytes : List UInt8) :
    let accepted (v : Json) (rest : List UInt8) := (bytes = 0 :: rest ∧ v = .null) ∨
      ∃ t : Tree, t.Lawful ∧ t.height ≤ 64 ∧ bytes = t.kind :: t.payload ++ rest ∧ v = t.json
    let exact (x : Float) : Json := if x.isFinite then .float x else .null
    (∀ v rest, read bytes = (.ok v, rest) ↔ accepted v rest) ∧
    ((∀ v rest, ¬ accepted v rest) → ∃ e rest, read bytes = (.error e, rest)) ∧
    (∀ spelling s, (Tree.text spelling).json = .text s ↔ Text.Utf8.Shows spelling s.toList) ∧
    (∀ bits, (Tree.float bits).json = exact (Float32.ofBits bits).toFloat) ∧
    (∀ bits, (Tree.double bits).json = exact (Float.ofBits bits)) ∧
    ∀ entries, ∃ named members,
      List.Forall₂ (fun e m => Text.Utf8.Shows e.1 m.1.toList ∧ m.2 = e.2.json) entries named ∧
      (Tree.compound entries).json = .object members ∧ members.Pairwise (·.1 < ·.1) ∧
      ∀ name, members.find? (·.1 = name) = named.reverse.find? (·.1 = name) := by
  intro accepted exact
  have hread (v : Json) (rest : List UInt8) : read bytes = (.ok v, rest) ↔ accepted v rest := by
    rw [takes_read bytes v rest]
    refine ⟨?_, ?_⟩
    · rintro ⟨_, ⟨rfl, rfl⟩ | ⟨t, hlawful, hheight, rfl, rfl⟩, rfl⟩
      · exact .inl ⟨rfl, rfl⟩
      · exact .inr ⟨t, hlawful, hheight, rfl, rfl⟩
    · rintro (⟨rfl, rfl⟩ | ⟨t, hlawful, hheight, rfl, rfl⟩)
      · exact ⟨[0], .inl ⟨rfl, rfl⟩, rfl⟩
      · exact ⟨_, .inr ⟨t, hlawful, hheight, rfl, rfl⟩, rfl⟩
  refine ⟨hread, fun hnone => ?_, fun spelling s => ?_, fun bits => ?_, fun bits => ?_, fun entries => ?_⟩
  · rcases hresult : read bytes with ⟨e | v, rest⟩
    · exact ⟨e, rest, rfl⟩
    · exact absurd ((hread v rest).mp hresult) (hnone v rest)
  · rw [Tree.json, Json.text.injEq]
    exact Text.Utf8.decodeLossy_eq_iff
  · rw [Tree.json]
    rfl
  · rw [Tree.json]
    rfl
  · obtain ⟨members, hmembers, hordered, hfind⟩ := Json.exists_ofMembers (entries.map image)
    refine ⟨entries.map image, members, shows_image entries, ?_, hordered, hfind⟩
    rw [Tree.json]
    exact hmembers

/-- A compound of two members whose names differ in the byte that shows as a replacement, so the last is
kept. Its text is a character that is cut off, a letter, and a byte that starts nothing. -/
theorem read_eq_ok_iff_broken :
    let bytes : List UInt8 := [0x0A, 1, 0, 2, 0x61, 0xFF, 5, 8, 0, 2, 0x61, 0xC3,
      0, 4, 0xE2, 0x82, 0x41, 0xFF, 0, 7]
    let replaced := Char.ofNat 0xFFFD
    Text.Utf8.Shows [0xE2, 0x82, 0x41, 0xFF] [replaced, 'A', replaced] ∧
      read bytes = (.ok (.object [(String.ofList ['a', replaced],
        .text (String.ofList [replaced, 'A', replaced]))]), [7]) := by
  intro bytes replaced
  let spelling : List UInt8 := [0xE2, 0x82, 0x41, 0xFF]
  let tree := Tree.compound [([0x61, 0xFF], .byte 5), ([0x61, 0xC3], .text spelling)]
  obtain ⟨hread, -, htext, -⟩ := read_eq_ok_iff bytes
  have hlossy : Text.Utf8.decodeLossy spelling = String.ofList [replaced, 'A', replaced] := by decide
  have hshows := (htext spelling (String.ofList [replaced, 'A', replaced])).mp (by rw [Tree.json, hlossy])
  have hlawful : tree.Lawful := by
    refine .compound (by decide) ?_
    simp only [List.forall_mem_cons]
    exact ⟨.byte 5, .text (by decide), List.forall_mem_nil _⟩
  have hheight : tree.height ≤ 64 := by simp [tree, Tree.height]
  have hbytes : bytes = tree.kind :: tree.payload ++ [7] := by
    simp only [tree, Tree.payload, List.flatMap_cons, List.flatMap_nil]
    decide
  have hnames : Text.Utf8.decodeLossy [0x61, 0xFF] = String.ofList ['a', replaced] ∧
      Text.Utf8.decodeLossy [0x61, 0xC3] = String.ofList ['a', replaced] := by decide
  have himage : tree.json =
      .object [(String.ofList ['a', replaced], .text (String.ofList [replaced, 'A', replaced]))] := by
    simp [tree, Tree.json, hnames, hlossy, Json.ofMembers, Json.insert]
  rw [String.toList_ofList] at hshows
  exact ⟨hshows, (hread _ _).mpr (.inr ⟨tree, hlawful, hheight, hbytes, himage.symm⟩)⟩

end Pickaxe.Nbt
