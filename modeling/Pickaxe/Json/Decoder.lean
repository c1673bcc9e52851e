import Pickaxe.Json.Value

/-! Reading typed values out of a JSON text. A record is written as an object, or as the array of
its fields in order. In an object, members with other names are passed over, whatever they
hold; a field that stands twice is refused. -/
namespace Pickaxe.Json

/-- Takes a document, with so many containers still allowed. -/
def Decoder (α : Type) : Type := (room : Nat) → Document → Option α

namespace Decoder

/-- Any value. -/
def any : Decoder Json := fun room d => d.value? room

def bool : Decoder Bool := fun _ d => match d with
  | .bool b => some b
  | _ => none

def text : Decoder String := fun _ d => match d with
  | .text glyphs => Glyph.text? glyphs
  | _ => none

/-- An integer from `low` to `high`. -/
def int (low high : Int) : Decoder Int := fun _ d => match d with
  | .number n => match n.value? with
    | some (.int i) => if low ≤ i ∧ i ≤ high then some i else none
    | _ => none
  | _ => none

def u8 : Decoder UInt8 := fun room d =>
  (int 0 (UInt8.size - 1) room d).map (UInt8.ofNat ·.toNat)
def u16 : Decoder UInt16 := fun room d =>
  (int 0 (UInt16.size - 1) room d).map (UInt16.ofNat ·.toNat)
def u32 : Decoder UInt32 := fun room d =>
  (int 0 (UInt32.size - 1) room d).map (UInt32.ofNat ·.toNat)
def u64 : Decoder UInt64 := fun room d =>
  (int 0 (UInt64.size - 1) room d).map (UInt64.ofNat ·.toNat)
def i32 : Decoder Int32 := fun room d =>
  (int Int32.minValue.toInt Int32.maxValue.toInt room d).map Int32.ofInt
def i64 : Decoder Int64 := fun room d =>
  (int Int64.minValue.toInt Int64.maxValue.toInt room d).map Int64.ofInt

def list {α : Type} (item : Decoder α) : Decoder (List α) := fun room d => match room, d with
  | room + 1, .array items => items.mapM (item room)
  | _, _ => none

/-- Null in place of no value. -/
def nullable {α : Type} (value : Decoder α) : Decoder (Option α) := fun room d => match d with
  | .null => some none
  | d => (value room d).map some

/-- One of some names, as a text or as the one member of an object, with null in it. -/
def choice {α : Type} (names : List (String × α)) : Decoder α := fun room d => match room, d with
  | _, .text glyphs => (Glyph.text? glyphs).bind (names.lookup ·)
  | _ + 1, .object [(key, .null)] => (Glyph.text? key).bind (names.lookup ·)
  | _, _ => none

end Decoder

/-- The fields found in a record. -/
structure Fields where
  /-- The containers still allowed inside it. -/
  room : Nat
  found : List (String × Document)

namespace Fields

/-- The members of an object under the names of a record. If `strict`, there may be no others. -/
def ofMembers? (names : List String) (strict : Bool) :
    List (List Glyph × Document) → Option (List (String × Document))
  | [] => some []
  | (key, d) :: rest => do
    let name ← Glyph.text? key
    let found ← ofMembers? names strict rest
    if name ∈ names then
      if (found.lookup name).isSome then none else some ((name, d) :: found)
    else if strict then none
    else some found

def ofDocument? (names : List String) (strict : Bool) (room : Nat) : Document → Option Fields
  | .object members => match room with
    | 0 => none
    | room + 1 => (ofMembers? names strict members).map (⟨room, ·⟩)
  | .array items => match room with
    | 0 => none
    | room + 1 =>
      if items.length ≤ names.length then some ⟨room, names.zip items⟩ else none
  | _ => none

/-- A field that has to be there. -/
def required {α : Type} (f : Fields) (name : String) (value : Decoder α) : Option α :=
  (f.found.lookup name).bind (value f.room)

/-- A field with a value of its own when it is left out. -/
def defaulted {α : Type} (f : Fields) (name : String) (value : Decoder α) (fallback : α) :
    Option α :=
  match f.found.lookup name with
  | some d => value f.room d
  | none => some fallback

end Fields

/-- A record with these fields in this order. -/
def Decoder.record {α : Type} (names : List String) (build : Fields → Option α) : Decoder α :=
  fun room d => (Fields.ofDocument? names false room d).bind build

/-- The same, without any other member. -/
def Decoder.strictRecord {α : Type} (names : List String) (build : Fields → Option α) :
    Decoder α :=
  fun room d => (Fields.ofDocument? names true room d).bind build

/-- The value of a whole text. -/
def Decoder.run? {α : Type} (value : Decoder α) (bytes : List UInt8) : Option α :=
  (Document.read? bytes).bind (value maxDepth)

end Pickaxe.Json
