import Pickaxe.Json.Number
import Pickaxe.Json.Scanner

/-! The value of a JSON text. Strings must be text, numbers must be in range, and containers
nest at most 127 deep. -/
namespace Pickaxe.Json

/-- The most containers that may stand around one another. -/
def maxDepth : Nat := 127

mutual

/-- The value a document stands for, with `room` containers still allowed. -/
def Document.value? (room : Nat) : Document → Option Json
  | .null => some .null
  | .bool b => some (.bool b)
  | .number n => n.value?
  | .text glyphs => (Glyph.text? glyphs).map .text
  | .array items => match room with
    | 0 => none
    | room + 1 => (values? room items).map .array
  | .object members => match room with
    | 0 => none
    | room + 1 => (members? room members).map ofMembers

def values? (room : Nat) : List Document → Option (List Json)
  | [] => some []
  | d :: rest => do
    let v ← d.value? room
    return v :: (← values? room rest)

def members? (room : Nat) : List (List Glyph × Document) → Option (List (String × Json))
  | [] => some []
  | (key, d) :: rest => do
    let name ← Glyph.text? key
    let v ← d.value? room
    return (name, v) :: (← members? room rest)

end

/-- The value of a whole text. -/
def parse? (bytes : List UInt8) : Option Json := (Document.read? bytes).bind (·.value? maxDepth)

end Pickaxe.Json
