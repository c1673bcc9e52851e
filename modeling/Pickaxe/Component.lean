import Pickaxe.Json.Number
import Pickaxe.Nbt

/-! Text components: chat lines, disconnect reasons and the message of the day, as JSON values.
`flatten` gives the visible text in document order. A translated component shows its key,
then each of its arguments after a blank. -/
namespace Pickaxe.Component

/-- What the members of an object contribute to its text. -/
structure Visible where
  text : Option String
  unnamed : Option String
  translate : Option String
  arguments : List String
  extra : List String

def Visible.none : Visible := ⟨.none, .none, .none, [], []⟩

/-- The unnamed member stands in for the text; arguments need a key to follow. -/
def Visible.flatten (v : Visible) : String :=
  (v.text.or v.unnamed).getD "" ++
    (match v.translate with
      | some key => key ++ String.join (v.arguments.map (" " ++ ·))
      | .none => "") ++
    String.join v.extra

mutual

def flatten : Json → String
  | .null => ""
  | .bool b => if b then "true" else "false"
  | .int n => toString n
  | .float x => Json.floatText x
  | .text s => s
  | .array items => String.join (flattened items)
  | .object members => (visible members).flatten

def flattened : List Json → List String
  | [] => []
  | v :: rest => flatten v :: flattened rest

def visible : List (String × Json) → Visible
  | [] => .none
  | (name, .text s) :: rest =>
    let v := visible rest
    if name = "text" then { v with text := some s }
    else if name = "" then { v with unnamed := some s }
    else if name = "translate" then { v with translate := some s }
    else v
  | (name, .array items) :: rest =>
    let v := visible rest
    if name = "with" then { v with arguments := flattened items }
    else if name = "extra" then { v with extra := flattened items }
    else v
  | _ :: rest => visible rest

end

/-- A component in a packet, as plain text. -/
def read : Wire.Reader String := do return flatten (← Nbt.read)

end Pickaxe.Component
