import Pickaxe.Json.Number
import Pickaxe.Text.Hex

/-! Writing JSON: on one line without blanks, or indented by two blanks a level. -/
namespace Pickaxe.Json

/-- A control character by number. -/
def unicodeEscape (n : Nat) : List Char := '\\' :: 'u' :: Text.hexPadded 4 n

def escapeChar (c : Char) : List Char :=
  if c = '"' then ['\\', '"']
  else if c = '\\' then ['\\', '\\']
  else if c.toNat = 0x08 then ['\\', 'b']
  else if c.toNat = 0x0C then ['\\', 'f']
  else if c = '\n' then ['\\', 'n']
  else if c = '\r' then ['\\', 'r']
  else if c = '\t' then ['\\', 't']
  else if c.toNat < 0x20 then unicodeEscape c.toNat
  else [c]

def escaped (s : String) : String :=
  String.ofList ('"' :: s.toList.flatMap escapeChar ++ ['"'])

mutual

/-- On one line. Members stand in their order. -/
def compact : Json → String
  | .null => "null"
  | .bool b => if b then "true" else "false"
  | .int n => toString n
  | .float x => floatText x
  | .text s => escaped s
  | .array items => "[" ++ ",".intercalate (compactItems items) ++ "]"
  | .object members => "\x7b" ++ ",".intercalate (compactMembers members) ++ "\x7d"

def compactItems : List Json → List String
  | [] => []
  | v :: rest => compact v :: compactItems rest

def compactMembers : List (String × Json) → List String
  | [] => []
  | (name, v) :: rest => (escaped name ++ ":" ++ compact v) :: compactMembers rest

end

/-- A line break and the indent of a level. -/
def newline (level : Nat) : String := "\n" ++ String.ofList (List.replicate (2 * level) ' ')

mutual

/-- Over several lines, at a level of indent. -/
def indented (level : Nat) : Json → String
  | .array (v :: items) =>
    "[" ++ ",".intercalate (indentedItems (level + 1) (v :: items)) ++ newline level ++ "]"
  | .object (m :: members) =>
    "\x7b" ++ ",".intercalate (indentedMembers (level + 1) (m :: members)) ++ newline level ++
      "\x7d"
  | v => compact v

def indentedItems (level : Nat) : List Json → List String
  | [] => []
  | v :: rest => (newline level ++ indented level v) :: indentedItems level rest

def indentedMembers (level : Nat) : List (String × Json) → List String
  | [] => []
  | (name, v) :: rest =>
    (newline level ++ escaped name ++ ": " ++ indented level v) :: indentedMembers level rest

end

/-- Over several lines. -/
def pretty (v : Json) : String := indented 0 v

end Pickaxe.Json
