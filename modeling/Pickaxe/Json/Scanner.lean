import Pickaxe.Json.Document

/-! Reading a JSON text byte by byte. The scanner is a machine with a stack of open containers;
it takes exactly the texts of the JSON grammar, at any depth. -/
namespace Pickaxe.Json

/-- An open container and what it holds so far, last first. -/
inductive Open where
  | array (items : List Document)
  | object (members : List (List Glyph × Document)) (key : List Glyph)

/-- How far a number has come. -/
inductive NumeralPart where
  /-- After the minus sign. -/
  | sign
  /-- After a leading zero. -/
  | zero
  | whole
  /-- After the point. -/
  | point
  | fraction
  /-- After the exponent mark. -/
  | mark
  /-- After the sign of the exponent. -/
  | markSign
  | exponent
deriving DecidableEq

/-- How far an escape in a string has come. -/
inductive Escape where
  | none
  | started
  /-- Inside a code unit: digits still due, and the value so far. -/
  | code (due : Nat) (value : Nat)

/-- What may come next. -/
inductive Mode where
  | value
  /-- A value, or the end of an array that holds none. -/
  | firstItem
  | key
  /-- A key, or the end of an object that has none. -/
  | firstKey
  | colon (key : List Glyph)
  /-- A value has just ended. -/
  | after
  /-- Inside a word that stands for `v`. -/
  | word (left : List UInt8) (v : Document)
  /-- Inside a string, its glyphs last first. -/
  | string (isKey : Bool) (glyphs : List Glyph) (escape : Escape)
  /-- Inside a number, its digits last first. -/
  | number (part : NumeralPart) (n : Numeral)

structure Scanner where
  stack : List Open
  mode : Mode
  /-- The value of the whole text, once it has ended. -/
  root : Option Document

namespace Scanner

def initial : Scanner := ⟨[], .value, none⟩

def isSpace (b : UInt8) : Bool := b == 0x20 || b == 0x09 || b == 0x0A || b == 0x0D

def isDigit (b : UInt8) : Bool := 0x30 ≤ b && b ≤ 0x39

def digit (b : UInt8) : Nat := b.toNat - 0x30

def hexDigit? (b : UInt8) : Option Nat :=
  if 0x30 ≤ b ∧ b ≤ 0x39 then some (b.toNat - 0x30)
  else if 0x61 ≤ b ∧ b ≤ 0x66 then some (b.toNat - 0x61 + 10)
  else if 0x41 ≤ b ∧ b ≤ 0x46 then some (b.toNat - 0x41 + 10)
  else none

/-- The byte that a short escape stands for. -/
def shortEscape? (b : UInt8) : Option UInt8 :=
  if b = 0x22 ∨ b = 0x5C ∨ b = 0x2F then some b
  else if b = 0x62 then some 0x08
  else if b = 0x66 then some 0x0C
  else if b = 0x6E then some 0x0A
  else if b = 0x72 then some 0x0D
  else if b = 0x74 then some 0x09
  else none

/-- A value has ended: it goes into the innermost open container. -/
def finish (v : Document) : List Open → Scanner
  | [] => ⟨[], .after, some v⟩
  | .array items :: stack => ⟨.array (v :: items) :: stack, .after, none⟩
  | .object members key :: stack => ⟨.object ((key, v) :: members) [] :: stack, .after, none⟩

/-- A value begins. -/
def begin (stack : List Open) (b : UInt8) : Option Scanner :=
  if b = 0x7B then some ⟨.object [] [] :: stack, .firstKey, none⟩
  else if b = 0x5B then some ⟨.array [] :: stack, .firstItem, none⟩
  else if b = 0x22 then some ⟨stack, .string false [] .none, none⟩
  else if b = 0x6E then some ⟨stack, .word [0x75, 0x6C, 0x6C] .null, none⟩
  else if b = 0x74 then some ⟨stack, .word [0x72, 0x75, 0x65] (.bool true), none⟩
  else if b = 0x66 then some ⟨stack, .word [0x61, 0x6C, 0x73, 0x65] (.bool false), none⟩
  else if b = 0x2D then some ⟨stack, .number .sign ⟨true, [], [], none⟩, none⟩
  else if b = 0x30 then some ⟨stack, .number .zero ⟨false, [0], [], none⟩, none⟩
  else if isDigit b then some ⟨stack, .number .whole ⟨false, [digit b], [], none⟩, none⟩
  else none

/-- A byte after a value. -/
def next (s : Scanner) (b : UInt8) : Option Scanner :=
  if isSpace b then some s
  else match s.stack with
    | [] => none
    | .array items :: stack =>
      if b = 0x2C then some ⟨.array items :: stack, .value, none⟩
      else if b = 0x5D then some (finish (.array items.reverse) stack)
      else none
    | .object members _ :: stack =>
      if b = 0x2C then some ⟨.object members [] :: stack, .key, none⟩
      else if b = 0x7D then some (finish (.object members.reverse) stack)
      else none

/-- The number in reading order, if it may end here. -/
def ended (part : NumeralPart) (n : Numeral) : Option Numeral :=
  match part with
  | .zero | .whole | .fraction | .exponent =>
    some ⟨n.negative, n.whole.reverse, n.fraction.reverse,
      n.exponent.map fun e => (e.1, e.2.reverse)⟩
  | .sign | .point | .mark | .markSign => none

/-- A byte that carries the number on. -/
def extend (part : NumeralPart) (n : Numeral) (b : UInt8) : Option (NumeralPart × Numeral) :=
  match part with
  | .sign =>
    if b = 0x30 then some (.zero, { n with whole := [0] })
    else if isDigit b then some (.whole, { n with whole := [digit b] })
    else none
  | .zero => fractionOrMark
  | .whole =>
    if isDigit b then some (.whole, { n with whole := digit b :: n.whole }) else fractionOrMark
  | .point => if isDigit b then some (.fraction, { n with fraction := [digit b] }) else none
  | .fraction =>
    if isDigit b then some (.fraction, { n with fraction := digit b :: n.fraction })
    else if b = 0x65 ∨ b = 0x45 then some (.mark, n)
    else none
  | .mark =>
    if b = 0x2B then some (.markSign, { n with exponent := some (false, []) })
    else if b = 0x2D then some (.markSign, { n with exponent := some (true, []) })
    else if isDigit b then some (.exponent, { n with exponent := some (false, [digit b]) })
    else none
  | .markSign | .exponent =>
    if isDigit b then
      some (.exponent, { n with exponent := n.exponent.map fun e => (e.1, digit b :: e.2) })
    else none
where
  fractionOrMark :=
    if b = 0x2E then some (.point, n)
    else if b = 0x65 ∨ b = 0x45 then some (.mark, n)
    else none

/-- A byte inside a string. -/
def inString (stack : List Open) (isKey : Bool) (glyphs : List Glyph) (escape : Escape)
    (b : UInt8) : Option Scanner :=
  match escape with
  | .none =>
    if b = 0x22 then
      some (if isKey then ⟨stack, .colon glyphs.reverse, none⟩
        else finish (.text glyphs.reverse) stack)
    else if b = 0x5C then some ⟨stack, .string isKey glyphs .started, none⟩
    else if b < 0x20 then none
    else some ⟨stack, .string isKey (.byte b :: glyphs) .none, none⟩
  | .started =>
    if b = 0x75 then some ⟨stack, .string isKey glyphs (.code 3 0), none⟩
    else (shortEscape? b).map fun c => ⟨stack, .string isKey (.byte c :: glyphs) .none, none⟩
  | .code due value =>
    (hexDigit? b).map fun d =>
      match due with
      | 0 => ⟨stack, .string isKey (.unit (UInt16.ofNat (value * 16 + d)) :: glyphs) .none, none⟩
      | due + 1 => ⟨stack, .string isKey glyphs (.code due (value * 16 + d)), none⟩

/-- The key of the innermost open object is known. -/
def name (key : List Glyph) : List Open → Option Scanner
  | .object members _ :: stack => some ⟨.object members key :: stack, .value, none⟩
  | _ => none

/-- The next byte; none if no JSON text goes on like this. -/
def step (s : Scanner) (b : UInt8) : Option Scanner :=
  match s.mode with
  | .value => if isSpace b then some s else begin s.stack b
  | .firstItem =>
    if isSpace b then some s
    else if b = 0x5D then next { s with mode := .after } b
    else begin s.stack b
  | .key =>
    if isSpace b then some s
    else if b = 0x22 then some ⟨s.stack, .string true [] .none, none⟩
    else none
  | .firstKey =>
    if isSpace b then some s
    else if b = 0x7D then next { s with mode := .after } b
    else if b = 0x22 then some ⟨s.stack, .string true [] .none, none⟩
    else none
  | .colon key =>
    if isSpace b then some s else if b = 0x3A then name key s.stack else none
  | .after => next s b
  | .word left v =>
    match left with
    | [] => none
    | c :: left =>
      if b = c then
        some (if left = [] then finish v s.stack else ⟨s.stack, .word left v, none⟩)
      else none
  | .string isKey glyphs escape => inString s.stack isKey glyphs escape b
  | .number part n =>
    match extend part n b with
    | some (part, n) => some ⟨s.stack, .number part n, none⟩
    | none => (ended part n).bind fun n => next (finish (.number n) s.stack) b

def run (s : Scanner) (bytes : List UInt8) : Option Scanner := bytes.foldlM step s

/-- The value, if the text may end here. -/
def result (s : Scanner) : Option Document :=
  match s.mode with
  | .number part n => (ended part n).bind fun n => (finish (.number n) s.stack).root
  | .after => s.root
  | _ => none

end Scanner

/-- The one value that a text holds, with nothing but blanks around it. -/
def Document.read? (bytes : List UInt8) : Option Document :=
  (Scanner.initial.run bytes).bind Scanner.result

end Pickaxe.Json
