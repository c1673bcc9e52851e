import Pickaxe.CommandLine.Invocation

/-! Reading the arguments. Options stand before the command or after it; those of every command
may stand at both levels, and then the later one counts. Where a level is silent about one of
them, the environment is asked. -/
namespace Pickaxe.CommandLine

open Packet (Version)
open Server (Endpoint)

inductive Verb where
  | negotiate | run | ping
deriving DecidableEq, Repr

namespace Verb

def name : Verb → String
  | .negotiate => "negotiate"
  | .run => "run"
  | .ping => "ping"

def ofName? (s : String) : Option Verb := [negotiate, run, ping].find? (·.name = s)

end Verb

/-- How many values follow an option. -/
inductive Arity where
  | flag | one | many
deriving DecidableEq, Repr

/-- What is written after two dashes. -/
inductive Setting where
  | server | username | stateDir | force | clean | window | candidates | noAutoMine
deriving DecidableEq, Repr

namespace Setting

def name : Setting → String
  | .server => "server"
  | .username => "username"
  | .stateDir => "state-dir"
  | .force => "force"
  | .clean => "clean"
  | .window => "window"
  | .candidates => "candidates"
  | .noAutoMine => "no-auto-mine"

def arity : Setting → Arity
  | .server | .username | .stateDir | .window => .one
  | .force | .clean | .noAutoMine => .flag
  | .candidates => .many

/-- The options before the command, and those after it. -/
def allowed : Option Verb → List Setting
  | none | some .ping => [server, username, stateDir]
  | some .negotiate => [server, username, stateDir, force, clean, window, candidates]
  | some .run => [server, username, stateDir, noAutoMine]

end Setting

/-- Why nothing is done. -/
inductive Stop where
  | help
  | version
  | misuse
deriving DecidableEq, Repr

/-- The number that decimal digits spell behind a sign or none, if it is in range. -/
def integer? (low high : Int) (s : String) : Option Int := do
  let (negative, digits) := match s.toList with
    | '-' :: rest => (true, rest)
    | '+' :: rest => (false, rest)
    | chars => (false, chars)
  let size ← Endpoint.decimal? digits
  let n : Int := if negative then -size else size
  if low ≤ n ∧ n ≤ high then some n else none

def server? (s : String) : Option Endpoint := (Endpoint.parse s).toOption

def stateDir? (s : String) : Option String := if s = "" then none else some s

def window? (s : String) : Option UInt32 :=
  (integer? 0 (UInt32.size - 1) s).map (UInt32.ofNat ·.toNat)

def version? (s : String) : Option Version :=
  (integer? Int32.minValue.toInt Int32.maxValue.toInt s).map Int32.ofInt

/-- What is given at one level. -/
structure Given where
  server : Option Endpoint
  username : Option String
  stateDir : Option String
  force : Bool
  clean : Bool
  window : Option UInt32
  candidates : List Version
  noAutoMine : Bool

namespace Given

def nothing : Given := ⟨none, none, none, false, false, none, [], false⟩

/-- What can be given once only. -/
def once {α : Type} (before : Option α) (v : Option α) : Option (Option α) :=
  match before with
  | some _ => none
  | none => v.map some

/-- Takes an option with its values: none if it may not stand here or a value cannot be read. -/
def add (setting : Setting) (values : List String) (g : Given) : Option Given :=
  match setting, values with
  | .server, [v] => (once g.server (server? v)).map fun server => { g with server }
  | .username, [v] => (once g.username (some v)).map fun username => { g with username }
  | .stateDir, [v] => (once g.stateDir (stateDir? v)).map fun stateDir => { g with stateDir }
  | .window, [v] => (once g.window (window? v)).map fun window => { g with window }
  | .force, [] => if g.force then none else some { g with force := true }
  | .clean, [] => if g.clean then none else some { g with clean := true }
  | .noAutoMine, [] => if g.noAutoMine then none else some { g with noAutoMine := true }
  | .candidates, v :: vs =>
    (((v :: vs).flatMap (·.splitOn ",")).mapM version?).map fun versions =>
      { g with candidates := g.candidates ++ versions }
  | _, _ => none

end Given

/-- An option whose values may still follow. -/
structure Pending where
  setting : Setting
  values : List String

/-- Whether the next argument is one more value. -/
def Pending.isOpen (p : Pending) : Bool := match p.setting.arity with
  | .flag => false
  | .one => p.values.isEmpty
  | .many => true

def Pending.extend (value : String) (p : Pending) : Pending :=
  { p with values := p.values ++ [value] }

/-- How far one level has been read. -/
structure Level where
  given : Given
  pending : Option Pending

namespace Level

def start : Level := ⟨.nothing, none⟩

def add (setting : Setting) (values : List String) (l : Level) : Except Stop Level :=
  match l.given.add setting values with
  | some given => .ok { l with given }
  | none => .error .misuse

/-- No more values follow. -/
def settle (l : Level) : Except Stop Level := match l.pending with
  | none => .ok l
  | some p => (l.add p.setting p.values).map fun l => { l with pending := none }

end Level

/-- What an argument is, by its first characters. -/
inductive Shape where
  /-- Two dashes alone: no option follows. -/
  | rest
  | long (name : String) (attached : Option String)
  | short (letters : List Char)
  | plain (s : String)

/-- A name, and what stands behind the first equals sign if there is one. -/
def splitValue (chars : List Char) : String × Option String :=
  (String.ofList (chars.takeWhile (· ≠ '=')),
    match chars.dropWhile (· ≠ '=') with
    | [] => none
    | _ :: v => some (String.ofList v))

def Shape.of (s : String) : Shape := match s.toList with
  | ['-', '-'] => .rest
  | '-' :: '-' :: chars => .long (splitValue chars).1 (splitValue chars).2
  | '-' :: c :: letters => .short (c :: letters)
  | _ => .plain s

/-- Reads a named option at a level. -/
def long (verb : Option Verb) (name : String) (attached : Option String) (l : Level) :
    Except Stop Level := do
  let l ← l.settle
  match attached, (Setting.allowed verb).find? (·.name = name) with
  | none, none =>
    if name = "help" then .error .help
    else if name = "version" ∧ verb = none then .error .version
    else .error .misuse
  | some _, none => .error .misuse
  | some v, some setting => if setting.arity = .flag then .error .misuse else l.add setting [v]
  | none, some setting =>
    if setting.arity = .flag then l.add setting [] else .ok { l with pending := some ⟨setting, []⟩ }

/-- Reads an option of one letter. There are two, and both end the reading. -/
def short (verb : Option Verb) (letters : List Char) (l : Level) : Except Stop Level := do
  let _ ← l.settle
  match letters with
  | 'h' :: _ => .error .help
  | 'V' :: _ => .error (if verb = none then .version else .misuse)
  | _ => .error .misuse

/-- The help that the word for it asks for: in general, or on one command. -/
def helpOn : List String → Stop
  | [] => .help
  | [topic] => if topic = "help" ∨ (Verb.ofName? topic).isSome then .help else .misuse
  | _ => .misuse

/-- Reads one level, as far as the command if there is one. -/
def readLevel (verb : Option Verb) : List String → Level →
    Except Stop (Level × Option (Verb × List String))
  | [], l => .ok (l, none)
  | a :: rest, l => match Shape.of a with
    | .rest => if rest = [] then .ok (l, none) else .error .misuse
    | .long name attached => do readLevel verb rest (← long verb name attached l)
    | .short letters => do readLevel verb rest (← short verb letters l)
    | .plain s =>
      let word : Except Stop (Level × Option (Verb × List String)) := match verb with
        | some _ => .error .misuse
        | none => match Verb.ofName? s with
          | some v => .ok (l, some (v, rest))
          | none => .error (if s = "help" then helpOn rest else .misuse)
      match l.pending with
      | none => word
      | some p =>
        if p.isOpen then readLevel verb rest { l with pending := some (p.extend s) } else word

/-- What the surroundings say where the arguments do not. -/
structure Environment where
  server : Option String
  username : Option String
  stateDir : Option String

def Environment.silent : Environment := ⟨none, none, none⟩

/-- The value of an option that may stand at both levels. -/
def choose {α : Type} (above below : Option α) (environment : Option String)
    (read : String → Option α) (standard : α) : Option α := do
  match above, below with
  | some _, some v => some v
  | above, below =>
    let fallback ← match environment with
      | some text => read text
      | none => some standard
    return (below <|> above).getD fallback

def request? (verb : Verb) (g : Given) : Option Request := match verb with
  | .negotiate =>
    if g.force && g.clean then none
    else some (.negotiate ⟨g.force, g.clean, g.window, g.candidates⟩)
  | .run => some (.run !g.noAutoMine)
  | .ping => some .ping

/-- The invocation that two levels and the environment make. -/
def assemble (environment : Environment) (above : Given) (verb : Verb) (below : Given) :
    Option Invocation := do
  let standard := Bot.Config.standard
  return ⟨← choose above.server below.server environment.server server? standard.endpoint,
    ← choose above.username below.username environment.username some standard.username,
    ← choose above.stateDir below.stateDir environment.stateDir stateDir?
      standard.negotiation.stateDir,
    ← request? verb below⟩

/-- Reads all arguments. An option before the command is settled after those behind it. -/
def parse (environment : Environment) (arguments : List String) : Except Stop Invocation := do
  match ← readLevel none arguments .start with
  | (_, none) => .error .misuse
  | (above, some (verb, rest)) =>
    let (below, _) ← readLevel (some verb) rest .start
    let below ← below.settle
    let above ← above.settle
    match assemble environment above.given verb below.given with
    | some invocation => .ok invocation
    | none => .error .misuse

end Pickaxe.CommandLine
