import Pickaxe.Text.Blank
import Pickaxe.Text.Quoted
import Pickaxe.Wire.Error

/-! Server addresses as they are typed: a host, and a port after a colon. A text with two colons
or more is a host without a port. -/
namespace Pickaxe.Server

open Wire (PacketError)

structure Endpoint where
  host : String
  port : UInt16
deriving DecidableEq, Repr

namespace Endpoint

/-- The port of a text that has none. -/
def defaultPort : UInt16 := 25565

def text (e : Endpoint) : String := s!"{e.host}:{e.port.toNat}"

/-- What stands before and after the last colon. -/
def splitLast (s : List Char) : Option (List Char × List Char) :=
  match s.reverse.dropWhile (· ≠ ':') with
  | [] => none
  | _ :: before => some (before.reverse, (s.reverse.takeWhile (· ≠ ':')).reverse)

/-- The number that decimal digits spell; none without a digit, or with anything else. -/
def decimal? : List Char → Option Nat
  | [] => none
  | digits =>
    if digits.all Char.isDigit then some (digits.foldl (fun n c => n * 10 + (c.toNat - 48)) 0)
    else none

/-- A port: digits, after a plus sign or not, for a number of 16 bits. -/
def port? (s : List Char) : Option UInt16 :=
  let digits := match s with
    | '+' :: rest => rest
    | s => s
  (decimal? digits).bind fun n => if n < UInt16.size then some (UInt16.ofNat n) else none

def parse (typed : String) : Except PacketError Endpoint :=
  let s := Text.trim typed
  let named (host : List Char) (port : UInt16) : Except PacketError Endpoint :=
    if host = [] then .error (.invalidMessage s!"missing host in {Text.quote s}")
    else .ok ⟨String.ofList host, port⟩
  match splitLast s.toList with
  | some (host, port) =>
    if ':' ∈ host then named s.toList defaultPort
    else match port? port with
      | some port => named host port
      | none => .error (.invalidMessage s!"invalid port in {Text.quote s}")
  | none => named s.toList defaultPort

end Endpoint

end Pickaxe.Server
