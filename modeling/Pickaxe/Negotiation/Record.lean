import Pickaxe.Json.Decoder
import Pickaxe.Json.Writer
import Pickaxe.Packet.Handshake

/-! What a negotiation writes down: the record of a version that a server has accepted, and the
outcome of each trial. -/
namespace Pickaxe.Negotiation

open Packet (Version)
open Json (Decoder)

structure Record where
  version : Version
  /-- Seconds since 1970. -/
  discoveredAt : UInt64
  /-- The server that accepted it, for information. -/
  server : Option String
deriving DecidableEq, Repr

inductive TrialOutcome where
  | success | incompatibleClient | connectionError | unknown
deriving DecidableEq, Repr

namespace TrialOutcome

def name : TrialOutcome → String
  | .success => "Success"
  | .incompatibleClient => "IncompatibleClient"
  | .connectionError => "ConnectionError"
  | .unknown => "Unknown"

/-- The name in the ledger. -/
def stored : TrialOutcome → String
  | .success => "success"
  | .incompatibleClient => "incompatible_client"
  | .connectionError => "connection_error"
  | .unknown => "unknown"

def all : List TrialOutcome := [.success, .incompatibleClient, .connectionError, .unknown]

end TrialOutcome

/-- One line of the ledger. -/
structure Attempt where
  candidate : Version
  outcome : TrialOutcome
deriving DecidableEq, Repr

namespace Record

def decoder : Decoder Record :=
  .record ["protocol_version", "discovered_at", "server"] fun f => do
    return ⟨← f.required "protocol_version" .i32, ← f.required "discovered_at" .u64,
      ← f.defaulted "server" (.nullable .text) none⟩

def read? (bytes : List UInt8) : Option Record := decoder.run? bytes

def json (r : Record) : Json :=
  .object ([("protocol_version", .int r.version.toInt),
    ("discovered_at", .int r.discoveredAt.toNat)] ++
    (r.server.map fun s => ("server", Json.text s)).toList)

/-- The bytes of the record's file. -/
def write (r : Record) : List UInt8 := Text.Utf8.encode (Json.pretty r.json)

end Record

namespace Attempt

def decoder : Decoder Attempt :=
  .record ["candidate", "outcome"] fun f => do
    return ⟨← f.required "candidate" .i32,
      ← f.required "outcome" (.choice (TrialOutcome.all.map fun o => (o.stored, o)))⟩

def read? (bytes : List UInt8) : Option Attempt := decoder.run? bytes

def json (a : Attempt) : Json :=
  .object [("candidate", .int a.candidate.toInt), ("outcome", .text a.outcome.stored)]

/-- The bytes of the ledger's line, without its end. -/
def write (a : Attempt) : List UInt8 := Text.Utf8.encode (Json.compact a.json)

end Attempt

end Pickaxe.Negotiation
