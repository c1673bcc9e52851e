import Pickaxe.Duration
import Pickaxe.Packet.Handshake

/-! Settings of a negotiation. -/
namespace Pickaxe.Negotiation

open Packet (Version)
open Json (Decoder)

structure Config where
  /-- Tried after the reported version and its window, in this order. -/
  defaults : List Version
  /-- How far around the reported version to look. -/
  window : UInt32
  /-- The most time for one trial. -/
  trialTimeout : Duration
  /-- The most time for opening a connection. -/
  connectTimeout : Duration
  /-- Where the record and the ledger live. -/
  stateDir : String
deriving DecidableEq

namespace Config

def standard : Config where
  defaults := [767, 768, 766, 769, 770, 771, 765]
  window := 2
  trialTimeout := Duration.seconds 10
  connectTimeout := Duration.seconds 5
  stateDir := ".quarry"

/-- Only positive versions are tried, and opening a connection takes no longer than a trial. -/
def validated (c : Config) : Config :=
  { c with
    defaults := c.defaults.filter (0 < ·)
    connectTimeout := min c.connectTimeout c.trialTimeout }

def fieldNames : List String :=
  ["default_candidates", "window_radius", "trial_timeout", "connect_timeout", "state_dir"]

def decoder : Decoder Config :=
  .record fieldNames fun f => do
    return ⟨← f.required "default_candidates" (.list .i32), ← f.required "window_radius" .u32,
      ← f.required "trial_timeout" Duration.decoder,
      ← f.required "connect_timeout" Duration.decoder, ← f.required "state_dir" .text⟩

def json (c : Config) : Json :=
  .object [("default_candidates", .array (c.defaults.map fun v => .int v.toInt)),
    ("window_radius", .int c.window.toNat), ("trial_timeout", Duration.json c.trialTimeout),
    ("connect_timeout", Duration.json c.connectTimeout), ("state_dir", .text c.stateDir)]

end Config

end Pickaxe.Negotiation
