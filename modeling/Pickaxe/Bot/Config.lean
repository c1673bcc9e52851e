import Pickaxe.Mining.Config
import Pickaxe.Negotiation.Config
import Pickaxe.Play.Session
import Pickaxe.Server.Endpoint

/-! All settings of the bot. -/
namespace Pickaxe.Bot

open Json (Decoder)
open Server (Endpoint)

structure Config where
  endpoint : Endpoint
  username : String
  /-- The time for the world to load before mining starts by itself. -/
  worldLoad : Duration
  /-- The time between the farewell and the end. -/
  grace : Duration
  autoMine : Bool
  negotiation : Negotiation.Config
  mining : Mining.Config

namespace Config

def standardUsername : String := "MINER"

/-- The longest name a server takes, in characters. -/
def maxUsername : Nat := 16

def standard : Config where
  endpoint := ⟨"localhost", Endpoint.defaultPort⟩
  username := standardUsername
  worldLoad := Duration.seconds 2
  grace := Duration.seconds 1
  autoMine := true
  negotiation := .standard
  mining := .standard

/-- A name without blanks around it, cut to length. An empty one is replaced. -/
def usableName (name : String) : String :=
  let trimmed := Text.trim name
  if trimmed = "" then standardUsername else String.ofList (trimmed.toList.take maxUsername)

def validated (c : Config) : Config :=
  { c with
    username := usableName c.username
    negotiation := c.negotiation.validated
    mining := c.mining.validated }

def endpointDecoder : Decoder Endpoint :=
  .record ["host", "port"] fun f => do
    return ⟨← f.required "host" .text, ← f.required "port" .u16⟩

def endpointJson (e : Endpoint) : Json :=
  .object [("host", .text e.host), ("port", .int e.port.toNat)]

def fieldNames : List String :=
  ["endpoint", "username", "world_load_delay", "farewell_grace", "auto_mine", "negotiation",
    "mining"]

def decoder : Decoder Config :=
  .record fieldNames fun f => do
    return ⟨← f.required "endpoint" endpointDecoder, ← f.required "username" .text,
      ← f.required "world_load_delay" Duration.decoder,
      ← f.required "farewell_grace" Duration.decoder, ← f.required "auto_mine" .bool,
      ← f.required "negotiation" Negotiation.Config.decoder,
      ← f.required "mining" Mining.Config.decoder⟩

def json (c : Config) : Json :=
  .object [("endpoint", endpointJson c.endpoint), ("username", .text c.username),
    ("world_load_delay", Duration.json c.worldLoad), ("farewell_grace", Duration.json c.grace),
    ("auto_mine", .bool c.autoMine), ("negotiation", c.negotiation.json),
    ("mining", c.mining.json)]

/-- The part that a play session needs. -/
def session (c : Config) : Play.Settings := ⟨c.autoMine, c.worldLoad, c.grace, c.mining⟩

end Config

end Pickaxe.Bot
