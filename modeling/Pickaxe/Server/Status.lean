import Pickaxe.Component
import Pickaxe.Json.Decoder
import Pickaxe.Json.Writer
import Pickaxe.Packet.Handshake
import Pickaxe.Text.Blank
import Pickaxe.Text.Lowercase

/-! The document in which a server describes itself, and what it says about mods. -/
namespace Pickaxe.Server

open Json (Decoder)

structure Player where
  name : String
  id : String
deriving DecidableEq, Repr

structure Players where
  max : Int64
  online : Int64
  sample : List Player
deriving DecidableEq, Repr

structure Status where
  versionName : String
  protocol : Packet.Version
  players : Option Players
  description : Json
  favicon : Option String

inductive ModLoader where
  | fabric | forge | unknown
deriving DecidableEq, Repr

def ModLoader.name : ModLoader → String
  | .fabric => "fabric"
  | .forge => "forge"
  | .unknown => "unknown"

/-- Guessed from the version's name and the message of the day; fabric counts before forge. -/
def ModLoader.detect (version motd : String) : ModLoader :=
  let version := Text.lower version
  let motd := Text.lower motd
  if Text.mentions version "fabric" || Text.mentions motd "fabric" then .fabric
  else if Text.mentions version "forge" || Text.mentions motd "forge" ||
      Text.mentions motd "fml" then .forge
  else .unknown

def Player.decoder : Decoder Player :=
  .record ["name", "id"] fun f => do
    return ⟨← f.required "name" .text, ← f.required "id" .text⟩

def Players.decoder : Decoder Players :=
  .record ["max", "online", "sample"] fun f => do
    return ⟨← f.required "max" .i64, ← f.required "online" .i64,
      ← f.defaulted "sample" (.list Player.decoder) []⟩

/-- The name and the number of a version. -/
def Status.versionDecoder : Decoder (String × Packet.Version) :=
  .record ["name", "protocol"] fun f => do
    return (← f.required "name" .text, ← f.required "protocol" .i32)

namespace Status

def decoder : Decoder Status :=
  .record ["version", "players", "description", "favicon"] fun f => do
    let version ← f.required "version" versionDecoder
    return ⟨version.1, version.2,
      ← f.defaulted "players" (.nullable Players.decoder) none,
      ← f.defaulted "description" .any .null,
      ← f.defaulted "favicon" (.nullable .text) none⟩

def parse? (document : String) : Option Status := decoder.run? (Text.Utf8.encode document)

def playerJson (p : Player) : Json := .object [("name", .text p.name), ("id", .text p.id)]

def playersJson (p : Players) : Json :=
  .object [("max", .int p.max.toInt), ("online", .int p.online.toInt),
    ("sample", .array (p.sample.map playerJson))]

/-- The document again, with its members in their usual order. -/
def json (s : Status) : Json :=
  .object ([("version", .object [("name", .text s.versionName),
      ("protocol", .int s.protocol.toInt)]),
    ("players", (s.players.map playersJson).getD .null),
    ("description", s.description)] ++
    (s.favicon.map fun f => ("favicon", Json.text f)).toList)

/-- The message of the day. -/
def motd (s : Status) : String := Text.trim (Component.flatten s.description)

def modLoader (s : Status) : ModLoader := .detect s.versionName s.motd

/-- The status on one line for other programs. -/
def line (s : Status) : String :=
  s!"PROTOCOL={s.protocol.toInt} VERSION_NAME=\"{s.versionName}\" MODDED={s.modLoader.name}"

end Status

end Pickaxe.Server
