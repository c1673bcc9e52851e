import Pickaxe.Negotiation.Store

/-! What ends a negotiation without a version, and what to do about it. -/
namespace Pickaxe.Negotiation

open Packet (Version)

inductive Error where
  /-- No version was accepted, of those on the list. -/
  | exhausted (server : String) (reported : Option Version) (tried : List Version)
  | store (e : StoreError)
deriving DecidableEq, Repr

namespace Error

def message : Error → String
  | .exhausted server _ tried =>
    let list := ", ".intercalate (tried.map fun v => toString v.toInt)
    s!"no protocol version accepted by {server} (tried [{list}])"
  | .store e => e.message

/-- The next steps for whoever runs the bot. -/
def remediation : Error → String
  | .exhausted server reported tried =>
    let list := ",".intercalate (tried.map fun v => toString v.toInt)
    s!"Negotiation with {server} failed: no candidate protocol version was accepted.\n" ++
      s!"  Tried: {list}\n" ++
      match reported with
      | some v =>
        s!"  The server reports protocol {v.toInt}.\n" ++
          "  Retry with a wider window, e.g. `negotiate --force --window 5`,\n" ++
          s!"  or name versions explicitly, e.g. `negotiate --force --candidates {v.toInt}`.\n"
      | none =>
        "  The server did not answer a status ping.\n" ++
          "  Check the address, then retry with `negotiate --force --candidates <n,...>`.\n"
  | .store e =>
    s!"Negotiation state could not be used: {e.message}\n" ++
      "  Run `negotiate --clean` to reset it.\n"

end Error

end Pickaxe.Negotiation
