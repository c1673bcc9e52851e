import Pickaxe.Negotiation.Trial

/-! A network that answers from a list, whatever it is asked, and keeps the questions. -/
namespace Pickaxe.Negotiation

open Packet (Version)

structure Script where
  status : Except PingError Server.Status
  /-- The answers to logins, by version. -/
  replies : List (Version × Reply)
  /-- The answer at any other version. -/
  otherwise : Reply
  /-- The servers that were asked for their status, the latest first. -/
  asked : List Server.Endpoint
  /-- The versions that were tried, the latest first. -/
  tried : List Version

namespace Script

/-- Nobody is there. -/
def silent : Script := ⟨.error (.unreachable "no answer"), [], .silent, [], []⟩

def reply (s : Script) (v : Version) : Reply :=
  ((s.replies.find? (·.1 = v)).map (·.2)).getD s.otherwise

instance : Network Script where
  ping endpoint s := (s.status, { s with asked := endpoint :: s.asked })
  connect _ v s := (s.reply v, { s with tried := v :: s.tried })

end Script

end Pickaxe.Negotiation
