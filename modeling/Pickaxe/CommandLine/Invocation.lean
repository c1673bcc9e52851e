import Pickaxe.Bot.Config

/-! What the bot is asked to do when it is started. -/
namespace Pickaxe.CommandLine

open Packet (Version)
open Server (Endpoint)

structure NegotiateRequest where
  /-- Passes over the record and earlier trials. -/
  force : Bool
  /-- Forgets the record and the trials, and does no more. -/
  clean : Bool
  /-- How far around the reported version to look. -/
  window : Option UInt32
  /-- Tried after the window in place of the standard ones, if there are any. -/
  candidates : List Version
deriving DecidableEq, Repr

inductive Request where
  | negotiate (r : NegotiateRequest)
  | run (autoMine : Bool)
  | ping
deriving DecidableEq, Repr

structure Invocation where
  server : Endpoint
  username : String
  stateDir : String
  request : Request
deriving DecidableEq, Repr

/-- The negotiation that is asked for. -/
def NegotiateRequest.apply (r : NegotiateRequest) (c : Negotiation.Config) :
    Negotiation.Config :=
  { c with
    window := r.window.getD c.window
    defaults := if r.candidates = [] then c.defaults else r.candidates }

/-- The standard settings, but for what the invocation says. -/
def Invocation.config (i : Invocation) : Bot.Config :=
  let c := Bot.Config.standard
  let c := { c with
    endpoint := i.server
    username := i.username
    negotiation := { c.negotiation with stateDir := i.stateDir } }
  match i.request with
  | .negotiate r => { c with negotiation := r.apply c.negotiation }
  | .run autoMine => { c with autoMine }
  | .ping => c

end Pickaxe.CommandLine
