import Pickaxe.Bot.Basic
import Pickaxe.Proofs.Client.Opening
import Pickaxe.Proofs.Negotiation.Agreement
import Pickaxe.Proofs.Negotiation.Files

/-! Negotiating and joining.

All that the bot does over the network it does over connections, each for one purpose, and each opens with a
handshake for that purpose (`Remote.Dialed`). A negotiation dials once for each thing that it asks the
server (`negotiate_remote`, `hearing_dials`), and a join dials once. `run_joins` says at which version. -/
namespace Pickaxe

open Negotiation (Exchange Network Store Watched)
open Packet (Version)
open Server (Endpoint)

/-- What a connection opens with that is dialed to ask this. A status ping speaks the native version. -/
def Negotiation.Exchange.handshake : Exchange → List UInt8
  | .ping e _ => Packet.handshake Packet.nativeVersion e.host e.port .status
  | .connect e version _ => Packet.handshake version e.host e.port .login

namespace Bot

/-- Whether there is a connection. -/
def Dial.isAccepted : Dial → Bool
  | .accepted _ _ => true
  | .refused _ | .timedOut => false

namespace Remote

variable {r after : Remote} {frame : List UInt8} {e : Endpoint} {version : Version}

/-! ### One connection -/

/-- This side dials once, and what comes of it opens with this frame. -/
structure Dialed (frame : List UInt8) (r after : Remote) : Prop where
  dials_eq : after.dials = r.dials.drop 1
  opened : r.dial.1.isAccepted = true → ∃ line, line.OpensWith frame ∧ after.lines = line :: r.lines
  unopened : r.dial.1.isAccepted = false → after.lines = r.lines

theorem dials_dial (r : Remote) : r.dial.2.dials = r.dials.drop 1 := by
  unfold dial
  cases hdials : r.dials with
  | nil => exact hdials
  | cons => rfl

theorem lines_dial (r : Remote) : r.dial.2.lines = r.lines := by
  unfold dial
  cases r.dials <;> rfl

/-- One connection at the most, and what it opens with. -/
theorem Dialed.lines (h : r.Dialed frame after) :
    ∃ opened, after.lines = opened ++ r.lines ∧ opened.length ≤ 1 ∧
      ∀ line ∈ opened, line.OpensWith frame := by
  cases haccepted : r.dial.1.isAccepted with
  | true =>
    obtain ⟨line, hline, hlines⟩ := h.opened haccepted
    exact ⟨[line], hlines, Nat.le_refl 1, List.forall_mem_singleton.mpr hline⟩
  | false => exact ⟨[], h.unopened haccepted, Nat.zero_le 1, List.forall_mem_nil _⟩

/-- Nothing comes of a dial. -/
theorem dialed_of_unopened (frame : List UInt8) (h : r.dial.1.isAccepted = false) :
    r.Dialed frame r.dial.2 where
  dials_eq := r.dials_dial
  opened := fun haccepted => by
    rw [h] at haccepted
    cases haccepted
  unopened := fun _ => r.lines_dial

/-- Something comes of it, and this is its line in the end. -/
theorem dialed_of_opened {line : Client.Line} (h : r.dial.1.isAccepted = true)
    (hline : line.OpensWith frame) : r.Dialed frame (r.dial.2.done line) where
  dials_eq := r.dials_dial
  opened := fun _ => ⟨line, hline, congrArg (line :: ·) r.lines_dial⟩
  unopened := fun hnone => by
    rw [h] at hnone
    cases hnone

/-- What becomes of dialing the server. -/
theorem connect_cases (e : Endpoint) (r : Remote) :
    (r.dial.1.isAccepted = false ∧ ∃ error, r.connect e = (.error error, r.dial.2)) ∨
      (r.dial.1.isAccepted = true ∧ ∃ inbound more, r.connect e = (.ok (inbound, more), r.dial.2)) := by
  unfold connect
  rcases r.dial with ⟨_ | _ | ⟨inbound, more⟩, dialed⟩
  · exact .inl ⟨rfl, _, rfl⟩
  · exact .inl ⟨rfl, _, rfl⟩
  · exact .inr ⟨rfl, inbound, more, rfl⟩

theorem status_dialed (e : Endpoint) (version : Version) (r : Remote) :
    r.Dialed (Packet.handshake version e.host e.port .status) (r.status e version).2 := by
  unfold status
  rcases r.connect_cases e with ⟨hnone, error, hconnect⟩ | ⟨hsome, inbound, more, hconnect⟩
  · rw [hconnect]
    exact dialed_of_unopened _ hnone
  · rw [hconnect]
    exact dialed_of_opened hsome (Client.StatusPing.run_opens ..)

/-- What becomes of a login: the connection of one that fails is done with. -/
theorem login_cases (e : Endpoint) (version : Version) (r : Remote) :
    (∃ error, r.login e version = (.error error, (r.login e version).2) ∧
      r.Dialed (Packet.handshake version e.host e.port .login) (r.login e version).2) ∨
    (r.dial.1.isAccepted = true ∧ ∃ inbound more line,
      r.login e version = (.ok (inbound, more, line), r.dial.2) ∧
      [Packet.handshake version e.host e.port .login] <+: line.sent) := by
  unfold login
  rcases r.connect_cases e with ⟨hnone, error, hconnect⟩ | ⟨hsome, inbound, more, hconnect⟩
  · rw [hconnect]
    exact .inl ⟨_, rfl, dialed_of_unopened _ hnone⟩
  · rw [hconnect]
    have hopens := Client.Login.run_opens e version r.dial.2.username inbound
    have hok := Client.Login.run_opens_of_ok e version r.dial.2.username inbound
    simp only
    generalize Client.Login.run e version r.dial.2.username inbound = outcome at hopens hok ⊢
    obtain ⟨error | ⟨⟩, rest, line⟩ := outcome
    · exact .inl ⟨error, rfl, dialed_of_opened hsome hopens⟩
    · exact .inr ⟨hsome, rest, more, line, rfl, hok rfl⟩

theorem tryVersion_dialed (e : Endpoint) (version : Version) (r : Remote) :
    r.Dialed (Packet.handshake version e.host e.port .login) (r.tryVersion e version).2 := by
  unfold tryVersion
  rcases r.login_cases e version with ⟨error, hlogin, hdialed⟩ | ⟨hsome, inbound, more, line, hlogin, hopens⟩
  · rw [hlogin]
    exact hdialed
  · rw [hlogin]
    exact dialed_of_opened hsome (.inl (hopens.trans line.grows_close))

/-! ### One negotiation -/

/-- The server's side after it has been asked all this. -/
def hearing : List Exchange → Remote → Remote
  | [], r => r
  | .ping e _ :: rest, r => hearing rest (Network.ping e r).2
  | .connect e version _ :: rest, r => hearing rest (Network.connect e version r).2

theorem hearing_append (first rest : List Exchange) (r : Remote) :
    hearing (first ++ rest) r = hearing rest (hearing first r) := by
  induction first generalizing r with
  | nil => rfl
  | cons x first ih => cases x <;> exact ih _

/-- Each question dials once. -/
theorem hearing_dialed (x : Exchange) (r : Remote) : r.Dialed x.handshake (hearing [x] r) := by
  cases x with
  | ping e answer => exact r.status_dialed e Packet.nativeVersion
  | connect e version reply => exact r.tryVersion_dialed e version

theorem hearing_dials (asked : List Exchange) (r : Remote) :
    (hearing asked r).dials = r.dials.drop asked.length := by
  induction asked generalizing r with
  | nil => rfl
  | cons x rest ih =>
    have hfirst := (hearing_dialed x r).dials_eq
    rw [← List.singleton_append, hearing_append, ih, hfirst, List.drop_drop, List.length_append]
    rfl

/-- What has been sent over the connections of a negotiation. -/
theorem hearing_lines (asked : List Exchange) (r : Remote) :
    ∃ opened, (hearing asked r).lines = opened ++ r.lines ∧ opened.length ≤ asked.length ∧
      ∀ line ∈ opened, ∃ x ∈ asked, line.OpensWith x.handshake := by
  induction asked generalizing r with
  | nil => exact ⟨[], rfl, Nat.le_refl 0, List.forall_mem_nil _⟩
  | cons x rest ih =>
    obtain ⟨first, hfirst, hone, hopens⟩ := (hearing_dialed x r).lines
    obtain ⟨others, hothers, hcount, hrest⟩ := ih (hearing [x] r)
    refine ⟨others ++ first, ?_, ?_, List.forall_mem_append.mpr ⟨fun line hline => ?_, fun line hline => ?_⟩⟩
    · rw [← List.singleton_append, hearing_append, hothers, hfirst, List.append_assoc]
    · rw [List.length_append]
      exact Nat.add_le_add hcount hone
    · obtain ⟨y, hy, hline⟩ := hrest line hline
      exact ⟨y, List.mem_cons_of_mem x hy, hline⟩
    · exact ⟨x, List.mem_cons_self .., hopens line hline⟩

/-- A network that is listened to is where its exchanges lead. -/
theorem echoes_hearing (start : Remote) :
    Negotiation.Echoes fun (n : Remote) (w : Watched Remote) => w.inner = n ∧ n = hearing w.heard start where
  ping := by
    rintro e n w ⟨rfl, hn⟩
    refine ⟨rfl, rfl, ?_⟩
    show (Network.ping e w.inner).2 = hearing (w.heard ++ [.ping e _]) start
    rw [hearing_append, ← hn]
    rfl
  connect := by
    rintro e version n w ⟨rfl, hn⟩
    refine ⟨rfl, rfl, ?_⟩
    show (Network.connect e version w.inner).2 = hearing (w.heard ++ [.connect e version _]) start
    rw [hearing_append, ← hn]
    rfl

theorem run_network {σ : Type} [Store σ] (force : Bool) (now : UInt64) (c : Negotiation.Controller σ Remote) :
    (c.run force now).2.network = hearing (c.heard (.run force) now) c.network := by
  have halike : Negotiation.Controller.Alike c.endpoint c.config 0
      (fun s (t : Negotiation.Logged σ) => t.inner = s ∧ Negotiation.replay t.changes c.store = s)
      (fun (n : Remote) (w : Watched Remote) => w.inner = n ∧ n = hearing w.heard c.network) c c.watched :=
    { c.alike_watched with network := ⟨rfl, rfl⟩ }
  obtain ⟨-, hafter⟩ := Negotiation.Controller.run_alike (echoes_hearing c.network) halike
    ((Negotiation.Simulation.log c.store).mirrors now) force
    fun _ => Negotiation.Controller.onRecord_alike (Negotiation.Simulation.log c.store)
  exact hafter.network.2

end Remote

/-! ### The bot -/

/-- What a negotiation asks the server, in this order. -/
def asked (now : UInt64) (b : Bot) : List Exchange := match b.controller with
  | .error _ => []
  | .ok c => c.heard (.run false) now

variable {b : Bot}

theorem controller_eq {c : Negotiation.Controller Negotiation.StateDir Remote} (h : b.controller = .ok c) :
    c = .new b.state b.remote b.config.endpoint b.active b.config.negotiation := by
  unfold controller at h
  split at h
  · cases h
  · exact (Except.ok.inj h).symm

theorem negotiate_eq {c : Negotiation.Controller Negotiation.StateDir Remote} (force : Bool) (now : UInt64)
    (h : b.controller = .ok c) :
    b.negotiate force now = ((c.run force now).1.mapError .negotiation, b.after (c.run force now).2) := by
  rw [negotiate, h]

theorem negotiate_remote (now : UInt64) (b : Bot) :
    (b.negotiate false now).2.remote = Remote.hearing (b.asked now) b.remote := by
  cases hcontroller : b.controller with
  | error e =>
    rw [negotiate, asked, hcontroller]
    rfl
  | ok c =>
    have hnetwork := Remote.run_network false now c
    rw [negotiate_eq false now hcontroller, asked, hcontroller]
    obtain rfl := controller_eq hcontroller
    exact hnetwork

theorem sendAll_grows (stamp : Int64) (actions : List World.Action) (o : Client.Outbox) :
    o.line.Grows (sendAll stamp actions o).line := by
  unfold sendAll
  induction actions generalizing o with
  | nil => exact .refl o.line
  | cons action rest ih => exact (o.send_grows stamp stamp action).trans (ih _)

/-- **A join dials once, at the active version.** -/
theorem play_dialed (interrupt : Option Instant) (b : Bot) :
    b.remote.Dialed (Packet.handshake b.active b.config.endpoint.host b.config.endpoint.port .login)
      (b.play interrupt).2.remote ∧ (b.play interrupt).2.state = b.state := by
  unfold play
  rcases b.remote.login_cases b.config.endpoint b.active with
    ⟨error, hlogin, hdialed⟩ | ⟨hsome, inbound, more, line, hlogin, hopens⟩
  · rw [hlogin]
    exact ⟨hdialed, rfl⟩
  · rw [hlogin]
    refine ⟨Remote.dialed_of_opened hsome (.inl ?_), rfl⟩
    have hread := Client.Inbox.read_grows inbound .start line
    exact hopens.trans (hread.trans ((sendAll_grows _ _ (.start _)).trans (Client.Line.grows_close _)))

/-- What is agreed upon: the version is active and on record, and the server has accepted it last unless it
was on record before. -/
theorem negotiate_ok (now : UInt64) {o : Negotiation.Outcome} (h : (b.negotiate false now).1 = .ok o) :
    let met := (b.negotiate false now).2
    met.config = b.config ∧ met.active = o.version ∧
      (∃ r, Store.loadRecord met.state = .ok (some r) ∧ r.version = o.version) ∧
      ((o.source = .persisted ∧ b.asked now = [] ∧ met.state = b.state) ∨
        (o.source = .discovered ∧ ∃ earlier reply,
          b.asked now = earlier ++ [.connect b.config.endpoint o.version reply] ∧
          Negotiation.Trial.outcome b.config.negotiation.validated.trialTimeout reply = .success)) := by
  cases hcontroller : b.controller with
  | error e =>
    rw [negotiate, hcontroller] at h
    cases h
  | ok c =>
    rw [negotiate_eq false now hcontroller] at h ⊢
    have hok : (c.run false now).1 = .ok o := by
      cases hresult : (c.run false now).1 with
      | error e =>
        rw [hresult] at h
        cases h
      | ok found =>
        rw [hresult] at h
        cases h
        rfl
    have hran := Negotiation.Controller.run_ran false now c
    rw [hok] at hran
    obtain ⟨hrecord, hsource⟩ := hran.agreed
    have hactive := Negotiation.Controller.run_adopts false now c o hok
    have hstore : (c.run false now).2.store = Negotiation.replay (c.writes (.run false) now) c.store :=
      (Negotiation.Controller.perform_watched (.run false) now c).2.1
    have hasked : b.asked now = c.heard (.run false) now := by rw [asked, hcontroller]
    rw [← hstore] at hrecord
    rw [hasked]
    obtain rfl := controller_eq hcontroller
    refine ⟨rfl, hactive, hrecord, ?_⟩
    rcases hsource with ⟨hsource, hheard, hwrites⟩ | hsource
    · rw [hwrites] at hstore
      exact .inl ⟨hsource, hheard, hstore⟩
    · exact .inr hsource

/-- **A bot that gets past the negotiation joins at the version agreed upon.** Whatever the state directory
holds and whatever the server does:

* The negotiation dials once for each thing it asks, and what it opens by that, it opens with a handshake for
  that question.
* If it fails, this is all: nothing else is dialed.
* If it returns a version, the same is on record in the state directory then. Either it was before, and the
  server has been asked nothing, or the last thing asked was a login at this version, with success.
* Then this side dials once more, and what it opens by that, it opens with a handshake for a login. A server
  reads that version in it. The state directory stays as it is. -/
theorem run_joins (now : UInt64) (interrupt : Option Instant) (b : Bot) :
    let met := (b.negotiate false now).2
    let left := (b.run now interrupt).2
    let endpoint := b.config.endpoint
    (met.remote.dials = b.remote.dials.drop (b.asked now).length ∧
      ∃ opened, met.remote.lines = opened ++ b.remote.lines ∧ opened.length ≤ (b.asked now).length ∧
        ∀ line ∈ opened, ∃ x ∈ b.asked now, line.OpensWith x.handshake) ∧
    (∀ e, (b.negotiate false now).1 = .error e → b.run now interrupt = (.error e, met)) ∧
    ∀ o, (b.negotiate false now).1 = .ok o →
      (∃ r, Store.loadRecord met.state = .ok (some r) ∧ r.version = o.version) ∧
      ((o.source = .persisted ∧ b.asked now = [] ∧ met.state = b.state) ∨
        (o.source = .discovered ∧ ∃ earlier reply,
          b.asked now = earlier ++ [.connect endpoint o.version reply] ∧
          Negotiation.Trial.outcome b.config.negotiation.validated.trialTimeout reply = .success)) ∧
      let frame := Packet.handshake o.version endpoint.host endpoint.port .login
      met.remote.Dialed frame left.remote ∧ Packet.announced? frame = some o.version ∧
        left.state = met.state := by
  intro met left endpoint
  refine ⟨?_, fun e h => ?_, fun o h => ?_⟩
  · rw [show met.remote = _ from b.negotiate_remote now]
    exact ⟨Remote.hearing_dials .., Remote.hearing_lines ..⟩
  · have hmet : b.negotiate false now = (.error e, met) := Prod.ext h rfl
    rw [run, hmet]
  · obtain ⟨hconfig, hactive, hrecord, hsource⟩ := negotiate_ok now h
    have hmet : b.negotiate false now = (.ok o, met) := Prod.ext h rfl
    have hleft : left = (met.play interrupt).2 := by
      show (b.run now interrupt).2 = _
      rw [run, hmet]
    obtain ⟨hdialed, hstate⟩ := met.play_dialed interrupt
    rw [← hleft, show met.active = o.version from hactive, show met.config = b.config from hconfig] at hdialed
    exact ⟨hrecord, hsource, hdialed, Packet.announced?_handshake .., hleft ▸ hstate⟩

/-- A version on record, and a server that hangs up on the join. -/
theorem run_joins_recorded :
    let record : Negotiation.Record := ⟨771, 0, none⟩
    let remote : Remote := ⟨"", [.accepted [] false], .refused "gone", 0, []⟩
    let b := Bot.new .standard ⟨.file record.write, .absent, .absent⟩ remote
    (b.negotiate false 0).1 = .ok ⟨771, .persisted, 0⟩ ∧
      ∃ line, (b.run 0 none).2.remote.lines = [line] ∧
        [Packet.handshake 771 "localhost" 25565 .login] <+: line.sent := by
  intro record remote b
  let c := Negotiation.Controller.new b.state b.remote b.config.endpoint b.active b.config.negotiation
  have hload : Store.loadRecord c.store = .ok (some record) := by
    show Negotiation.StateDir.loadRecord ⟨.file record.write, .absent, .absent⟩ = _
    simp only [Negotiation.StateDir.loadRecord, record.read?_write]
  have hnegotiate := negotiate_eq (b := b) (c := c) false 0 rfl
  rw [Negotiation.Controller.run_of_loadRecord 0 c hload] at hnegotiate
  have hok : (b.negotiate false 0).1 = .ok ⟨771, .persisted, 0⟩ := congrArg Prod.fst hnegotiate
  have hmet : (b.negotiate false 0).2.remote = b.remote := congrArg (·.2.remote) hnegotiate
  obtain ⟨-, -, hjoins⟩ := run_joins 0 none b
  obtain ⟨-, -, hdialed, -, -⟩ := hjoins _ hok
  rw [hmet] at hdialed
  obtain ⟨line, hline, hlines⟩ := hdialed.opened rfl
  have hfits : (Packet.handshake 771 "localhost" 25565 .login).length ≤ Wire.Frame.maxSize := by
    decide +kernel
  exact ⟨hok, line, hlines, hline.resolve_right fun hlarge => Nat.not_lt.mpr hfits hlarge.1⟩

end Bot

end Pickaxe
