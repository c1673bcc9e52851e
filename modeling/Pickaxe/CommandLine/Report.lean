import Pickaxe.Bot.Basic
import Pickaxe.CommandLine.Arguments

/-! What an invocation comes to: the exit code and what is printed. One line for machines goes
to the standard output; whatever is for people goes to the standard error. -/
namespace Pickaxe.CommandLine

structure Report where
  exit : UInt32
  out : List String
  err : List String
deriving DecidableEq, Repr

namespace Report

def success : UInt32 := 0

def failure : UInt32 := 1

def misuse : UInt32 := 2

def versionLine : String := "quarry-bot 0.1.0"

def usage : List String :=
  ["Usage: quarry-bot [OPTIONS] <COMMAND>", "", "Commands:",
    "  negotiate  Find a protocol version the server accepts and save it",
    "  run        Negotiate unless a version is saved, then join and mine",
    "  ping       Print the server's version and status",
    "  help       Print this message", "", "Options:",
    "      --server <SERVER>        Server address, host or host:port",
    "      --username <USERNAME>    Offline-mode username",
    "      --state-dir <STATE_DIR>  Where the negotiated version and the attempts are kept",
    "  -h, --help                   Print help",
    "  -V, --version                Print version", "", "Options of negotiate:",
    "      --force                  Ignore the saved version and the attempts",
    "      --clean                  Delete the saved version and the attempts, then exit",
    "      --window <WINDOW>        How far around the reported version to look",
    "      --candidates <N>...      Fallback versions, in order, comma-separated", "",
    "Options of run:",
    "      --no-auto-mine           Wait for a command before mining"]

def ofStop : Stop → Report
  | .help => ⟨success, usage, []⟩
  | .version => ⟨success, [versionLine], []⟩
  | .misuse => ⟨misuse, [], usage⟩

/-- The lines of a text. A line feed at its end starts no line. -/
def lines (text : String) : List String :=
  let ls := text.splitOn "\n"
  if ls.getLast? = some "" then ls.dropLast else ls

/-- An error, with a word on what it stood in the way of. -/
def ofError (context : List String) (e : Bot.Error) : Report := match e with
  | .negotiation (.exhausted server reported tried) =>
    ⟨failure, [], lines (Negotiation.Error.exhausted server reported tried).remediation⟩
  | e => ⟨failure, [], lines (": ".intercalate ("error" :: context ++ [e.chain]))⟩

def ofPlayers (p : Server.Players) : List String :=
  [s!"  Players: {p.online.toInt}/{p.max.toInt}"]

def ofSample (p : Server.Players) : List String :=
  if p.sample = [] then []
  else "  Sample players:" :: p.sample.map fun q => s!"    - {q.name} ({q.id})"

/-- A status, and how long the answer took if that is known. -/
def ofStatus (s : Server.Status) (latency : Option Duration) : Report where
  exit := success
  out := lines s.line
  err := (["Server status:",
      s!"  Version: {s.versionName} (protocol {s.protocol.toInt})",
      s!"  MOTD: {s.motd}"] ++
    (s.players.map ofPlayers).getD [] ++
    (latency.map fun d => s!"  Latency: {d.text}").toList ++
    [s!"  Detected type: {s.modLoader.name}"] ++
    (s.players.map ofSample).getD []).flatMap lines

def ofOutcome (o : Negotiation.Outcome) : Report :=
  ⟨success, [s!"PROTOCOL={o.version.toInt}"], []⟩

def cleaned : Report := ⟨success, [], ["negotiation state removed"]⟩

def ofEnd : Play.End → Report
  | .stopped | .interrupted => ⟨success, [], []⟩
  | .connectionLost => ⟨failure, [], []⟩

end Report

/-- Does what is asked, at a time in seconds since 1970. There is no report of a session that
has no end. -/
def execute (i : Invocation) (now : UInt64) (interrupt : Option Instant)
    (state : Negotiation.StateDir) (remote : Bot.Remote) : Option Report × Bot :=
  let bot := Bot.new i.config state remote
  match i.request with
  | .ping => match bot.ping with
    | (.ok answer, bot) => (some (.ofStatus answer.status none), bot)
    | (.error e, bot) => (some (.ofError ["status ping failed"] e), bot)
  | .negotiate r =>
    if r.clean then match bot.clean with
      | (.ok (), bot) => (some .cleaned, bot)
      | (.error e, bot) => (some (.ofError [] e), bot)
    else match bot.negotiate r.force now with
      | (.ok outcome, bot) => (some (.ofOutcome outcome), bot)
      | (.error e, bot) => (some (.ofError [] e), bot)
  | .run _ => match bot.run now interrupt with
    | (.ok (some e), bot) => (some (.ofEnd e), bot)
    | (.ok none, bot) => (none, bot)
    | (.error e, bot) => (some (.ofError [] e), bot)

end Pickaxe.CommandLine
