import Pickaxe.Bot.Remote
import Pickaxe.Proofs.Client.Login
import Pickaxe.Proofs.Component
import Pickaxe.Proofs.Packet.Layout
import Pickaxe.Proofs.Text.Lowercase

/-! Servers that turn the bot away for its version.

A server gives its reason as a component in JSON, and it counts as a wrong version if one of its words says so.
Whatever the component shows is in the flattened reason, in one piece, and a word of ASCII stays in one piece in
the lowercase reason. So none of these words is missed, wherever it stands in the component
(`mismatch_recognised`), if that can be parsed. One that is nested too deep cannot (`deep_mismatch_missed`). -/
namespace Pickaxe

open Text (Says)

/-! ### The frame -/

namespace Packet.Login

open Wire

/-- A disconnect with this text for its reason, whatever comes behind it. -/
def Disconnects (frame : List UInt8) (raw : String) : Prop :=
  ∃ left rest, Reader.varint frame = (.ok 0x00, left) ∧ Reader.text maxText left = (.ok raw, rest)

theorem Disconnects.run_read {frame : List UInt8} {raw : String} (h : Disconnects frame raw) :
    read.run frame = .ok (.disconnect (plainReason raw)) := by
  obtain ⟨left, rest, hid, htext⟩ := h
  exact Reader.run_eq_ok.mpr ⟨rest, Reader.bind_eq_ok.mpr ⟨0x00, left, hid, Reader.bind_eq_ok.mpr
    ⟨raw, rest, htext, rfl⟩⟩⟩

theorem disconnects_packet {raw : String} (h : raw.length ≤ maxText) : Disconnects (packet 0x00 [.text raw]) raw := by
  have hfields : packet 0x00 [.text raw] = Varint.encode 0x00 ++ ((Field.text raw).encode ++ []) := by
    rw [packet, List.flatMap_singleton, List.append_nil]
  rw [hfields]
  exact ⟨_, [], Reader.reads_varint 0x00 _, Said.reads_maxText h []⟩

end Packet.Login

/-! ### The login -/

namespace Client.Login

open Negotiation (ConnectError)
open Packet.Login (Received)
open Wire (Frame.Arrival Frame.maxSize Frame.open?)

/-- The words of a server that stand for a wrong version. -/
def mismatchWords : List String := ["outdated", "incompatible"]

theorem mem_mismatchWords {word : String} : word ∈ mismatchWords ↔ word = "outdated" ∨ word = "incompatible" := by
  simp [mismatchWords]

theorem refusal_of_said {reason word : String} (hword : word ∈ mismatchWords) (h : Says reason word) :
    refusal reason = .incompatibleVersion reason := by
  obtain rfl | rfl := mem_mismatchWords.mp hword
  · exact refusal_of_either (.inl h)
  · exact refusal_of_either (.inr h)

theorem refusal_of_forall_not_said {reason : String} (h : ∀ word ∈ mismatchWords, ¬ Says reason word) :
    refusal reason = .rejected reason :=
  refusal_of_neither (not_or.mpr ⟨h _ (mem_mismatchWords.mpr (.inl rfl)), h _ (mem_mismatchWords.mpr (.inr rfl))⟩)

variable {endpoint : Server.Endpoint} {version : Packet.Version} {username : String}

/-- A packet that refuses ends a login with its error, whatever comes behind it. -/
theorem run_refused
    (hopening : ∀ frame ∈ opening endpoint version username, frame.length ≤ Frame.maxSize)
    {before : List Frame.Arrival} {frames : List (List UInt8)} (hopen : Undecided before frames)
    {body frame : List UInt8} (hbody : Frame.open? (compressedAfter frames) body = some (.ok frame))
    {p : Received} (hframe : Packet.Login.read.run frame = .ok p) {e : ConnectError}
    (hverdict : Verdict p (.error e)) (rest : List Frame.Arrival) :
    (run endpoint version username (before ++ .ok body :: rest)).result = .error e := by
  obtain ⟨line, hline, hrun⟩ := run_of_opening hopening (before ++ .ok body :: rest)
  obtain ⟨middle, hmiddle, hexchange⟩ := exchange_heard hopen hline
  have hdecides : Decides frames (.ok body :: rest) (.error e) := .packet hbody hframe hverdict rest
  obtain ⟨after, hstep, -⟩ := step_decides hmiddle hdecides nofun
  rw [hrun, hexchange, exchange, hstep]

end Client.Login

/-! ### The connection -/

namespace Bot.Remote

open Client.Login (Undecided compressedAfter mismatchWords opening)
open Json (Document)
open Packet.Login (Disconnects)
open Wire (Frame.Arrival Frame.maxSize Frame.open?)

theorem tryVersion_of_result {r : Remote} {endpoint : Server.Endpoint} {version : Packet.Version}
    {inbound : List Frame.Arrival} {more : Bool} {e : Negotiation.ConnectError}
    (hdial : r.dial.1 = .accepted inbound more)
    (hresult : (Client.Login.run endpoint version r.username inbound).result = .error e) :
    (r.tryVersion endpoint version).1 = .error e := by
  have hname : r.dial.2.username = r.username := by
    unfold dial
    cases r.dials <;> rfl
  have hconnect : r.connect endpoint = (.ok (inbound, more), r.dial.2) := by
    unfold connect
    generalize r.dial = dialed at hdial
    obtain ⟨d, after⟩ := dialed
    obtain rfl : d = .accepted inbound more := hdial
    rfl
  simp only [tryVersion, login, hconnect, hname, hresult]

section
variable (r : Remote) (endpoint : Server.Endpoint) (version : Packet.Version)
  (hopening : ∀ frame ∈ opening endpoint version r.username, frame.length ≤ Frame.maxSize)
  {before rest : List Frame.Arrival} {body : List UInt8} {more : Bool}
  (hdial : r.dial.1 = .accepted (before ++ .ok body :: rest) more)
  {frames : List (List UInt8)} (hopen : Undecided before frames) {frame : List UInt8}
  (hbody : Frame.open? (compressedAfter frames) body = some (.ok frame)) {raw : String}
  (hframe : Disconnects frame raw)
include hopening hdial hopen hbody hframe

/-- A server that turns this side away decides what becomes of the attempt. -/
theorem tryVersion_of_disconnects :
    (r.tryVersion endpoint version).1 = .error (Client.Login.refusal (Packet.Login.plainReason raw)) :=
  tryVersion_of_result hdial (Client.Login.run_refused hopening hopen hbody hframe.run_read
    (Client.Login.verdict_refusal _) rest)

/-- **A wrong version is recognised.** Let the opening be short enough to be sent, and let the server turn this
side away when nothing is decided yet, in a frame of any layout. If its reason is a component in JSON, with no more
than 127 containers around one another, then:

* if a string that the component shows says one of the words in any case of ASCII, the attempt fails for the
  version, with the flattened component for its reason;
* flattened, the component has all strings that it shows, each in one piece, in the order of its parts;
* what these strings say in any case, the lowercase reason says in lowercase.

A reason that cannot be parsed is taken as it is written, and the words count where they are written. -/
theorem mismatch_recognised :
    (∀ document component, Document.read? (Text.Utf8.encode raw) = some document →
      document.depth ≤ Json.maxDepth → document.value? document.depth = some component →
      let reason := Component.flatten component
      (∀ s, Component.Shows component s → ∀ word ∈ mismatchWords, Says s word →
        (r.tryVersion endpoint version).1 = .error (.incompatibleVersion reason)) ∧
      Component.InOrder (Component.strings component) reason ∧
      (∀ s, s ∈ Component.strings component ↔ Component.Shows component s) ∧
      ∀ s, Component.Shows component s → ∀ word : String, (∀ c ∈ word.toList, c.toNat < 0x80) → Says s word →
        Text.mentions (Text.lower reason) word = true) ∧
    (Json.parse? (Text.Utf8.encode raw) = none → ∀ word ∈ mismatchWords, Says raw word →
      (r.tryVersion endpoint version).1 = .error (.incompatibleVersion raw)) := by
  have hfails {reason word : String} (hplain : Packet.Login.plainReason raw = reason) (hmem : word ∈ mismatchWords)
      (hword : Says reason word) : (r.tryVersion endpoint version).1 = .error (.incompatibleVersion reason) := by
    rw [tryVersion_of_disconnects r endpoint version hopening hdial hopen hbody hframe, hplain,
      Client.Login.refusal_of_said hmem hword]
  refine ⟨fun document component hdocument hdepth hvalue => ?_, fun hparse word hmem hword => ?_⟩
  · have hparse : Json.parse? (Text.Utf8.encode raw) = some component := by
      rw [Json.parse?_eq hdocument, if_pos hdepth, hvalue]
    have hplain : Packet.Login.plainReason raw = Component.flatten component := by
      rw [Packet.Login.plainReason, hparse]
    have hinorder : Component.InOrder (Component.strings component) (Component.flatten component) :=
      Component.inOrder_flatten (Json.sorted_of_parse? hparse)
    have hsaid (s word : String) (hs : Component.Shows component s) (hword : Says s word) :
        Says (Component.flatten component) word :=
      hword.of_infix (hinorder.infix_of_mem (Component.mem_strings_iff.mpr hs))
    exact ⟨fun s hs word hmem hword => hfails hplain hmem (hsaid s word hs hword), hinorder,
      fun s => Component.mem_strings_iff, fun s hs word hascii hword => (hsaid s word hs hword).lower hascii⟩
  · have hplain : Packet.Login.plainReason raw = raw := by rw [Packet.Login.plainReason, hparse]
    exact hfails hplain hmem hword

end

/-- A server that turns compression on and then has its reason in a key behind a text. -/
theorem mismatch_recognised_translated :
    let raw := "\x7b\"text\":\"Bye: \",\"extra\":[\x7b\"translate\":\"disconnect.OutDated\"\x7d]\x7d"
    let component : Json := .object [("extra", .array [.object [("translate", .text "disconnect.OutDated")]]),
      ("text", .text "Bye: ")]
    let frame := Wire.packet 0x00 [.text raw]
    let inbound : List Frame.Arrival := [.ok [0x03, 64], .ok (0 :: frame)]
    let r : Remote := ⟨"m", [.accepted inbound false], .timedOut, 0, []⟩
    (∀ frame ∈ opening ⟨"mc.test", 25565⟩ 767 r.username, frame.length ≤ Frame.maxSize) ∧
      Undecided [.ok [0x03, 64]] [[0x03, 64]] ∧ Disconnects frame raw ∧
      Json.parse? (Text.Utf8.encode raw) = some component ∧
      Component.Shows component "disconnect.OutDated" ∧ Says "disconnect.OutDated" "outdated" ∧
      (r.tryVersion ⟨"mc.test", 25565⟩ 767).1 = .error (.incompatibleVersion "Bye: disconnect.OutDated") := by
  intro raw component frame inbound r
  have hopening : ∀ frame ∈ opening ⟨"mc.test", 25565⟩ 767 r.username, frame.length ≤ Frame.maxSize := by
    decide +kernel
  have hgoes : Client.Login.GoesOn [0x03, 64] := ⟨.setCompression 64, rfl, nofun⟩
  have hopen : Undecided [.ok [0x03, 64]] [[0x03, 64]] :=
    ⟨.frame .nil rfl, List.forall_mem_singleton.mpr hgoes⟩
  have hframe : Disconnects frame raw := Packet.Login.disconnects_packet (by decide +kernel)
  have hdial : r.dial.1 = .accepted ([.ok [0x03, 64]] ++ .ok (0 :: frame) :: []) false := rfl
  obtain ⟨hshown, -⟩ := mismatch_recognised r ⟨"mc.test", 25565⟩ 767 hopening hdial hopen rfl hframe
  let document : Document := .object [(Json.glyphs "text", .text (Json.glyphs "Bye: ")),
    (Json.glyphs "extra", .array [.object [(Json.glyphs "translate", .text (Json.glyphs "disconnect.OutDated"))]])]
  have hdocument : Document.read? (Text.Utf8.encode raw) = some document := rfl
  have hdepth : document.depth = 3 := rfl
  have hvalue : document.value? document.depth = some component := rfl
  obtain ⟨hrecognised, -⟩ := hshown document component hdocument (hdepth ▸ by decide) hvalue
  have hshows : Component.Shows component "disconnect.OutDated" := .extra (List.mem_singleton.mpr rfl) (.key rfl)
  have hsaid : Says "disconnect.OutDated" "outdated" :=
    ⟨"OutDated".toList, ⟨"disconnect.".toList, [], by decide⟩, by decide⟩
  refine ⟨hopening, hopen, hframe, rfl, hshows, hsaid, ?_⟩
  rw [hrecognised "disconnect.OutDated" hshows "outdated" List.mem_cons_self hsaid]
  rfl

/-- A component that shows a word with its first letter by number, inside one array more than the parser takes.
Its reason is taken as it is written, where the word is not. -/
theorem deep_mismatch_missed :
    let written := List.replicate 128 '[' ++ "\"\\u006futdated\"".toList ++ List.replicate 128 ']'
    let raw := String.ofList written
    let document := (Document.text (.unit 0x6F :: (Text.Utf8.encode "utdated").map .byte)).boxed 128
    let component := (Json.text "outdated").boxed 128
    let inbound : List Frame.Arrival := [.ok (Wire.packet 0x00 [.text raw])]
    let r : Remote := ⟨"m", [.accepted inbound false], .timedOut, 0, []⟩
    Document.read? (Text.Utf8.encode raw) = some document ∧ document.depth = Json.maxDepth + 1 ∧
      document.value? document.depth = some component ∧
      Component.Shows component "outdated" ∧ Says "outdated" "outdated" ∧
      (r.tryVersion ⟨"mc.test", 25565⟩ 767).1 = .error (.rejected raw) := by
  intro written raw document component inbound r
  have htoList : raw.toList = written := String.toList_ofList
  have hdocument : Document.read? (Text.Utf8.encode raw) = some document := by
    have hword : Json.Scanner.Closes (Text.Utf8.encode "\"\\u006futdated\"")
        (.text (.unit 0x6F :: (Text.Utf8.encode "utdated").map .byte)) := fun stack => rfl
    have hbytes : Text.Utf8.encode raw =
        List.replicate 128 0x5B ++ Text.Utf8.encode "\"\\u006futdated\"" ++ List.replicate 128 0x5D := by
      rw [Text.Utf8.encode_eq, htoList]
      decide +kernel
    rw [hbytes]
    exact Json.read?_of_closes (hword.boxed ⟨_, _, rfl, by decide, by decide⟩ 128).1
  have hdepth : document.depth = Json.maxDepth + 1 := Json.depth_boxed _ 128
  have hvalue : document.value? document.depth = some component := by
    rw [hdepth]
    exact Json.value?_boxed _ 0 128
  have hopening : ∀ frame ∈ opening ⟨"mc.test", 25565⟩ 767 r.username, frame.length ≤ Frame.maxSize := by
    decide +kernel
  have hframe : Disconnects (Wire.packet 0x00 [.text raw]) raw := by
    have hlength : raw.length ≤ Packet.maxText := by
      rw [String.length_ofList]
      decide +kernel
    exact Packet.Login.disconnects_packet hlength
  have hplain : Packet.Login.plainReason raw = raw := by
    rw [Packet.Login.plainReason, Json.parse?_eq hdocument, hdepth, if_neg (Nat.not_succ_le_self _)]
  have hsilent : ∀ word ∈ mismatchWords, ¬ Says raw word := by
    simp only [Text.says_iff, htoList]
    decide +kernel
  have hdial : r.dial.1 = .accepted ([] ++ .ok (Wire.packet 0x00 [.text raw]) :: []) false := rfl
  refine ⟨hdocument, hdepth, hvalue, (Component.Shows.text _).boxed 128, ⟨_, List.infix_rfl, by decide⟩, ?_⟩
  rw [tryVersion_of_disconnects r ⟨"mc.test", 25565⟩ 767 hopening hdial ⟨.nil, List.forall_mem_nil _⟩ rfl hframe,
    hplain, Client.Login.refusal_of_forall_not_said hsilent]

end Bot.Remote

end Pickaxe
