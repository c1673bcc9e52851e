import Pickaxe.Client.Login
import Pickaxe.Proofs.Client.Hearing
import Pickaxe.Proofs.Packet.Answering
import Pickaxe.Proofs.Text.Lowercase

/-! The login exchange, over all that a server can send.

The exchange goes on behind some packets (`GoesOn`), and the first thing of another kind decides it
(`Decides`). Up to there each question is answered, in the layout that the frames before it call for
(`answers`). One step does so for a frame that goes on (`step_goesOn`) and ends for what decides
(`step_decides`), hence so does an exchange (`exchange_heard`, `exchange_decides`), and `login_exchange` is
about a whole login, with all that it sends as a server reads it. -/
namespace Pickaxe.Client.Login

open Negotiation (ConnectError)
open Packet (Conveys Sending Spoken Version)
open Packet.Login (Received)
open Server (Endpoint)
open Wire (Frame.Arrival Frame.layOut Frame.maxSize Frame.open? PacketError TransportError)

/-! ### What is told by the frames -/

/-- The threshold that a frame sets. -/
def threshold? (frame : List UInt8) : Option Int32 :=
  match Packet.Login.read.run frame with
  | .ok (.setCompression threshold) => some threshold
  | _ => none

/-- The layout behind these frames: the latest threshold counts, and a negative one stands for none. -/
def compressedAfter (frames : List (List UInt8)) : Bool :=
  (frames.filterMap threshold?).getLast?.any (0 ≤ ·)

/-- The answer to a question: it turns down what is asked for, by the number or the key of the question. -/
def reply? (frame : List UInt8) : Option Spoken :=
  match Packet.Login.read.run frame with
  | .ok (.pluginRequest id _) => some (.loginPlugin id)
  | .ok (.cookieRequest key) => some (.loginCookie key)
  | _ => none

/-- The answers to these frames, each with the layout that it goes out in. -/
def answers (frames : List (List UInt8)) : List Sending :=
  inTurn (fun before frame => (reply? frame).map (⟨compressedAfter before, ·⟩)) frames

/-- What a packet makes of the login, if it decides it. -/
inductive Verdict : Received → Except ConnectError Unit → Prop where
  | success (uuid : BitVec 128) (username : String) : Verdict (.success uuid username) (.ok ())
  | encryptionRequest :
    Verdict .encryptionRequest (.error (.rejected "server requires online-mode authentication"))
  | incompatible {reason : String} (h : Text.Says reason "outdated" ∨ Text.Says reason "incompatible") :
    Verdict (.disconnect reason) (.error (.incompatibleVersion reason))
  | rejected {reason : String} (h : ¬ (Text.Says reason "outdated" ∨ Text.Says reason "incompatible")) :
    Verdict (.disconnect reason) (.error (.rejected reason))

/-- Neither word has letters that are the lowercase of others than its own. -/
theorem mentions_iff_said (reason : String) :
    (Text.mentions (Text.lower reason) "outdated" ∨ Text.mentions (Text.lower reason) "incompatible") ↔
      (Text.Says reason "outdated" ∨ Text.Says reason "incompatible") :=
  or_congr (Text.mentions_lower_iff_said ⟨by simp, by simp⟩)
    (Text.mentions_lower_iff_said ⟨by simp, by simp⟩)

theorem refusal_of_either {reason : String} (h : Text.Says reason "outdated" ∨ Text.Says reason "incompatible") :
    refusal reason = .incompatibleVersion reason := by
  rw [refusal, if_pos (by simpa using (mentions_iff_said reason).mpr h)]

theorem refusal_of_neither {reason : String}
    (h : ¬ (Text.Says reason "outdated" ∨ Text.Says reason "incompatible")) :
    refusal reason = .rejected reason := by
  rw [refusal, if_neg (by simpa using mt (mentions_iff_said reason).mp h)]

theorem verdict_refusal (reason : String) :
    Verdict (.disconnect reason) (.error (refusal reason)) := by
  by_cases hwords : Text.Says reason "outdated" ∨ Text.Says reason "incompatible"
  · rw [refusal_of_either hwords]
    exact .incompatible hwords
  · rw [refusal_of_neither hwords]
    exact .rejected hwords

/-- A frame that decides nothing. -/
def GoesOn (frame : List UInt8) : Prop :=
  ∃ p, Packet.Login.read.run frame = .ok p ∧ ∀ result, ¬ Verdict p result

/-- What decides a login behind these frames, and how: the end of the stream, a break in it, a frame that
cannot be read, or a packet. -/
inductive Decides (frames : List (List UInt8)) :
    List Frame.Arrival → Except ConnectError Unit → Prop where
  | ended : Decides frames [] (.error (.connection "server closed the connection during login"))
  | broken (e : TransportError) (rest : List Frame.Arrival) :
    Decides frames (.error e :: rest) (.error (.connection e.message))
  | malformed {body : List UInt8} {e : TransportError}
      (hbody : Frame.open? (compressedAfter frames) body = some (.error e))
      (rest : List Frame.Arrival) : Decides frames (.ok body :: rest) (.error (.connection e.message))
  | unreadable {body frame : List UInt8} {e : PacketError}
      (hbody : Frame.open? (compressedAfter frames) body = some (.ok frame))
      (hframe : Packet.Login.read.run frame = .error e) (rest : List Frame.Arrival) :
    Decides frames (.ok body :: rest) (.error (.protocol e.message))
  | packet {body frame : List UInt8} {p : Received} {result : Except ConnectError Unit}
      (hbody : Frame.open? (compressedAfter frames) body = some (.ok frame))
      (hframe : Packet.Login.read.run frame = .ok p) (hverdict : Verdict p result)
      (rest : List Frame.Arrival) : Decides frames (.ok body :: rest) result

/-! ### One more frame -/

variable {frames : List (List UInt8)} {frame : List UInt8}

theorem compressedAfter_concat (frames : List (List UInt8)) (frame : List UInt8) :
    compressedAfter (frames ++ [frame]) =
      ((threshold? frame).map (decide <| 0 ≤ ·)).getD (compressedAfter frames) := by
  rw [compressedAfter, List.filterMap_append]
  cases hframe : threshold? frame with
  | none => simp [hframe, compressedAfter]
  | some threshold => simp [hframe]

theorem answers_concat (frames : List (List UInt8)) (frame : List UInt8) :
    answers (frames ++ [frame]) =
      answers frames ++ ((reply? frame).map (⟨compressedAfter frames, ·⟩)).toList :=
  inTurn_concat _ _ _

/-! ### What comes next -/

section Next

variable {before : List Frame.Arrival}

/-- Nothing that has come in so far decides, and these are its frames. -/
def Undecided (before : List Frame.Arrival) (frames : List (List UInt8)) : Prop :=
  Heard compressedAfter before frames ∧ ∀ frame ∈ frames, GoesOn frame

/-- What comes next decides, or it does not. -/
theorem Undecided.next (h : Undecided before frames) (a : Frame.Arrival) (rest : List Frame.Arrival) :
    (∃ result, Decides frames (a :: rest) result) ∨ ∃ frames, Undecided (before ++ [a]) frames := by
  rcases a with e | body
  · exact .inl ⟨_, .broken e rest⟩
  cases hbody : Frame.open? (compressedAfter frames) body with
  | none => exact .inr ⟨frames, h.1.passed hbody, h.2⟩
  | some arrival => cases arrival with
    | error e => exact .inl ⟨_, .malformed hbody rest⟩
    | ok frame => cases hframe : Packet.Login.read.run frame with
      | error e => exact .inl ⟨_, .unreadable hbody hframe rest⟩
      | ok p =>
        by_cases hverdict : ∃ result, Verdict p result
        · exact .inl ⟨_, .packet hbody hframe hverdict.choose_spec rest⟩
        · have hlast : GoesOn frame := ⟨p, hframe, not_exists.mp hverdict⟩
          exact .inr ⟨frames ++ [frame], h.1.frame hbody,
            List.forall_mem_append.mpr ⟨h.2, List.forall_mem_singleton.mpr hlast⟩⟩

end Next

/-! ### What is said to it -/

/-- The line has said the opening and the answers to these frames. -/
structure Told (opening frames : List (List UInt8)) (line : Line) : Prop where
  isOpen : line.closed = false
  compressed : line.compressed = compressedAfter frames
  sent : line.sent = opening ++ (answers frames).map Sending.body

/-- What is said first, in the plain layout: where and for which version the login is, and who asks. -/
def introduction (endpoint : Endpoint) (version : Version) (username : String) : List Sending :=
  [⟨false, .handshake version endpoint.host endpoint.port⟩, ⟨false, .loginStart username⟩]

/-- What is said when it is decided: that the player has been let in is acknowledged. -/
def parting (frames : List (List UInt8)) : Except ConnectError Unit → List Sending
  | .ok _ => [⟨compressedAfter frames, .loginAcknowledged⟩]
  | .error _ => []

/-- All answers are short. -/
theorem length_lt_of_reply? {p : Spoken} (h : reply? frame = some p) : p.frame.length < Frame.maxSize := by
  rw [reply?] at h
  cases hframe : Packet.Login.read.run frame with
  | error e => simp [hframe] at h
  | ok received =>
    rw [hframe] at h
    cases received with
    | pluginRequest id channel =>
      cases h
      exact Packet.length_numbers_lt 0x02 (by simp [Spoken.fields, Wire.Field.IsNumber]) (Nat.le_refl 2)
    | cookieRequest key =>
      cases h
      obtain ⟨rest, hread⟩ := Wire.Reader.run_eq_ok.mp hframe
      exact Packet.length_cookieResponse_lt 0x04 (Packet.Login.finds_key _ _ _ hread key rfl)
    | _ => cases h

theorem length_acknowledged_lt : Packet.Login.acknowledged.length < Frame.maxSize :=
  Packet.length_numbers_lt 0x03 (List.forall_mem_nil _) (by decide)

theorem length_lt_of_mem_parting {result : Except ConnectError Unit} {s : Sending}
    (h : s ∈ parting frames result) : s.packet.frame.length < Frame.maxSize := by
  cases result with
  | error e => cases h
  | ok =>
    obtain rfl := List.mem_singleton.mp h
    exact length_acknowledged_lt

theorem length_lt_of_mem_answers {s : Sending} (h : s ∈ answers frames) :
    s.packet.frame.length < Frame.maxSize := by
  obtain ⟨before, frame, hreply⟩ := exists_of_mem_inTurn h
  obtain ⟨p, hp, rfl⟩ := Option.map_eq_some_iff.mp hreply
  exact length_lt_of_reply? hp

section Step

variable {opening : List (List UInt8)} {line after : Line} {body : List UInt8} {p : Received}

/-- The line behind the answer to one more frame. -/
theorem Told.concat (h : Told opening frames line) (hopen : after.closed = false)
    (hcompressed : after.compressed = ((threshold? frame).map (decide <| 0 ≤ ·)).getD line.compressed)
    (hsent : after.sent = line.sent ++
      ((reply? frame).map (⟨line.compressed, ·⟩ : Spoken → Sending)).toList.map Sending.body) :
    Told opening (frames ++ [frame]) after where
  isOpen := hopen
  compressed := by rw [compressedAfter_concat, hcompressed, h.compressed]
  sent := by rw [answers_concat, List.map_append, hsent, h.sent, h.compressed, List.append_assoc]

/-- An answer goes out. -/
theorem Told.reply {p : Spoken} (h : Told opening frames line)
    (hthreshold : threshold? frame = none) (hreply : reply? frame = some p) :
    ∃ after, afterSending p.frame .waiting line = .waiting after ∧
      Told opening (frames ++ [frame]) after := by
  rw [afterSending, Line.send_of_short h.isOpen (length_lt_of_reply? hreply)]
  refine ⟨_, rfl, h.concat h.isOpen ?_ ?_⟩
  · rw [hthreshold]
    rfl
  · rw [hreply]
    exact line.sent_cons _

theorem compressed_setCompression (threshold : Int32) (l : Line) :
    (l.setCompression threshold).compressed = decide (0 ≤ threshold) := by
  rw [Line.compressed, Line.setCompression]
  by_cases h : threshold < 0
  · simp [h, Int32.not_le.mpr h]
  · simp [h, Int32.not_lt.mp h]

theorem step_of_run (h : Told opening frames line)
    (hbody : Frame.open? (compressedAfter frames) body = some (.ok frame))
    (hframe : Packet.Login.read.run frame = .ok p) :
    step (.ok body) line = match react p with
      | .ignore => .waiting line
      | .setCompression threshold => .waiting (line.setCompression threshold)
      | .reply answer => afterSending answer .waiting line
      | .accept answer => afterSending answer (.over (.ok ())) line
      | .refuse e => .over (.error e) line := by
  cases hreact : react p <;> simp only [step, h.compressed, hbody, reactTo, hframe, hreact]

/-- **A frame that decides nothing** is answered, and the login goes on. -/
theorem step_goesOn (h : Told opening frames line)
    (hbody : Frame.open? (compressedAfter frames) body = some (.ok frame)) (hgoes : GoesOn frame) :
    ∃ after, step (.ok body) line = .waiting after ∧ Told opening (frames ++ [frame]) after := by
  obtain ⟨p, hframe, hnone⟩ := hgoes
  rw [step_of_run h hbody hframe]
  cases p with
  | disconnect reason => exact absurd (verdict_refusal reason) (hnone _)
  | encryptionRequest => exact absurd .encryptionRequest (hnone _)
  | success uuid username => exact absurd (.success uuid username) (hnone _)
  | setCompression threshold =>
    refine ⟨_, rfl, h.concat h.isOpen ?_ ?_⟩
    · rw [compressed_setCompression, threshold?, hframe]
      rfl
    · rw [reply?, hframe]
      exact (List.append_nil _).symm
  | pluginRequest id channel =>
    exact h.reply (p := .loginPlugin id) (by rw [threshold?, hframe]) (by rw [reply?, hframe])
  | cookieRequest key =>
    exact h.reply (p := .loginCookie key) (by rw [threshold?, hframe]) (by rw [reply?, hframe])
  | other id =>
    refine ⟨_, rfl, h.concat h.isOpen ?_ ?_⟩
    · rw [threshold?, hframe]
      rfl
    · rw [reply?, hframe]
      exact (List.append_nil _).symm

theorem transportFailure_eq {e : TransportError} (h : ∀ address, e ≠ .connectTimeout address) :
    transportFailure e = .connection e.message := by
  cases e with
  | connectTimeout address => exact absurd rfl (h address)
  | _ => rfl

/-- **What decides** ends the login, and nothing is said to a refusal. -/
theorem step_decides {a : Frame.Arrival} {rest : List Frame.Arrival}
    {result : Except ConnectError Unit} (h : Told opening frames line)
    (hdecides : Decides frames (a :: rest) result)
    (htime : ∀ address, a ≠ .error (.connectTimeout address)) :
    ∃ after, step a line = .over result after ∧
      after.sent = opening ++ (answers frames ++ parting frames result).map Sending.body := by
  have hsilent : line.sent = opening ++ (answers frames ++ []).map Sending.body := by rw [h.sent, List.append_nil]
  cases hdecides with
  | broken e =>
    rw [step, transportFailure_eq fun address he => htime address (congrArg _ he)]
    exact ⟨line, rfl, hsilent⟩
  | malformed hbody =>
    obtain rfl := Wire.Frame.eq_malformedFrame_of_open? hbody
    refine ⟨line, ?_, hsilent⟩
    simp only [step, h.compressed, hbody, transportFailure]
  | unreadable hbody hframe =>
    refine ⟨line, ?_, hsilent⟩
    simp only [step, h.compressed, hbody, reactTo, hframe]
  | packet hbody hframe hverdict =>
    rw [step_of_run h hbody hframe]
    cases hverdict with
    | encryptionRequest => exact ⟨line, rfl, hsilent⟩
    | incompatible hwords =>
      rw [react, refusal_of_either hwords]
      exact ⟨line, rfl, hsilent⟩
    | rejected hwords =>
      rw [react, refusal_of_neither hwords]
      exact ⟨line, rfl, hsilent⟩
    | success uuid username =>
      simp only [react, afterSending, Line.send_of_short h.isOpen length_acknowledged_lt]
      refine ⟨_, rfl, ?_⟩
      rw [Line.sent_cons, h.sent, h.compressed, List.map_append, List.append_assoc]
      rfl

/-! ### The whole exchange -/

/-- **Up to what decides** all is answered. -/
theorem exchange_heard {before : List Frame.Arrival} (h : Undecided before frames)
    (hline : Told opening [] line) :
    ∃ after, Told opening frames after ∧
      ∀ rest, exchange (before ++ rest) line = exchange rest after := by
  obtain ⟨hheard, hgoes⟩ := h
  induction hheard with
  | nil => exact ⟨line, hline, fun _ => rfl⟩
  -- what came in last meets the line behind all before it, so the induction leaves the rest open
  | passed _ hbody ih =>
    obtain ⟨after, htold, hexchange⟩ := ih hgoes
    refine ⟨after, htold, fun rest => ?_⟩
    rw [List.append_assoc, hexchange]
    simp only [List.singleton_append, exchange, step, htold.compressed, hbody]
  | frame _ hbody ih =>
    obtain ⟨hbefore, hlast⟩ := List.forall_mem_append.mp hgoes
    obtain ⟨middle, htold, hexchange⟩ := ih hbefore
    obtain ⟨after, hstep, hafter⟩ := step_goesOn htold hbody (hlast _ List.mem_cons_self)
    refine ⟨after, hafter, fun rest => ?_⟩
    rw [List.append_assoc, hexchange, List.singleton_append, exchange, hstep]

/-- **What decides, decides alone.** -/
theorem exchange_decides {rest : List Frame.Arrival} {result : Except ConnectError Unit}
    (h : Told opening frames line) (hdecides : Decides frames rest result)
    (htime : ∀ address, .error (.connectTimeout address) ∉ rest) :
    (exchange rest line).result = result ∧
      (exchange rest line).line.sent = opening ++ (answers frames ++ parting frames result).map Sending.body := by
  rcases rest with _ | ⟨a, rest⟩
  · cases hdecides
    exact ⟨rfl, by rw [exchange, h.sent, parting, List.append_nil]⟩
  · obtain ⟨after, hstep, hsent⟩ := step_decides h hdecides fun address ha =>
      htime address (ha ▸ List.mem_cons_self)
    rw [exchange, hstep]
    exact ⟨rfl, hsent⟩

end Step

variable {endpoint : Endpoint} {version : Version} {username : String}

theorem map_body_introduction (endpoint : Endpoint) (version : Version) (username : String) :
    (introduction endpoint version username).map Sending.body = opening endpoint version username := rfl

theorem length_le_of_mem_introduction
    (hopening : ∀ frame ∈ opening endpoint version username, frame.length ≤ Frame.maxSize)
    {s : Sending} (h : s ∈ introduction endpoint version username) :
    s.packet.frame.length ≤ Frame.maxSize := by
  refine hopening _ ?_
  simp only [introduction, List.mem_cons, List.not_mem_nil, or_false] at h
  obtain rfl | rfl := h
  · exact List.mem_cons_self
  · exact List.mem_cons_of_mem _ List.mem_cons_self

/-- The opening goes out as it is. -/
theorem run_of_opening
    (hopening : ∀ frame ∈ opening endpoint version username, frame.length ≤ Frame.maxSize)
    (inbound : List Frame.Arrival) : ∃ line, Told (opening endpoint version username) [] line ∧
      run endpoint version username inbound = exchange inbound line := by
  refine ⟨_, ?_, by rw [run, Line.sendAll_of_le rfl hopening]⟩
  exact ⟨rfl, rfl, rfl⟩

/-- **A login**, with any server. Let the opening be short enough to be sent, and let the connection be
there, so that it does not fail by the time it takes to connect. Then:

* Behind what comes in first there comes something that decides, if only the end of the stream.
* It alone says what the result is. This is a success if it is a packet that says so. A packet with a
  reason, which is taken as plain text, stands for a wrong version or for another refusal, and a request
  for encryption stands for a refusal. A frame that cannot be read is against the protocol, and the end of
  the stream or a break in it is a failure of the connection.
* What is sent is the handshake of this version and the name, then an answer to each question before that,
  in turn and with the number or the key that the question has, and at last, if the login is a success,
  that this has been seen. Each is one body, in which a server reads it.
* The opening is in the plain layout. Everything else is in the layout of the latest threshold before it,
  and so is what comes in. -/
theorem login_exchange
    (hopening : ∀ frame ∈ opening endpoint version username, frame.length ≤ Frame.maxSize)
    {inbound : List Frame.Arrival}
    (htime : ∀ address, .error (.connectTimeout address) ∉ inbound) :
    let outcome := run endpoint version username inbound
    (∃ before rest frames, inbound = before ++ rest ∧ Undecided before frames ∧
      ∃ result, Decides frames rest result) ∧
    ∀ before rest frames result, inbound = before ++ rest → Undecided before frames →
      Decides frames rest result → outcome.result = result ∧
        List.Forall₂ Conveys outcome.line.sent
          (introduction endpoint version username ++ (answers frames ++ parting frames result)) := by
  obtain ⟨line, hline, hrun⟩ := run_of_opening hopening inbound
  refine ⟨?_, fun before rest frames result hinbound hopen hdecides => ?_⟩
  · have hnothing : Undecided [] [] := ⟨.nil, List.forall_mem_nil _⟩
    exact exists_end (fun _ => ⟨_, .ended⟩) (fun a rest h => h.next a rest) hnothing inbound
  · subst hinbound
    obtain ⟨after, hafter, hexchange⟩ := exchange_heard hopen hline
    obtain ⟨hresult, hsent⟩ := exchange_decides hafter hdecides fun address hmem =>
      htime address (List.mem_append_right _ hmem)
    rw [hrun, hexchange]
    refine ⟨hresult, ?_⟩
    rw [hsent, ← map_body_introduction, ← List.map_append]
    refine Packet.conveys_map fun s hs => ?_
    rcases List.mem_append.mp hs with hfirst | hlater
    · exact length_le_of_mem_introduction hopening hfirst
    rcases List.mem_append.mp hlater with hanswer | hparting
    · exact Nat.le_of_lt (length_lt_of_mem_answers hanswer)
    · exact Nat.le_of_lt (length_lt_of_mem_parting hparting)

/-- A server that turns compression on, asks for a cookie behind a body that is compressed, and then lets
the player in. -/
theorem login_exchange_success :
    let threshold : List UInt8 := [0x03, 64]
    let cookie : List UInt8 := [0x05, 3, 0x61, 0x3A, 0x63]
    let success : List UInt8 := 0x02 :: List.replicate 16 0 ++ [1, 0x6D]
    let inbound : List Frame.Arrival :=
      [.ok threshold, .ok [100, 1, 2], .ok (0 :: cookie), .ok (0 :: success)]
    let outcome := run ⟨"mc.test", 25565⟩ 767 "m" inbound
    (∀ frame ∈ opening ⟨"mc.test", 25565⟩ 767 "m", frame.length ≤ Frame.maxSize) ∧
      (∀ address, .error (.connectTimeout address) ∉ inbound) ∧ outcome.result = .ok () ∧
      outcome.line.sent = [[0x00, 0xFF, 0x05, 7, 0x6D, 0x63, 0x2E, 0x74, 0x65, 0x73, 0x74, 0x63, 0xDD, 2],
        0x00 :: 1 :: 0x6D :: List.replicate 16 0, [0, 0x04, 3, 0x61, 0x3A, 0x63, 0], [0, 0x03]] := by
  have hopening : ∀ frame ∈ opening ⟨"mc.test", 25565⟩ 767 "m", frame.length ≤ Frame.maxSize := by
    decide +kernel
  have hthreshold : GoesOn [0x03, 64] := ⟨.setCompression 64, rfl, nofun⟩
  have hcookie : GoesOn [0x05, 3, 0x61, 0x3A, 0x63] := ⟨.cookieRequest "a:c", rfl, nofun⟩
  have hone : Heard compressedAfter [.ok [0x03, 64]] [[0x03, 64]] := .frame .nil rfl
  have htwo : Heard compressedAfter [.ok [0x03, 64], .ok [100, 1, 2]] [[0x03, 64]] := .passed hone rfl
  have hthree : Heard compressedAfter
      [.ok [0x03, 64], .ok [100, 1, 2], .ok [0, 0x05, 3, 0x61, 0x3A, 0x63]]
      [[0x03, 64], [0x05, 3, 0x61, 0x3A, 0x63]] := .frame htwo rfl
  have hsuccess : Decides [[0x03, 64], [0x05, 3, 0x61, 0x3A, 0x63]]
      [.ok (0 :: 0x02 :: List.replicate 16 0 ++ [1, 0x6D])] (.ok ()) :=
    .packet rfl rfl (.success 0 "m") []
  have hsaid : introduction ⟨"mc.test", 25565⟩ 767 "m" ++
      (answers [[0x03, 64], [0x05, 3, 0x61, 0x3A, 0x63]] ++
        parting [[0x03, 64], [0x05, 3, 0x61, 0x3A, 0x63]] (.ok ())) =
      [⟨false, .handshake 767 "mc.test" 25565⟩, ⟨false, .loginStart "m"⟩, ⟨true, .loginCookie "a:c"⟩,
        ⟨true, .loginAcknowledged⟩] := rfl
  intro threshold cookie success inbound outcome
  have htime : ∀ address, .error (.connectTimeout address) ∉ inbound := by simp [inbound]
  have hinbound : inbound =
      [.ok threshold, .ok [100, 1, 2], .ok (0 :: cookie)] ++ [.ok (0 :: success)] := rfl
  have hgoes := List.forall_mem_cons.mpr ⟨hthreshold, List.forall_mem_singleton.mpr hcookie⟩
  obtain ⟨hresult, hsent⟩ :=
    (login_exchange hopening htime).2 _ _ _ _ hinbound ⟨hthree, hgoes⟩ hsuccess
  rw [hsaid] at hsent
  refine ⟨hopening, htime, hresult, ?_⟩
  rw [Packet.eq_map_body hsent]
  decide +kernel

end Pickaxe.Client.Login
