import Pickaxe.Proofs.Packet.Reading
import Pickaxe.Proofs.Wire.Field

/-! What servers say.

`Said` lists the packets that are known here, with all that a server puts into them and this side reads or
passes over, `Said.layout` is the table of their numbers and fields, and `Said.meaning` says what this side
makes of each. `packets_understood` says that it does, and that a number that is not in the table is told
from all that are. What lies too deep is left out of it (`deep_components_unread`). -/
namespace Pickaxe

open Wire Reader

/-! ### Values in network NBT -/

namespace Nbt

/-- The bytes of a value: a tree, or no value. -/
def written : Option Tree → List UInt8
  | none => [0]
  | some t => t.kind :: t.payload

def shown : Option Tree → Json
  | none => .null
  | some t => t.json

/-- Lengths fit in their fields, and nothing lies deeper than at depth 64. -/
def Readable (v : Option Tree) : Prop := ∀ t ∈ v, t.Lawful ∧ t.height ≤ 64

theorem reads_written {v : Option Tree} (h : Readable v) : read.Reads (written v) (shown v) := by
  cases v with
  | none => exact takes_read.reads (.inl ⟨rfl, rfl⟩)
  | some t =>
    obtain ⟨hlawful, hheight⟩ := h t rfl
    exact takes_read.reads (.inr ⟨t, hlawful, hheight, rfl, rfl⟩)

/-! ### Values that lie too deep -/

variable {t : Tree}

/-- A tree in so many lists of one item. -/
def nest : Nat → Tree → Tree
  | 0, t => t
  | n + 1, t => .list (nest n t).kind 1 [nest n t]

theorem lawful_nest (h : t.Lawful) (n : Nat) : (nest n t).Lawful := by
  induction n with
  | zero => exact h
  | succ n ih =>
    refine .list (by decide) (Tree.kind_ne_zero _) rfl ?_ ?_
    · exact List.forall_mem_singleton.mpr rfl
    · exact List.forall_mem_singleton.mpr ih

theorem height_nest (n : Nat) (t : Tree) : (nest n t).height = n + t.height := by
  induction n with
  | zero => exact (Nat.zero_add _).symm
  | succ n ih =>
    rw [nest, Tree.height, List.map_singleton, List.foldr_cons, List.foldr_nil, Nat.max_zero, ih]
    omega

/-- Lists show what is in them. -/
theorem flatten_nest (n : Nat) (t : Tree) :
    Component.flatten (nest n t).json = Component.flatten t.json := by
  induction n with
  | zero => rfl
  | succ n ih =>
    rw [nest, Tree.json, List.map_singleton, Component.flatten, Component.flattened, ih]
    simp [Component.flattened, String.join]

/-- As many lists as levels are one too many for what is in them. -/
theorem payload_nest (n : Nat) (t : Tree) (rest : List UInt8) :
    (payload n (nest n t).kind).run ((nest n t).payload ++ rest) =
      .error (.invalidNbt "nesting too deep") := by
  induction n with
  | zero => rfl
  | succ n ih =>
    have hpayload : (nest (n + 1) t).payload ++ rest = (Field.u8 (nest n t).kind).encode ++
        ((Field.i32 1).encode ++ ((nest n t).payload ++ rest)) := by
      rw [nest, Tree.payload, List.flatMap_singleton, List.append_assoc]
      rfl
    rw [hpayload]
    refine ((reads_u8 _).run_bind _ _).trans (((reads_i32 1).run_bind _ _).trans ?_)
    rw [if_neg (not_or.mpr ⟨by decide, Tree.kind_ne_zero _⟩)]
    exact run_bind_of_error (run_bind_of_error ih _) _

end Nbt

/-- The visible text of a value. -/
def Component.visibleText (v : Option Nbt.Tree) : String := flatten (Nbt.shown v)

namespace Packet

open Component (visibleText)

/-! ### The packets -/

/-- What a server says in a state of the protocol. Floating-point numbers are bits. -/
inductive Said : State → Type where
  /-- The status document. -/
  | document (json : String) : Said .status
  | pong (payload : Int64) : Said .status
  /-- A disconnect, for a reason that is a component in JSON. -/
  | refusal (raw : String) (reason : Json) : Said .login
  /-- A disconnect, for a reason that is no JSON. -/
  | plainRefusal (reason : String) : Said .login
  | encryptionRequest : Said .login
  | success (uuid : BitVec 128) (username : String) : Said .login
  | setCompression (threshold : Int32) : Said .login
  | pluginRequest (id : Int32) (channel : String) : Said .login
  | loginCookieRequest (key : String) : Said .login
  | cookieRequest (key : String) : Said .configuration
  /-- A disconnect before the game. -/
  | dismissal (reason : Option Nbt.Tree) : Said .configuration
  | finish : Said .configuration
  /-- Before the game a sign of life has another number. -/
  | earlyKeepAlive (id : Int64) : Said .configuration
  | earlyPing (id : Int32) : Said .configuration
  | knownPacks : Said .configuration
  | disconnect (reason : Option Nbt.Tree) : Said .play
  /-- A line from nobody in particular. -/
  | disguisedChat (line : Option Nbt.Tree) : Said .play
  | keepAlive (id : Int64) : Said .play
  | login (entity : Int32) : Said .play
  | ping (id : Int32) : Said .play
  | playerChat (sender : BitVec 128) (index : Int32) (signature : Option (Vector UInt8 Play.signatureSize))
      (line : String) : Said .play
  | combatDeath (player : Int32) (message : Option Nbt.Tree) : Said .play
  | syncPosition (x y z : UInt64) (yaw pitch : UInt32) (relative : UInt8) (id : Int32) : Said .play
  | setHealth (health : UInt32) (food : Int32) (saturation : UInt32) : Said .play
  | systemChat (line : Option Nbt.Tree) : Said .play
  /-- The packet of `systemChat` with an overlay, which is no chat. -/
  | actionBar (line : Option Nbt.Tree) (overlay : UInt8) : Said .play

namespace Said

variable {s : State}

def float (bits : UInt32) : Field := .bytes (bigEndianBytes 4 bits.toNat)

def double (bits : UInt64) : Field := .bytes (bigEndianBytes 8 bits.toNat)

def component (v : Option Nbt.Tree) : Field := .bytes (Nbt.written v)

/-- The number of a packet and its fields, in their order. -/
def layout : {s : State} → Said s → Int32 × List Field
  | _, document json => (0x00, [.text json])
  | _, pong payload => (0x01, [.i64 payload])
  | _, refusal raw _ => (0x00, [.text raw])
  | _, plainRefusal reason => (0x00, [.text reason])
  | _, encryptionRequest => (0x01, [])
  | _, success uuid username => (0x02, [.uuid uuid, .text username])
  | _, setCompression threshold => (0x03, [.varint threshold])
  | _, pluginRequest id channel => (0x04, [.varint id, .text channel])
  | _, loginCookieRequest key => (0x05, [.text key])
  | _, cookieRequest key => (0x00, [.text key])
  | _, dismissal reason => (0x02, [component reason])
  | _, finish => (0x03, [])
  | _, earlyKeepAlive id => (0x04, [.i64 id])
  | _, earlyPing id => (0x05, [.i32 id])
  | _, knownPacks => (0x0E, [])
  | _, disconnect reason => (0x1D, [component reason])
  | _, disguisedChat line => (0x1E, [component line])
  | _, keepAlive id => (0x26, [.i64 id])
  | _, login entity => (0x2B, [.i32 entity])
  | _, ping id => (0x35, [.i32 id])
  | _, playerChat sender index none line => (0x39, [.uuid sender, .varint index, .bool false, .text line])
  | _, playerChat sender index (some signature) line =>
    (0x39, [.uuid sender, .varint index, .bool true, .bytes signature.toList, .text line])
  | _, combatDeath player message => (0x3C, [.varint player, component message])
  | _, syncPosition x y z yaw pitch relative id =>
    (0x40, [double x, double y, double z, float yaw, float pitch, .u8 relative, .varint id])
  | _, setHealth health food saturation => (0x5D, [float health, .varint food, float saturation])
  | _, systemChat line => (0x6C, [component line, .bool false])
  | _, actionBar line overlay => (0x6C, [component line, .u8 overlay])

def frame (p : Said s) : List UInt8 := packet p.layout.1 p.layout.2

/-- What this side makes of a packet. -/
def meaning : {s : State} → Said s → s.Received
  | _, document json => Status.Received.response json
  | _, pong payload => Status.Received.pong payload
  | _, refusal _ reason => Login.Received.disconnect (Component.flatten reason)
  | _, plainRefusal reason => Login.Received.disconnect reason
  | _, encryptionRequest => Login.Received.encryptionRequest
  | _, success uuid username => Login.Received.success uuid username
  | _, setCompression threshold => Login.Received.setCompression threshold
  | _, pluginRequest id channel => Login.Received.pluginRequest id channel
  | _, loginCookieRequest key => Login.Received.cookieRequest key
  | _, cookieRequest key => Configuration.Received.cookieRequest key
  | _, dismissal reason => Configuration.Received.disconnect (visibleText reason)
  | _, finish => Configuration.Received.finish
  | _, earlyKeepAlive id => Configuration.Received.keepAlive id
  | _, earlyPing id => Configuration.Received.ping id
  | _, knownPacks => Configuration.Received.knownPacks
  | _, disconnect reason => Play.Received.disconnect (visibleText reason)
  | _, disguisedChat line => Play.Received.chat (visibleText line)
  | _, keepAlive id => Play.Received.keepAlive id
  | _, login entity => Play.Received.login entity
  | _, ping id => Play.Received.ping id
  | _, playerChat _ _ _ line => Play.Received.chat line
  | _, combatDeath _ message => Play.Received.combatDeath (visibleText message)
  | _, syncPosition x y z yaw pitch relative id =>
    Play.Received.syncPosition
      ⟨.ofBits x, .ofBits y, .ofBits z, .ofBits yaw, .ofBits pitch⟩ ⟨relative⟩ id
  | _, setHealth health food saturation =>
    Play.Received.setHealth (.ofBits health) food (.ofBits saturation)
  | _, systemChat line => Play.Received.chat (visibleText line)
  | _, actionBar _ _ => Play.Received.other 0x6C

/-- What the protocol asks of a packet: texts of the length that their fields allow, and components that
can be read. -/
def Lawful : {s : State} → Said s → Prop
  | _, document json => json.length ≤ maxText
  | _, refusal raw reason => raw.length ≤ maxText ∧ Json.parse? (Text.Utf8.encode raw) = some reason
  | _, plainRefusal reason => reason.length ≤ maxText ∧ Json.parse? (Text.Utf8.encode reason) = none
  | _, success _ username => username.length ≤ Login.maxUsername
  | _, pluginRequest _ channel => channel.length ≤ maxText
  | _, loginCookieRequest key => key.length ≤ maxText
  | _, cookieRequest key => key.length ≤ maxText
  | _, dismissal reason => Nbt.Readable reason
  | _, disconnect reason => Nbt.Readable reason
  | _, disguisedChat line => Nbt.Readable line
  | _, playerChat _ _ _ line => line.length ≤ Play.maxChat
  | _, combatDeath _ message => Nbt.Readable message
  | _, systemChat line => Nbt.Readable line
  | _, actionBar line overlay => Nbt.Readable line ∧ overlay ≠ 0
  | _, _ => True

/-! ### Reading them -/

theorem reads_text {maxChars : Nat} {text : String} (h : text.length ≤ maxChars)
    (hmax : maxChars * 4 < 2 ^ 31) : (Reader.text maxChars).Reads (Field.text text).encode text :=
  Reader.reads_text h (Nat.lt_of_le_of_lt (Nat.le_trans (utf8ByteSize_le text)
    (Nat.mul_le_mul_right 4 h)) hmax)

theorem reads_maxText {text : String} (h : text.length ≤ maxText) :
    (Reader.text maxText).Reads (Field.text text).encode text := reads_text h (by decide)

theorem reads_float (bits : UInt32) : f32.Reads (float bits).encode (.ofBits bits) :=
  takes_f32.reads ⟨bits, rfl, rfl⟩

theorem reads_double (bits : UInt64) : f64.Reads (double bits).encode (.ofBits bits) :=
  takes_f64.reads ⟨bits, rfl, rfl⟩

theorem reads_component {v : Option Nbt.Tree} (h : Nbt.Readable v) :
    Component.read.Reads (component v).encode (visibleText v) :=
  (Nbt.reads_written h).map Component.flatten

/-- Any byte but zero is true. -/
theorem reads_true {v : UInt8} (h : v ≠ 0) : Reader.bool.Reads (Field.u8 v).encode true :=
  takes_bool.reads ⟨v, rfl, (bne_iff_ne.mpr h).symm⟩

theorem reads_signature (signature : Vector UInt8 Play.signatureSize) :
    (bytes Play.signatureSize).Reads (Field.bytes signature.toList).encode signature.toList :=
  (takes_bytes _).reads ⟨rfl, signature.length_toList⟩

/-- The number of a packet is read, and its fields are left. -/
theorem reads_packet {α : Type} {body : Int32 → Reader α} {id : Int32} {fields : List Field} {a : α}
    (h : (body id).Reads (fields.flatMap Field.encode) a) :
    (Reader.varint >>= body).Reads (packet id fields) a := (reads_varint id).bind h

theorem reads_pose (x y z : UInt64) (yaw pitch : UInt32) : Play.pose.Reads
    ([double x, double y, double z, float yaw, float pitch].flatMap Field.encode)
    ⟨.ofBits x, .ofBits y, .ofBits z, .ofBits yaw, .ofBits pitch⟩ :=
  (reads_double x).bind ((reads_double y).bind ((reads_double z).bind ((reads_float yaw).bind
    ((reads_float pitch).bind (reads_pure _)))))

theorem reads_playerChat {sender : BitVec 128} {index : Int32}
    {signature : Option (Vector UInt8 Play.signatureSize)} {line : String}
    (h : line.length ≤ Play.maxChat) : Play.playerChat.Reads
      ((playerChat sender index signature line).layout.2.flatMap Field.encode) line := by
  have hline : (Reader.text Play.maxChat).Reads ([Field.text line].flatMap Field.encode) line := by
    rw [List.flatMap_singleton]
    exact reads_text h (by decide)
  cases signature with
  | none => exact (reads_uuid sender).bind ((reads_varint index).bind ((reads_bool false).bind hline))
  | some signature =>
    exact (reads_uuid sender).bind ((reads_varint index).bind ((reads_bool true).bind
      ((reads_signature signature).bind hline)))

theorem reads_refusal {raw : String} (h : raw.length ≤ maxText) :
    Login.read.Reads (packet 0x00 [.text raw]) (.disconnect (Login.plainReason raw)) :=
  reads_packet ((reads_maxText h).bind (reads_pure _))

theorem reads_frame (p : Said s) (h : p.Lawful) : s.read.Reads p.frame p.meaning := by
  cases p with
  | document json => exact reads_packet ((reads_maxText h).bind (reads_pure _))
  | pong payload => exact reads_packet ((reads_i64 payload).bind (reads_pure _))
  | refusal raw reason =>
    have hread := reads_refusal h.1
    rwa [Login.plainReason, h.2] at hread
  | plainRefusal reason =>
    have hread := reads_refusal h.1
    rwa [Login.plainReason, h.2] at hread
  | encryptionRequest => exact reads_packet (reads_pure _)
  | success uuid username =>
    exact reads_packet ((reads_uuid uuid).bind ((reads_text h (by decide)).bind (reads_pure _)))
  | setCompression threshold => exact reads_packet ((reads_varint threshold).bind (reads_pure _))
  | pluginRequest id channel =>
    exact reads_packet ((reads_varint id).bind ((reads_maxText h).bind (reads_pure _)))
  | loginCookieRequest key => exact reads_packet ((reads_maxText h).bind (reads_pure _))
  | cookieRequest key => exact reads_packet ((reads_maxText h).bind (reads_pure _))
  | dismissal reason => exact reads_packet ((reads_component h).bind (reads_pure _))
  | finish => exact reads_packet (reads_pure _)
  | earlyKeepAlive id => exact reads_packet ((reads_i64 id).bind (reads_pure _))
  | earlyPing id => exact reads_packet ((reads_i32 id).bind (reads_pure _))
  | knownPacks => exact reads_packet (reads_pure _)
  | disconnect reason => exact reads_packet ((reads_component h).bind (reads_pure _))
  | disguisedChat line => exact reads_packet ((reads_component h).bind (reads_pure _))
  | keepAlive id => exact reads_packet ((reads_i64 id).bind (reads_pure _))
  | login entity => exact reads_packet ((reads_i32 entity).bind (reads_pure _))
  | ping id => exact reads_packet ((reads_i32 id).bind (reads_pure _))
  | playerChat sender index signature line =>
    have hnumber : (playerChat sender index signature line).layout.1 = 0x39 := by
      cases signature <;> rfl
    rw [frame, hnumber]
    exact reads_packet ((reads_playerChat h).map Play.Received.chat)
  | combatDeath player message =>
    exact reads_packet ((reads_varint player).bind ((reads_component h).bind (reads_pure _)))
  | syncPosition x y z yaw pitch relative id =>
    have hfields : (syncPosition x y z yaw pitch relative id).layout.2 =
        [double x, double y, double z, float yaw, float pitch] ++ [.u8 relative, .varint id] := rfl
    refine reads_packet ?_
    rw [hfields, List.flatMap_append]
    exact (reads_pose x y z yaw pitch).bind ((reads_u8 relative).bind ((reads_varint id).bind
      (reads_pure _)))
  | setHealth health food saturation =>
    exact reads_packet ((reads_float health).bind ((reads_varint food).bind
      ((reads_float saturation).bind (reads_pure _))))
  | systemChat line =>
    exact reads_packet ((reads_component h).bind ((reads_bool false).bind (reads_pure _)))
  | actionBar line overlay =>
    exact reads_packet ((reads_component h.1).bind ((reads_true h.2).bind (reads_pure _)))

end Said

/-! ### Other packets -/

namespace State

/-- The numbers that stand for a packet. -/
def numbers : State → List Int32
  | .status => [0x00, 0x01]
  | .login => [0x00, 0x01, 0x02, 0x03, 0x04, 0x05]
  | .configuration => [0x00, 0x02, 0x03, 0x04, 0x05, 0x0E]
  | .play => [0x1D, 0x1E, 0x26, 0x2B, 0x35, 0x39, 0x3C, 0x40, 0x5D, 0x6C]

/-- A packet that nothing is known of but its number. -/
def other : (s : State) → Int32 → s.Received
  | .status => Status.Received.other
  | .login => Login.Received.other
  | .configuration => Configuration.Received.other
  | .play => Play.Received.other

theorem reads_other (s : State) {id : Int32} (h : id ∉ s.numbers) :
    s.read.Reads (packet id []) (s.other id) := by
  have hbody {α : Type} {body : Int32 → Reader α} {a : α} (hbody : body id = Pure.pure a) :
      (Reader.varint >>= body).Reads (packet id []) a := Said.reads_packet (hbody ▸ reads_pure a)
  cases s <;>
  · simp only [numbers, List.mem_cons, List.not_mem_nil, or_false, not_or] at h
    exact hbody (by simp only [h, if_false]; rfl)

end State

/-- **What a server says is understood.**

* A packet of the table is read as what it means, with the values that were written, whatever fields come
  behind it. Components and reasons in JSON are read as their visible text, and reasons that are no JSON as
  they are. A line for the action bar is no chat.
* Any number that is not in the table is read as such, whatever comes behind it. -/
theorem packets_understood (s : State) :
    (∀ (p : Said s) (trailing : List UInt8), p.Lawful →
      s.read.run (p.frame ++ trailing) = .ok p.meaning) ∧
    ∀ id ∉ s.numbers, ∀ rest, s.read.run (Varint.encode id ++ rest) = .ok (s.other id) := by
  refine ⟨fun p trailing h => ?_, fun id hid rest => ?_⟩
  · exact run_eq_ok.mpr ⟨trailing, p.reads_frame h trailing⟩
  · have hread := s.reads_other hid rest
    rw [packet, List.flatMap_nil, List.append_nil] at hread
    exact run_eq_ok.mpr ⟨rest, hread⟩

/-- A line in a compound, with and without an overlay, and an unknown packet. -/
theorem packets_understood_line :
    let line := some (.compound [("text".toUTF8.data.toList, .text "!mine".toUTF8.data.toList)])
    Nbt.Readable line ∧
      State.play.read.run ((Said.systemChat line).frame ++ [1, 2]) = .ok (.chat "!mine") ∧
      State.play.read.run ((Said.actionBar line 1).frame ++ [1, 2]) = .ok (.other 0x6C) ∧
      (0x7F : Int32) ∉ State.play.numbers ∧
      State.play.read.run (Varint.encode 0x7F ++ [1, 2]) = .ok (.other 0x7F) := by
  intro line
  have hline : Nbt.Readable line := by
    intro t ht
    obtain rfl := Option.mem_some_iff.mp ht
    refine ⟨.compound ?_ ?_, ?_⟩
    · decide
    · simpa using Nbt.Tree.Lawful.text (by decide)
    · simp [Nbt.Tree.height]
  have htext : visibleText line = "!mine" := by
    simp only [line, visibleText, Nbt.shown, Nbt.Tree.json, List.map_cons]
    decide
  have hnumber : (0x7F : Int32) ∉ State.play.numbers := by decide
  have hchat := (packets_understood .play).1 (.systemChat line) [1, 2] hline
  rw [Said.meaning, htext] at hchat
  exact ⟨hline, hchat, (packets_understood .play).1 (.actionBar line 1) [1, 2] ⟨hline, by decide⟩, hnumber,
    (packets_understood .play).2 _ hnumber [1, 2]⟩

/-- **Components that lie too deep are not shown.**

* A component in network NBT is refused: here are 65 lists with a text in them.
* A reason in JSON is kept as it is: here are 128 arrays with a number in them. -/
theorem deep_components_unread :
    let deep := Nbt.nest 65 (.text "bye".toUTF8.data.toList)
    let raw := String.ofList (List.replicate 128 '[' ++ '7' :: List.replicate 128 ']')
    deep.Lawful ∧ deep.height = 65 ∧ visibleText (some deep) = "bye" ∧
      State.configuration.read.run (Said.dismissal (some deep)).frame =
        .error (.invalidNbt "nesting too deep") ∧
      ((Json.Document.read? (Text.Utf8.encode raw)).bind (·.value? 128)).map Component.flatten =
        some "7" ∧
      State.login.read.run (Said.plainRefusal raw).frame = .ok (.disconnect raw) := by
  intro deep raw
  have hvisible : visibleText (some deep) = "bye" := by
    rw [visibleText, Nbt.shown, Nbt.flatten_nest, Nbt.Tree.json, Component.flatten]
    decide
  have hvalue : Nbt.read.run (Nbt.written (some deep) ++ []) = .error (.invalidNbt "nesting too deep") := by
    refine ((reads_u8 deep.kind).run_bind _ _).trans ?_
    rw [if_neg deep.kind_ne_zero]
    exact Nbt.payload_nest 65 (.text "bye".toUTF8.data.toList) []
  have hlength : raw.length ≤ maxText := by
    simp only [raw, String.length_ofList, List.length_append, List.length_cons, List.length_replicate]
    decide
  have hparse : Json.parse? (Text.Utf8.encode raw) = none :=
    Option.isNone_iff_eq_none.mp (by decide +kernel)
  have hraw := (Said.plainRefusal raw).reads_frame ⟨hlength, hparse⟩ []
  rw [List.append_nil] at hraw
  refine ⟨Nbt.lawful_nest (.text (by decide)) 65, ?_, hvisible, ?_, ?_, run_eq_ok.mpr ⟨[], hraw⟩⟩
  · rw [Nbt.height_nest, Nbt.Tree.height]
  · exact ((reads_varint 0x02).run_bind _ _).trans (run_bind_of_error (run_bind_of_error hvalue _) _)
  · decide +kernel

end Packet

end Pickaxe
