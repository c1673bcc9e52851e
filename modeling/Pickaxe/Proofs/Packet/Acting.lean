import Pickaxe.Packet.Play
import Pickaxe.Proofs.Wire.Field
import Pickaxe.Proofs.World.Packing

/-! What actions look like to a server.

Each kind of action has a packet of its own, with a number (`number`) and a layout (`layout`) that are all
that a server has to know. Whoever reads the packet in this layout finds the action in it, with the part of
the stamp that goes with it (`reads_act`), and so no two actions look alike, but for digs at blocks that the
wire cannot tell apart (`actions_told_apart`). -/
namespace Pickaxe

open Wire World

/-- The action with the block that is left of it on the wire. -/
def World.Action.reduced : Action → Action
  | .dig status block face => .dig status block.reduced face
  | a => a

theorem World.Action.kind_reduced (a : Action) : a.reduced.kind = a.kind := by cases a <;> rfl

namespace Packet.Play

/-! ### Layouts -/

/-- The number of the packet for a kind of action. -/
def number : ActionKind → Int32
  | .chat => 0x06
  | .swing => 0x36
  | .dig => 0x24
  | .confirmTeleport => 0x00
  | .respawn => 0x09

/-- What is in this packet, in its order. -/
def layout : ActionKind → List Want
  | .chat => [.text maxChat, .i64, .i64, .bool, .varint, .bytes 3]
  | .swing => [.varint]
  | .dig => [.varint, .position, .u8, .varint]
  | .confirmTeleport => [.varint]
  | .respawn => [.varint]

/-- An action and its stamp in this order. -/
def fields (stamp : Stamp) : Action → List Field
  | .chat line => [.text line, .i64 stamp.timestamp, .i64 stamp.salt, .bool false, .varint 0, .bytes [0, 0, 0]]
  | .swing => [.varint 0]
  | .dig status block face =>
    [.varint (Int32.ofNat status.number.toNat), .position block, .u8 face.number, .varint stamp.sequence]
  | .confirmTeleport id => [.varint id]
  | .respawn => [.varint 0]

/-- The action is no chat line that is too long. -/
def Sendable (a : Action) : Prop := ∀ line, a = .chat line → line.length ≤ maxChat

variable {stamp : Stamp} {a b : Action} {frame : List UInt8}

theorem number_injective {k l : ActionKind} (h : number k = number l) : k = l := by
  cases k <;> cases l <;> first | rfl | exact absurd h (by decide)

theorem sendable_or (a : Action) : Sendable a ∨ ∃ line, a = .chat line ∧ maxChat < line.length := by
  cases a with
  | chat line =>
    rcases Nat.lt_or_ge maxChat line.length with hlong | hshort
    · exact .inr ⟨line, rfl, hlong⟩
    · refine .inl ?_
      rintro _ ⟨⟩
      exact hshort
  | swing => exact .inl nofun
  | dig status block face => exact .inl nofun
  | confirmTeleport id => exact .inl nofun
  | respawn => exact .inl nofun

theorem act_of_sendable (stamp : Stamp) (h : Sendable a) :
    act stamp a = .ok (packet (number a.kind) (fields stamp a)) := by
  cases a with
  | chat line => exact if_pos (h line rfl)
  | swing => rfl
  | dig status block face => rfl
  | confirmTeleport id => rfl
  | respawn => rfl

theorem act_of_long (stamp : Stamp) {line : String} (h : maxChat < line.length) :
    act stamp (.chat line) = .error (.invalidMessage "chat message longer than 256 characters") :=
  if_neg (Nat.not_le_of_lt h)

theorem act_eq_ok_iff : act stamp a = .ok frame ↔
    Sendable a ∧ frame = packet (number a.kind) (fields stamp a) := by
  rcases sendable_or a with hsendable | ⟨line, rfl, hlong⟩
  · rw [act_of_sendable stamp hsendable, Except.ok.injEq, and_iff_right hsendable, eq_comm]
  · rw [act_of_long stamp hlong]
    exact ⟨nofun, fun h => absurd (h.1 line rfl) (Nat.not_le_of_lt hlong)⟩

theorem act_eq_error_iff {e : PacketError} : act stamp a = .error e ↔ ∃ line, a = .chat line ∧
    maxChat < line.length ∧ e = .invalidMessage "chat message longer than 256 characters" := by
  rcases sendable_or a with hsendable | ⟨line, rfl, hlong⟩
  · rw [act_of_sendable stamp hsendable]
    refine ⟨nofun, ?_⟩
    rintro ⟨line, rfl, hlong, -⟩
    exact absurd (hsendable line rfl) (Nat.not_le_of_lt hlong)
  · rw [act_of_long stamp hlong, Except.error.injEq]
    refine ⟨fun h => ⟨line, rfl, hlong, h.symm⟩, ?_⟩
    rintro ⟨_, -, -, h⟩
    exact h.symm

/-! ### Reading them -/

theorem fits_fields (h : Sendable a) : List.Forall₂ Field.Fits (fields stamp a) (layout a.kind) := by
  cases a with
  | chat line =>
    have hline : line.length ≤ maxChat := h line rfl
    have hbytes : line.utf8ByteSize < 2 ^ 31 :=
      Nat.lt_of_le_of_lt (Reader.utf8ByteSize_le line) (by simp only [maxChat] at hline; omega)
    exact .cons (.text hline hbytes) (.cons (.i64 _) (.cons (.i64 _) (.cons (.bool _) (.cons (.varint _)
      (.cons (.bytes [0, 0, 0]) .nil)))))
  | swing => exact .cons (.varint _) .nil
  | dig status block face =>
    exact .cons (.varint _) (.cons (.position _) (.cons (.u8 _) (.cons (.varint _) .nil)))
  | confirmTeleport id => exact .cons (.varint _) .nil
  | respawn => exact .cons (.varint _) .nil

theorem map_held_fields (stamp : Stamp) (a : Action) :
    (fields stamp a).map Field.held = fields stamp a.reduced := by cases a <;> rfl

/-- **An action is read out of its packet**, whatever comes behind the packet. -/
theorem reads_act (h : act stamp a = .ok frame) (rest : List UInt8) :
    readPacket (layout a.kind) (frame ++ rest) = (.ok (number a.kind, fields stamp a.reduced), rest) := by
  obtain ⟨hsendable, rfl⟩ := act_eq_ok_iff.mp h
  rw [← map_held_fields]
  exact readPacket_packet _ (fits_fields hsendable) rest

/-! ### Telling them apart -/

theorem encode_fields_reduced (stamp : Stamp) (a : Action) :
    (fields stamp a.reduced).flatMap Field.encode = (fields stamp a).flatMap Field.encode := by
  cases a with
  | dig status block face =>
    have hblock : (Field.position block.reduced).encode = (Field.position block).encode := by
      rw [Field.encode, Field.encode, Block.pack_reduced]
    simp only [Action.reduced, fields, List.flatMap_cons, hblock]
  | _ => rfl

theorem number_status_injective {s t : DigStatus}
    (h : Int32.ofNat s.number.toNat = Int32.ofNat t.number.toNat) : s = t := by
  cases s <;> cases t <;> first | rfl | exact absurd h (by decide)

theorem number_face_injective {f g : Face} (h : f.number = g.number) : f = g := by
  cases f <;> cases g <;> first | rfl | exact absurd h (by decide)

theorem fields_injective (hkind : a.kind = b.kind) (h : fields stamp a = fields stamp b) : a = b := by
  cases a <;> cases b <;> cases hkind
  case chat.chat =>
    simp only [fields, List.cons.injEq, Field.text.injEq] at h
    rw [h.1]
  case swing.swing => rfl
  case dig.dig =>
    simp only [fields, List.cons.injEq, Field.varint.injEq, Field.position.injEq, Field.u8.injEq] at h
    obtain ⟨hstatus, hblock, hface, -⟩ := h
    rw [number_status_injective hstatus, hblock, number_face_injective hface]
  case confirmTeleport.confirmTeleport =>
    simp only [fields, List.cons.injEq, Field.varint.injEq] at h
    rw [h.1]
  case respawn.respawn => rfl

/-- The number at the front of a packet is told from the packet. -/
theorem eq_of_packet_eq {id id' : Int32} {these those : List Field} (h : packet id these = packet id' those) :
    id = id' := by
  have hfirst := Reader.reads_varint id (these.flatMap Field.encode)
  have hsecond := Reader.reads_varint id' (those.flatMap Field.encode)
  have hbytes : (Field.varint id).encode ++ these.flatMap Field.encode =
      (Field.varint id').encode ++ those.flatMap Field.encode := h
  rw [hbytes, hsecond] at hfirst
  exact (Except.ok.inj (congrArg Prod.fst hfirst)).symm

/-- **Two actions look alike** exactly if they are the same on the wire. -/
theorem act_eq_act_iff {other : List UInt8} (ha : act stamp a = .ok frame) (hb : act stamp b = .ok other) :
    frame = other ↔ a.reduced = b.reduced := by
  refine ⟨fun h => ?_, fun h => ?_⟩
  · have hkind : a.kind = b.kind := by
      rw [(act_eq_ok_iff.mp ha).2, (act_eq_ok_iff.mp hb).2] at h
      exact number_injective (eq_of_packet_eq h)
    have hread := reads_act ha []
    rw [h, hkind, reads_act hb []] at hread
    have hfields : fields stamp b.reduced = fields stamp a.reduced := by
      simpa using hread
    refine fields_injective ?_ hfields.symm
    rw [Action.kind_reduced, Action.kind_reduced, hkind]
  · have hkind : a.kind = b.kind := by rw [← Action.kind_reduced a, h, Action.kind_reduced]
    rw [(act_eq_ok_iff.mp ha).2, (act_eq_ok_iff.mp hb).2, packet, packet, hkind,
      ← encode_fields_reduced stamp a, h, encode_fields_reduced]

/-- **Actions survive on the wire.**

* An action cannot be sent exactly if it is a chat line of more than 256 characters, and the error says so.
* From the packet of any other action, whoever knows the layout of its kind reads the number of this kind and
  the action with its part of the stamp, the block of a dig reduced to the range of its fields; what comes
  behind the packet is left.
* So two actions with the same stamp have the same packet exactly if they are the same, digs being compared
  with their blocks reduced. -/
theorem actions_told_apart (stamp : Stamp) :
    (∀ a e, act stamp a = .error e ↔ ∃ line, a = .chat line ∧ 256 < line.length ∧
      e = .invalidMessage "chat message longer than 256 characters") ∧
    (∀ a frame, act stamp a = .ok frame → ∀ rest,
      readPacket (layout a.kind) (frame ++ rest) = (.ok (number a.kind, fields stamp a.reduced), rest)) ∧
    ∀ a b frame other, act stamp a = .ok frame → act stamp b = .ok other →
      (frame = other ↔ a.reduced = b.reduced) :=
  ⟨fun _ _ => act_eq_error_iff, fun _ _ => reads_act, fun _ _ _ _ => act_eq_act_iff⟩

/-- Two digs at blocks that lie as far from one another as the fields of a position reach. -/
theorem actions_told_apart_digs :
    let stamp : Stamp := ⟨3, 1000, 7⟩
    let near := Action.dig .finished ⟨1, 64, 2⟩ .up
    let far := Action.dig .finished ⟨67108865, -4032, -67108862⟩ .up
    let frame : List UInt8 := [0x24, 2, 0, 0, 0, 0x40, 0, 0, 0x20, 0x40, 1, 3]
    act stamp near = .ok frame ∧ act stamp far = .ok frame ∧
      readPacket (layout .dig) (frame ++ [9]) =
        (.ok (0x24, [.varint 2, .position ⟨1, 64, 2⟩, .u8 1, .varint 3]), [9]) ∧
      near.reduced = far.reduced := by
  intro stamp near far frame
  have hnear : act stamp near = .ok frame := by decide +kernel
  have hfar : act stamp far = .ok frame := by decide +kernel
  obtain ⟨-, hread, hsame⟩ := actions_told_apart stamp
  exact ⟨hnear, hfar, hread far frame hfar [9], (hsame near far frame frame hnear hfar).mp rfl⟩

end Packet.Play

end Pickaxe
