import Pickaxe.Packet.Configuration
import Pickaxe.Packet.Login
import Pickaxe.Packet.Play
import Pickaxe.Packet.Status
import Pickaxe.Proofs.Nbt.Grammar

/-! Packets, read in every state of the protocol.

A read that takes some bytes for a value takes them for it whatever comes behind (`Reads`). A read is
steady if all that it finds it finds in this way, and whoever reads steadily and then steadily again reads
steadily (`Steady.bind`). All packets are read so, and so `read_extended` can say that a frame does not
become another packet by going on. What a read can find is stated in the same way, part by part (`Finds`):
the key of a cookie is never too long to be given back (`Login.finds_key`, `Configuration.finds_key`). -/
namespace Pickaxe.Wire.Reader

variable {α β : Type} {r : Reader α} {a : α}

/-- What is found is found in the bytes that are taken for it. -/
def Steady (r : Reader α) : Prop :=
  ∀ bytes a rest, r bytes = (.ok a, rest) → ∃ taken, bytes = taken ++ rest ∧ r.Reads taken a

theorem Takes.steady {F : α → List UInt8 → Prop} (h : r.Takes F) : r.Steady := by
  intro bytes a rest hread
  obtain ⟨form, hform, hbytes⟩ := (h bytes a rest).mp hread
  exact ⟨form, hbytes, h.reads hform⟩

theorem steady_pure (a : α) : (Pure.pure a : Reader α).Steady := (takes_pure a).steady

/-- **One steady read after another** is steady. -/
theorem Steady.bind {f : α → Reader β} (hr : r.Steady) (hf : ∀ a, (f a).Steady) :
    (r >>= f).Steady := by
  intro bytes b rest hread
  obtain ⟨a, left, hfirst, hsecond⟩ := bind_eq_ok.mp hread
  obtain ⟨head, rfl, hhead⟩ := hr _ _ _ hfirst
  obtain ⟨tail, rfl, htail⟩ := hf a _ _ _ hsecond
  exact ⟨head ++ tail, (List.append_assoc ..).symm, hhead.bind htail⟩

theorem Steady.map (hr : r.Steady) (f : α → β) : (do return f (← r) : Reader β).Steady :=
  hr.bind fun a => steady_pure (f a)

theorem Steady.ite {p : Prop} [Decidable p] {s : Reader α} (hr : r.Steady) (hs : s.Steady) :
    (if p then r else s).Steady := by
  by_cases hp : p
  · rwa [if_pos hp]
  · rwa [if_neg hp]

/-- What comes behind the bytes is left to whatever comes behind the read. -/
theorem Steady.extended (hr : r.Steady) {bytes rest : List UInt8} (h : r bytes = (.ok a, rest))
    (more : List UInt8) : r (bytes ++ more) = (.ok a, rest ++ more) := by
  obtain ⟨taken, rfl, htaken⟩ := hr _ _ _ h
  rw [List.append_assoc]
  exact htaken _

theorem run_eq_ok {bytes : List UInt8} : r.run bytes = .ok a ↔ ∃ rest, r bytes = (.ok a, rest) := by
  refine ⟨fun h => ⟨(r bytes).2, Prod.ext h rfl⟩, ?_⟩
  rintro ⟨rest, h⟩
  rw [run, h]

/-! ### What can be found -/

section Finds

variable {P : α → Prop}

/-- All that the read can find is so. -/
def Finds (r : Reader α) (P : α → Prop) : Prop := ∀ bytes a rest, r bytes = (.ok a, rest) → P a

theorem Finds.pure {a : α} (h : P a) : (Pure.pure a : Reader α).Finds P := by
  intro bytes b rest hread
  cases hread
  exact h

theorem Finds.bind {f : α → Reader β} {Q : β → Prop} (hr : r.Finds P)
    (hf : ∀ a, P a → (f a).Finds Q) : (r >>= f).Finds Q := by
  intro bytes b rest hread
  obtain ⟨a, left, hfirst, hsecond⟩ := bind_eq_ok.mp hread
  exact hf a (hr _ _ _ hfirst) _ _ _ hsecond

theorem finds_true (r : Reader α) : r.Finds fun _ => True := fun _ _ _ _ => trivial

/-- Whatever is read first. -/
theorem Finds.behind {f : α → Reader β} {Q : β → Prop} (hf : ∀ a, (f a).Finds Q) : (r >>= f).Finds Q :=
  (finds_true r).bind fun a _ => hf a

theorem Finds.ite {p : Prop} [Decidable p] {s : Reader α} (hr : r.Finds P) (hs : s.Finds P) :
    (if p then r else s).Finds P := by
  by_cases hp : p
  · rwa [if_pos hp]
  · rwa [if_neg hp]

theorem finds_text (maxChars : Nat) :
    (text maxChars).Finds fun s => (Text.Utf8.encode s).length ≤ maxChars * 4 := by
  intro bytes s rest hread
  obtain ⟨_, ⟨_, _, _, _, hle, _⟩, _⟩ := (takes_text maxChars _ _ _).mp hread
  exact hle

end Finds

end Pickaxe.Wire.Reader

namespace Pickaxe

open Wire Reader

/-! ### Steady reads -/

theorem Nbt.steady_read : Nbt.read.Steady := Nbt.takes_read.steady

theorem Component.steady_read : Component.read.Steady := Nbt.steady_read.map _

namespace Packet

theorem Status.steady_read : Status.read.Steady := by
  refine takes_varint.steady.bind fun id => ?_
  refine .ite ((takes_text _).steady.map _) ?_
  refine .ite (takes_i64.steady.map _) ?_
  exact steady_pure _

theorem Login.steady_read : Login.read.Steady := by
  refine takes_varint.steady.bind fun id => ?_
  refine .ite ((takes_text _).steady.map _) ?_
  refine .ite (steady_pure _) ?_
  refine .ite (takes_uuid.steady.bind fun _ => (takes_text _).steady.map _) ?_
  refine .ite (takes_varint.steady.map _) ?_
  refine .ite (takes_varint.steady.bind fun _ => (takes_text _).steady.map _) ?_
  refine .ite ((takes_text _).steady.map _) ?_
  exact steady_pure _

theorem Configuration.steady_read : Configuration.read.Steady := by
  refine takes_varint.steady.bind fun id => ?_
  refine .ite ((takes_text _).steady.map _) ?_
  refine .ite (Component.steady_read.map _) ?_
  refine .ite (steady_pure _) ?_
  refine .ite (takes_i64.steady.map _) ?_
  refine .ite (takes_i32.steady.map _) ?_
  refine .ite (steady_pure _) ?_
  exact steady_pure _

theorem Play.steady_pose : Play.pose.Steady :=
  takes_f64.steady.bind fun _ => takes_f64.steady.bind fun _ => takes_f64.steady.bind fun _ =>
    takes_f32.steady.bind fun _ => takes_f32.steady.map _

theorem Play.steady_playerChat : Play.playerChat.Steady := by
  refine takes_uuid.steady.bind fun _ => takes_varint.steady.bind fun _ =>
    takes_bool.steady.bind fun _ => ?_
  exact .ite ((takes_bytes _).steady.bind fun _ => (takes_text _).steady) (takes_text _).steady

theorem Play.steady_read : Play.read.Steady := by
  refine takes_varint.steady.bind fun id => ?_
  refine .ite (Component.steady_read.map _) ?_
  refine .ite (Component.steady_read.map _) ?_
  refine .ite (takes_i64.steady.map _) ?_
  refine .ite (takes_i32.steady.map _) ?_
  refine .ite (takes_i32.steady.map _) ?_
  refine .ite (steady_playerChat.map _) ?_
  refine .ite (takes_varint.steady.bind fun _ => Component.steady_read.map _) ?_
  refine .ite (steady_pose.bind fun _ => takes_u8.steady.bind fun _ => takes_varint.steady.map _) ?_
  refine .ite (takes_f32.steady.bind fun _ => takes_varint.steady.bind fun _ =>
    takes_f32.steady.map _) ?_
  refine .ite (Component.steady_read.bind fun _ => takes_bool.steady.map _) ?_
  exact steady_pure _

/-! ### Keys of cookies -/

/-- The key of a cookie is no longer than a text may be. -/
theorem Login.finds_key : Login.read.Finds fun p =>
    ∀ key, p = .cookieRequest key → (Text.Utf8.encode key).length ≤ maxText * 4 := by
  refine .behind fun id => ?_
  refine .ite (.behind fun _ => .pure nofun) ?_
  refine .ite (.pure nofun) ?_
  refine .ite (.behind fun _ => .behind fun _ => .pure nofun) ?_
  refine .ite (.behind fun _ => .pure nofun) ?_
  refine .ite (.behind fun _ => .behind fun _ => .pure nofun) ?_
  refine .ite ((finds_text _).bind fun key hkey => .pure ?_) (.pure nofun)
  rintro _ ⟨⟩
  exact hkey

theorem Configuration.finds_key : Configuration.read.Finds fun p =>
    ∀ key, p = .cookieRequest key → (Text.Utf8.encode key).length ≤ maxText * 4 := by
  refine .behind fun id => ?_
  refine .ite ((finds_text _).bind fun key hkey => .pure ?_) ?_
  · rintro _ ⟨⟩
    exact hkey
  refine .ite (.behind fun _ => .pure nofun) ?_
  refine .ite (.pure nofun) ?_
  refine .ite (.behind fun _ => .pure nofun) ?_
  refine .ite (.behind fun _ => .pure nofun) ?_
  exact .ite (.pure nofun) (.pure nofun)

/-! ### Packets by the state of the protocol -/

/-- The same number stands for another packet in each of these. -/
inductive State where
  | status | login | configuration | play
deriving DecidableEq, Repr

namespace State

/-- What is read in a state. -/
def Received : State → Type
  | .status => Status.Received
  | .login => Login.Received
  | .configuration => Configuration.Received
  | .play => Play.Received

def read : (s : State) → Reader s.Received
  | .status => Status.read
  | .login => Login.read
  | .configuration => Configuration.read
  | .play => Play.read

theorem steady_read (s : State) : s.read.Steady := by
  cases s with
  | status => exact Status.steady_read
  | login => exact Login.steady_read
  | configuration => exact Configuration.steady_read
  | play => exact Play.steady_read

/-- A frame that goes on is the packet that it was. -/
theorem run_extended (s : State) {frame : List UInt8} {p : s.Received} (h : s.read.run frame = .ok p)
    (more : List UInt8) : s.read.run (frame ++ more) = .ok p := by
  obtain ⟨rest, hread⟩ := run_eq_ok.mp h
  exact run_eq_ok.mpr ⟨rest ++ more, s.steady_read.extended hread more⟩

end State

/-- **A frame does not become another packet by going on.**

* In every state, a frame that is read as a packet is read as the same packet whatever comes behind it.
* Of a value in network NBT as many bytes are used whatever comes behind it, and it is the same value.
* So a frame that was cut is either told to be none, or it is the packet that the whole frame is. -/
theorem read_extended :
    (∀ (s : State) frame p, s.read.run frame = .ok p → ∀ more, s.read.run (frame ++ more) = .ok p) ∧
    (∀ bytes v rest, Nbt.read bytes = (.ok v, rest) → ∃ used ≤ bytes.length, rest = bytes.drop used ∧
      ∀ more, Nbt.read (bytes ++ more) = (.ok v, (bytes ++ more).drop used)) ∧
    ∀ (s : State) frame cut, (∃ e, s.read.run (frame.take cut) = .error e) ∨
      s.read.run (frame.take cut) = s.read.run frame := by
  refine ⟨fun s frame p h => s.run_extended h, fun bytes v rest h => ?_, fun s frame cut => ?_⟩
  · obtain ⟨taken, rfl, htaken⟩ := Nbt.steady_read _ _ _ h
    refine ⟨taken.length, ?_, List.drop_left.symm, fun more => ?_⟩
    · exact List.length_append ▸ Nat.le_add_right _ _
    · rw [List.append_assoc, List.drop_left]
      exact htaken _
  · cases hcut : s.read.run (frame.take cut) with
    | error e => exact .inl ⟨e, rfl⟩
    | ok p =>
      have hwhole := s.run_extended hcut (frame.drop cut)
      rw [List.take_append_drop] at hwhole
      exact .inr hwhole.symm

/-- A chat line in a compound, behind which come the byte that tells it from a line for the action bar and
two more. -/
theorem read_extended_chat :
    let value : List UInt8 := [10, 8, 0, 4, 0x74, 0x65, 0x78, 0x74, 0, 5, 0x21, 0x6D, 0x69, 0x6E, 0x65, 0]
    let frame := 0x6C :: value ++ [0]
    State.play.read.run frame = .ok (.chat "!mine") ∧
      State.play.read.run (frame ++ [9, 9]) = .ok (.chat "!mine") ∧
      Nbt.read value = (.ok (.ofMembers [("text", .text "!mine")]), []) ∧
      ∃ used ≤ value.length, Nbt.read (value ++ [9, 9]) =
        (.ok (.ofMembers [("text", .text "!mine")]), (value ++ [9, 9]).drop used) := by
  intro value frame
  have hframe : State.play.read.run frame = .ok (.chat "!mine") := rfl
  have hvalue : Nbt.read value = (.ok (.ofMembers [("text", .text "!mine")]), []) := rfl
  obtain ⟨used, hle, -, hmore⟩ := read_extended.2.1 _ _ _ hvalue
  exact ⟨hframe, read_extended.1 .play frame _ hframe [9, 9], hvalue, used, hle, hmore [9, 9]⟩

end Packet

end Pickaxe
