import Pickaxe.Proofs.Text.Utf8
import Pickaxe.Proofs.Wire.Varint
import Pickaxe.Wire.Field
import Pickaxe.Wire.Reader

/-! What reading takes.

The *forms* of a value are the bytes that a read takes for it: the read finds the value exactly where the
bytes that are left start with a form of it, and leaves what comes after (`Takes`). The forms of a
composite read are made of the forms of its parts (`Takes.bind`), so a reader is known by its forms, and
nothing else has to be said of how it goes through the bytes. -/
namespace Pickaxe.Wire

/-! ### Numbers as bytes -/

section BigEndian

open Reader (bigEndian)

theorem bigEndianBytes_zero (n : Nat) : bigEndianBytes 0 n = [] := rfl

theorem bigEndianBytes_succ (width n : Nat) :
    bigEndianBytes (width + 1) n = (n / 256 ^ width).toUInt8 :: bigEndianBytes width n := rfl

theorem length_bigEndianBytes (width n : Nat) : (bigEndianBytes width n).length = width := by
  induction width with
  | zero => rfl
  | succ width ih => rw [bigEndianBytes_succ, List.length_cons, ih]

/-- What is above the bytes that are written does not show. -/
theorem bigEndianBytes_mul_add (width a n : Nat) :
    bigEndianBytes width (a * 256 ^ width + n) = bigEndianBytes width n := by
  induction width generalizing a with
  | zero => rfl
  | succ width ih =>
    have hpos : 0 < 256 ^ width := Nat.pow_pos (by decide)
    have hpow : a * 256 ^ (width + 1) + n = a * 256 * 256 ^ width + n := by
      rw [Nat.pow_succ, Nat.mul_assoc, Nat.mul_comm (256 ^ width)]
    have hhead : ((a * 256 * 256 ^ width + n) / 256 ^ width).toUInt8 = (n / 256 ^ width).toUInt8 := by
      rw [Nat.add_comm, Nat.add_mul_div_right _ _ hpos]
      exact UInt8.toNat_inj.mp (by simp)
    rw [hpow, bigEndianBytes_succ, bigEndianBytes_succ, hhead, ih]

theorem foldl_bigEndian (start : Nat) (bytes : List UInt8) :
    bytes.foldl (fun n b => n * 256 + b.toNat) start = start * 256 ^ bytes.length + bigEndian bytes := by
  induction bytes generalizing start with
  | nil => simp [bigEndian]
  | cons b bytes ih =>
    have hzero : bigEndian (b :: bytes) = (0 * 256 + b.toNat) * 256 ^ bytes.length + bigEndian bytes := ih _
    rw [List.foldl_cons, ih, hzero, List.length_cons, Nat.pow_succ, Nat.add_mul, Nat.zero_mul, Nat.zero_add,
      Nat.add_assoc, Nat.mul_assoc, Nat.mul_comm 256]

theorem bigEndian_cons (b : UInt8) (bytes : List UInt8) :
    bigEndian (b :: bytes) = b.toNat * 256 ^ bytes.length + bigEndian bytes := by
  rw [bigEndian, List.foldl_cons, foldl_bigEndian, Nat.zero_mul, Nat.zero_add]

theorem bigEndian_lt (bytes : List UInt8) : bigEndian bytes < 256 ^ bytes.length := by
  induction bytes with
  | nil => exact Nat.zero_lt_one
  | cons b bytes ih =>
    have hbyte : (b.toNat + 1) * 256 ^ bytes.length ≤ 256 * 256 ^ bytes.length :=
      Nat.mul_le_mul_right _ b.toNat_lt
    rw [bigEndian_cons, List.length_cons, Nat.pow_succ, Nat.mul_comm (256 ^ bytes.length)]
    rw [Nat.succ_mul] at hbyte
    omega

/-- The bytes of a number that bytes spell are these bytes. -/
theorem bigEndianBytes_bigEndian (bytes : List UInt8) :
    bigEndianBytes bytes.length (bigEndian bytes) = bytes := by
  induction bytes with
  | nil => rfl
  | cons b bytes ih =>
    have hhead : (b.toNat * 256 ^ bytes.length + bigEndian bytes) / 256 ^ bytes.length = b.toNat := by
      rw [Nat.add_comm, Nat.add_mul_div_right _ _ (Nat.pow_pos (by decide)),
        Nat.div_eq_of_lt (bigEndian_lt bytes), Nat.zero_add]
    rw [List.length_cons, bigEndianBytes_succ, bigEndian_cons, hhead, bigEndianBytes_mul_add, ih]
    simp

/-- The number that the bytes of a number spell is that number, as far as it is written. -/
theorem bigEndian_bigEndianBytes (width n : Nat) :
    bigEndian (bigEndianBytes width n) = n % 256 ^ width := by
  induction width with
  | zero => simp [bigEndianBytes_zero, bigEndian, Nat.mod_one]
  | succ width ih =>
    rw [bigEndianBytes_succ, bigEndian_cons, length_bigEndianBytes, ih, Nat.pow_succ, Nat.mod_mul]
    simp [Nat.mul_comm, Nat.add_comm]

end BigEndian

namespace Reader

variable {α β : Type} {r : Reader α} {a : α} {form : List UInt8}

/-! ### Forms -/

/-- The read finds a value exactly behind a form of it, and takes that form. -/
def Takes (r : Reader α) (Form : α → List UInt8 → Prop) : Prop :=
  ∀ bytes a rest, r bytes = (.ok a, rest) ↔ ∃ form, Form a form ∧ bytes = form ++ rest

section Takes

variable {F G : α → List UInt8 → Prop}

theorem Takes.read (h : r.Takes F) (hform : F a form) (rest : List UInt8) :
    r (form ++ rest) = (.ok a, rest) := (h _ a rest).mpr ⟨form, hform, rfl⟩

theorem Takes.congr (h : r.Takes F) (hiff : ∀ a form, F a form ↔ G a form) : r.Takes G := by
  intro bytes a rest
  rw [h bytes a rest]
  exact exists_congr fun form => and_congr_left' (hiff a form)

theorem takes_pure (a : α) : (Pure.pure a : Reader α).Takes fun b form => b = a ∧ form = [] := by
  intro bytes b rest
  refine ⟨fun h => ?_, ?_⟩
  · cases h
    exact ⟨[], ⟨rfl, rfl⟩, rfl⟩
  · rintro ⟨_, ⟨rfl, rfl⟩, rfl⟩
    rfl

theorem takes_fail (e : PacketError) : (fail e : Reader α).Takes fun _ _ => False := by
  intro bytes a rest
  refine ⟨fun h => ?_, fun ⟨_, hnone, _⟩ => hnone.elim⟩
  cases h

/-- One read after another succeeds where both do. -/
theorem bind_eq_ok {f : α → Reader β} {bytes rest : List UInt8} {b : β} :
    (r >>= f) bytes = (.ok b, rest) ↔ ∃ a left, r bytes = (.ok a, left) ∧ f a left = (.ok b, rest) := by
  change Reader.bind r f bytes = _ ↔ _
  rw [Reader.bind]
  refine ⟨fun h => ?_, fun ⟨a, left, hfirst, hsecond⟩ => by rw [hfirst]; exact hsecond⟩
  split at h
  · rename_i a left hfirst
    exact ⟨a, left, hfirst, h⟩
  · cases h

/-- **One read after another** takes a form of each, one behind the other. -/
theorem Takes.bind {f : α → Reader β} {G : α → β → List UInt8 → Prop} (hr : r.Takes F)
    (hf : ∀ a, (f a).Takes (G a)) :
    (r >>= f).Takes fun b form => ∃ a head tail, F a head ∧ G a b tail ∧ form = head ++ tail := by
  intro bytes b rest
  rw [bind_eq_ok]
  refine ⟨?_, ?_⟩
  · rintro ⟨a, left, hfirst, hsecond⟩
    obtain ⟨head, hhead, rfl⟩ := (hr _ _ _).mp hfirst
    obtain ⟨tail, htail, rfl⟩ := (hf a _ _ _).mp hsecond
    exact ⟨head ++ tail, ⟨a, head, tail, hhead, htail, rfl⟩, (List.append_assoc ..).symm⟩
  · rintro ⟨_, ⟨a, head, tail, hhead, htail, rfl⟩, rfl⟩
    rw [List.append_assoc]
    exact ⟨a, tail ++ rest, hr.read hhead _, (hf a).read htail rest⟩

theorem Takes.map (hr : r.Takes F) (f : α → β) :
    (do return f (← r) : Reader β).Takes fun b form => ∃ a, F a form ∧ b = f a := by
  refine (hr.bind fun a => takes_pure (f a)).congr fun b form => ⟨?_, ?_⟩
  · rintro ⟨a, head, tail, hhead, ⟨rfl, rfl⟩, rfl⟩
    exact ⟨a, (List.append_nil head).symm ▸ hhead, rfl⟩
  · rintro ⟨a, hform, rfl⟩
    exact ⟨a, form, [], hform, ⟨rfl, rfl⟩, (List.append_nil form).symm⟩

/-- A value that is given back only under a condition. -/
theorem takes_guard (p : Prop) [Decidable p] (a : α) (e : PacketError) :
    (if p then Pure.pure a else fail e : Reader α).Takes fun b form => p ∧ b = a ∧ form = [] := by
  by_cases hp : p
  · rw [if_pos hp]
    exact (takes_pure a).congr fun _ _ => (and_iff_right hp).symm
  · rw [if_neg hp]
    exact (takes_fail e).congr fun _ _ => ⟨False.elim, fun h => hp h.1⟩

end Takes

/-! ### What comes behind -/

/-- The read takes these bytes for this value, whatever comes behind them. -/
def Reads (r : Reader α) (form : List UInt8) (a : α) : Prop := ∀ rest, r (form ++ rest) = (.ok a, rest)

theorem Takes.reads {F : α → List UInt8 → Prop} (h : r.Takes F) (hform : F a form) :
    r.Reads form a := h.read hform

theorem reads_pure (a : α) : (Pure.pure a : Reader α).Reads [] a := fun _ => rfl

theorem Reads.bind {f : α → Reader β} {b : β} {head tail : List UInt8} (hr : r.Reads head a)
    (hf : (f a).Reads tail b) : (r >>= f).Reads (head ++ tail) b := by
  intro rest
  rw [List.append_assoc]
  exact bind_eq_ok.mpr ⟨a, tail ++ rest, hr _, hf rest⟩

theorem Reads.map (hr : r.Reads form a) (f : α → β) :
    (do return f (← r) : Reader β).Reads form (f a) := by
  have hbind := hr.bind (f := fun a => Pure.pure (f a)) (reads_pure (f a))
  rwa [List.append_nil] at hbind

theorem Reads.run_bind (hr : r.Reads form a) (f : α → Reader β) (rest : List UInt8) :
    (r >>= f).run (form ++ rest) = (f a).run rest := by
  change (Reader.bind r f (form ++ rest)).1 = _
  rw [Reader.bind, hr rest]
  rfl

theorem run_bind_of_error {bytes : List UInt8} {e : PacketError} (h : r.run bytes = .error e)
    (f : α → Reader β) : (r >>= f).run bytes = .error e := by
  have hread : r bytes = (.error e, (r bytes).2) := Prod.ext h rfl
  change (Reader.bind r f bytes).1 = _
  rw [Reader.bind, hread]

/-! ### Bytes and numbers -/

theorem takes_bytes (n : Nat) :
    (bytes n).Takes fun found form => found = form ∧ form.length = n := by
  intro bytes found rest
  rw [Reader.bytes]
  refine ⟨fun h => ?_, ?_⟩
  · split at h
    · rename_i hle
      cases h
      exact ⟨bytes.take n, ⟨rfl, List.length_take_of_le hle⟩, (List.take_append_drop n bytes).symm⟩
    · cases h
  · rintro ⟨_, ⟨rfl, rfl⟩, rfl⟩
    rw [if_pos (List.length_append ▸ Nat.le_add_right _ _), List.take_left, List.drop_left]

theorem takes_unsigned (width : Nat) :
    (unsigned width).Takes fun n form => n < 256 ^ width ∧ form = bigEndianBytes width n := by
  refine ((takes_bytes width).map bigEndian).congr fun n form => ⟨?_, ?_⟩
  · rintro ⟨found, ⟨rfl, rfl⟩, rfl⟩
    exact ⟨bigEndian_lt found, (bigEndianBytes_bigEndian found).symm⟩
  · rintro ⟨hlt, rfl⟩
    refine ⟨_, ⟨rfl, length_bigEndianBytes width n⟩, ?_⟩
    rw [bigEndian_bigEndianBytes, Nat.mod_eq_of_lt hlt]

/-- What is made of a kind of numbers of `w` bytes has the forms of these numbers. -/
theorem takes_bits {w : Nat} {f : Nat → β} (toNat : β → Nat) (hlt : ∀ b, toNat b < 256 ^ w)
    (hof : ∀ b, f (toNat b) = b) (hto : ∀ n < 256 ^ w, toNat (f n) = n) (g : β → α) :
    (do return g (f (← unsigned w)) : Reader α).Takes
      fun a form => ∃ b, form = bigEndianBytes w (toNat b) ∧ a = g b := by
  refine ((takes_unsigned w).map fun n => g (f n)).congr fun a form => ⟨?_, ?_⟩
  · rintro ⟨n, ⟨hn, rfl⟩, rfl⟩
    exact ⟨f n, by rw [hto n hn], rfl⟩
  · rintro ⟨b, rfl, rfl⟩
    exact ⟨toNat b, ⟨hlt b, rfl⟩, by rw [hof b]⟩

/-- A kind of numbers of `w` bytes has one form for each number. -/
theorem takes_number {w : Nat} {f : Nat → α} (toNat : α → Nat) (hlt : ∀ a, toNat a < 256 ^ w)
    (hof : ∀ a, f (toNat a) = a) (hto : ∀ n < 256 ^ w, toNat (f n) = n) :
    (do return f (← unsigned w) : Reader α).Takes fun a form => form = bigEndianBytes w (toNat a) := by
  refine (takes_bits toNat hlt hof hto id).congr fun a form => ⟨?_, fun h => ⟨a, h, rfl⟩⟩
  rintro ⟨a, hform, rfl⟩
  exact hform

theorem takes_u8 : u8.Takes fun v form => form = [v] := by
  refine (takes_number (w := 1) UInt8.toNat (fun v => v.toNat_lt) (fun v => UInt8.ofNat_toNat)
    fun n hn => UInt8.toNat_ofNat_of_lt hn).congr fun v form => ?_
  simp [bigEndianBytes_succ, bigEndianBytes_zero]

theorem takes_i8 : i8.Takes fun v form => form = [v.toUInt8] := by
  refine (takes_number (w := 1) (fun v : Int8 => v.toUInt8.toNat) (fun v => v.toUInt8.toNat_lt)
    (fun v => Int8.toBitVec_inj.mp (by simp)) fun n hn => ?_).congr fun v form => ?_
  · simpa using Nat.mod_eq_of_lt hn
  · simp [bigEndianBytes_succ, bigEndianBytes_zero]

theorem takes_u16 : u16.Takes fun v form => form = bigEndianBytes 2 v.toNat :=
  takes_number UInt16.toNat (fun v => v.toNat_lt) (fun v => by simp)
    fun n hn => UInt16.toNat_ofNat_of_lt hn

theorem takes_i16 : i16.Takes fun v form => form = bigEndianBytes 2 v.toUInt16.toNat :=
  takes_number (fun v : Int16 => v.toUInt16.toNat) (fun v => v.toUInt16.toNat_lt)
    (fun v => Int16.toBitVec_inj.mp (by simp)) fun n hn => by simpa using Nat.mod_eq_of_lt hn

theorem takes_i32 : i32.Takes fun v form => form = bigEndianBytes 4 v.toUInt32.toNat :=
  takes_number (fun v : Int32 => v.toUInt32.toNat) (fun v => v.toUInt32.toNat_lt)
    (fun v => Int32.toBitVec_inj.mp (by simp)) fun n hn => by simpa using Nat.mod_eq_of_lt hn

theorem takes_i64 : i64.Takes fun v form => form = bigEndianBytes 8 v.toUInt64.toNat :=
  takes_number (fun v : Int64 => v.toUInt64.toNat) (fun v => v.toUInt64.toNat_lt)
    (fun v => Int64.toBitVec_inj.mp (by simp)) fun n hn => by simpa using Nat.mod_eq_of_lt hn

theorem takes_uuid : uuid.Takes fun v form => form = bigEndianBytes 16 v.toNat :=
  takes_number (f := BitVec.ofNat 128) BitVec.toNat (fun v => v.isLt) (fun v => by simp)
    fun n hn => (BitVec.toNat_ofNat n 128).trans (Nat.mod_eq_of_lt hn)

theorem takes_f32 : f32.Takes fun x form =>
    ∃ bits : UInt32, form = bigEndianBytes 4 bits.toNat ∧ x = Float32.ofBits bits :=
  takes_bits UInt32.toNat (fun v => v.toNat_lt) (fun _ => UInt32.ofNat_toNat)
    (fun _ hn => UInt32.toNat_ofNat_of_lt hn) Float32.ofBits

theorem takes_f64 : f64.Takes fun x form =>
    ∃ bits : UInt64, form = bigEndianBytes 8 bits.toNat ∧ x = Float.ofBits bits :=
  takes_bits UInt64.toNat (fun v => v.toNat_lt) (fun _ => UInt64.ofNat_toNat)
    (fun _ hn => UInt64.toNat_ofNat_of_lt hn) Float.ofBits

theorem takes_position : position.Takes fun b form =>
    ∃ v : Int64, form = bigEndianBytes 8 v.toUInt64.toNat ∧ b = World.Block.unpack v :=
  takes_i64.map World.Block.unpack

theorem takes_bool : bool.Takes fun v form => ∃ b : UInt8, form = [b] ∧ v = (b != 0) :=
  takes_u8.map (· != 0)

/-! ### Varints and texts -/

/-- The forms of a varint are the bytes that it is read from to the last. -/
theorem takes_varint : varint.Takes fun v form => Varint.decode form = .complete v form.length := by
  intro bytes v rest
  rw [varint]
  refine ⟨fun h => ?_, ?_⟩
  · split at h
    · rename_i v' used hdecode
      cases h
      obtain @⟨head, last, hopen, hlength, hlast, rest⟩ := Varint.decode_eq_iff.mp hdecode
      have hform := (Varint.Found.complete hopen hlength hlast []).decode_eq
      refine ⟨head ++ [last], hform.trans (by rw [List.length_append, List.length_singleton]), ?_⟩
      simp
    · cases h
    · cases h
  · rintro ⟨form, hform, rfl⟩
    have hfound := Varint.decode_eq_iff.mp hform
    generalize hused : form.length = used at hfound
    obtain @⟨head, last, hopen, hlength, hlast, more⟩ := hfound
    obtain rfl : more = [] := by simpa using hused
    have hdecode := (Varint.Found.complete hopen hlength hlast rest).decode_eq
    rw [List.append_assoc, List.singleton_append, hdecode]
    simp

/-- What is written for a varint is a form of it. -/
theorem decode_encode_self (v : Int32) :
    Varint.decode (Varint.encode v) = .complete v (Varint.encode v).length := by
  simpa using Varint.decode_encode v []

theorem takes_length (max : Nat) : (length max).Takes fun n form =>
    ∃ v : Int32, Varint.decode form = .complete v form.length ∧ v.toInt = n ∧ n ≤ max := by
  refine (takes_varint.bind fun v => takes_guard _ v.toInt.toNat _).congr fun n form => ⟨?_, ?_⟩
  · rintro ⟨v, head, _, hhead, ⟨⟨hpos, hmax⟩, rfl, rfl⟩, rfl⟩
    rw [List.append_nil]
    exact ⟨v, hhead, (Int.toNat_of_nonneg hpos).symm, by omega⟩
  · rintro ⟨v, hform, hv, hmax⟩
    exact ⟨v, form, [], hform, ⟨by omega, by omega, rfl⟩, (List.append_nil form).symm⟩

/-- The forms of a text are its bytes behind their number. -/
theorem takes_text (maxChars : Nat) : (text maxChars).Takes fun s form =>
    ∃ v head, Varint.decode head = .complete v head.length ∧ v.toInt = (Text.Utf8.encode s).length ∧
      (Text.Utf8.encode s).length ≤ maxChars * 4 ∧ form = head ++ Text.Utf8.encode s := by
  refine ((takes_length _).bind fun n => (takes_bytes n).bind
    (G := fun found s form => found = Text.Utf8.encode s ∧ form = []) fun found => ?_).congr
      fun s form => ⟨?_, ?_⟩
  · split
    · rename_i s hs
      refine (takes_pure s).congr fun t form => and_congr_left' ⟨?_, fun h => ?_⟩
      · rintro rfl
        exact Text.Utf8.eq_encode_of_decode? hs
      · rw [h, Text.Utf8.decode?_encode] at hs
        exact Option.some.inj hs
    · rename_i hnone
      refine (takes_fail _).congr fun t form => ⟨False.elim, fun h => ?_⟩
      rw [h.1, Text.Utf8.decode?_encode] at hnone
      cases hnone
  · rintro ⟨n, head, _, ⟨v, hhead, hv, hmax⟩, ⟨_, found, _, ⟨rfl, rfl⟩, ⟨rfl, rfl⟩, rfl⟩, rfl⟩
    exact ⟨v, head, hhead, hv, Nat.le_trans hmax (Nat.min_le_left ..), by rw [List.append_nil]⟩
  · rintro ⟨v, head, hhead, hv, hmax, rfl⟩
    have hcount : v.toInt < 2 ^ 31 := v.toInt_lt
    have hcounted : (Text.Utf8.encode s).length ≤ UInt64.size - 1 := by
      simp only [UInt64.size]
      omega
    exact ⟨_, head, _, ⟨v, hhead, hv, Nat.le_min.mpr ⟨hmax, hcounted⟩⟩,
      ⟨_, _, [], ⟨rfl, rfl⟩, ⟨rfl, rfl⟩, rfl⟩, by rw [List.append_nil]⟩

end Reader

end Pickaxe.Wire
