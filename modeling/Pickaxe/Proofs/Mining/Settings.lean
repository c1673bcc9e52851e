import Mathlib.Algebra.Order.Floor.Div
import Pickaxe.Proofs.Mining.Wear

/-! Settings that can be used.

The interval of wear is rounded up to a multiple of the interval of swings, and a multiple can lie beyond the
numbers of 64 bits. Up to this it is the least multiple (`toNat_roundedUp`), and the settings are safe. Beyond
it the rounded interval comes round to less than one interval of swings (`lt_of_size_le`), which is no multiple
of it unless it is zero. `validated_safe_iff` says when settings are safe once they have been validated. -/
namespace Pickaxe.Mining

/-! ### The least multiple -/

/-- The least multiple of `unit` that is not below `n`. -/
def leastMultiple (n unit : Nat) : Nat := unit * (n ⌈/⌉ unit)

section LeastMultiple

variable {n unit m : Nat}

theorem dvd_leastMultiple (n unit : Nat) : unit ∣ leastMultiple n unit := Nat.dvd_mul_right ..

theorem le_leastMultiple (n : Nat) (hunit : 0 < unit) : n ≤ leastMultiple n unit := le_smul_ceilDiv hunit

theorem leastMultiple_le (hunit : 0 < unit) (hm : unit ∣ m) (hle : n ≤ m) : leastMultiple n unit ≤ m := by
  obtain ⟨k, rfl⟩ := hm
  exact Nat.mul_le_mul_left unit ((ceilDiv_le_iff_le_mul hunit).mpr hle)

/-- What is missing to it is less than a unit. -/
theorem leastMultiple_lt (n : Nat) (hunit : 0 < unit) : leastMultiple n unit < n + unit := by
  have hmissing : leastMultiple n unit ≤ n + (unit - 1) - (n + (unit - 1)) % unit := by
    refine leastMultiple_le hunit (Nat.dvd_sub_mod _) ?_
    have := Nat.mod_lt (n + (unit - 1)) hunit
    omega
  omega

/-- There is one multiple in each stretch of a unit's length. -/
theorem leastMultiple_eq (hm : unit ∣ m) (hle : n ≤ m) (hlt : m < n + unit) : leastMultiple n unit = m := by
  have hunit : 0 < unit := Nat.pos_of_ne_zero fun hzero => by omega
  have hleast := leastMultiple_le hunit hm hle
  obtain ⟨k, hk⟩ := Nat.dvd_sub hm (dvd_leastMultiple n unit)
  have hbound := le_leastMultiple n hunit
  have hzero : unit * k < unit * 1 := by omega
  obtain rfl : k = 0 := Nat.lt_one_iff.mp (Nat.lt_of_mul_lt_mul_left hzero)
  omega

theorem leastMultiple_of_dvd (hunit : 0 < unit) (h : unit ∣ n) : leastMultiple n unit = n :=
  leastMultiple_eq h (Nat.le_refl n) (Nat.lt_add_of_pos_right hunit)

/-- How the least multiple is found with a remainder. -/
theorem leastMultiple_of_not_dvd (hunit : 0 < unit) (h : n % unit ≠ 0) :
    leastMultiple n unit = n + (unit - n % unit) := by
  have hrem := Nat.mod_lt n hunit
  refine leastMultiple_eq ?_ (Nat.le_add_right ..) (by omega)
  refine ⟨n / unit + 1, ?_⟩
  have hdiv := Nat.div_add_mod n unit
  rw [Nat.mul_add, Nat.mul_one]
  omega

end LeastMultiple

/-! ### Rounding in 64 bits -/

namespace Config

variable {n unit : UInt64}

/-- The sums that round `n` up stay within 64 bits: nothing is taken from less, and nothing is carried. -/
def Exact (n unit : UInt64) : Prop :=
  n % unit ≠ 0 → n % unit ≤ unit ∧ n.toNat + (unit - n % unit).toNat < UInt64.size

theorem toNat_sub_mod (hunit : unit ≠ 0) (n : UInt64) :
    n % unit ≤ unit ∧ (unit - n % unit).toNat = unit.toNat - n.toNat % unit.toNat := by
  have hle : n % unit ≤ unit := UInt64.le_of_lt (UInt64.mod_lt n (UInt64.pos_iff_ne_zero.mpr hunit))
  exact ⟨hle, by rw [UInt64.toNat_sub_of_le _ _ hle, UInt64.toNat_mod]⟩

theorem toNat_pos (hunit : unit ≠ 0) : 0 < unit.toNat := UInt64.pos_iff_ne_zero.mpr hunit

theorem mod_eq_zero_iff : n % unit = 0 ↔ n.toNat % unit.toNat = 0 := by
  rw [← UInt64.toNat_inj, UInt64.toNat_mod]
  rfl

theorem toNat_roundedUp (hunit : unit ≠ 0) (n : UInt64) :
    (roundedUp n unit).toNat = leastMultiple n.toNat unit.toNat % UInt64.size := by
  rw [roundedUp]
  by_cases hzero : n % unit = 0
  · have hdvd : unit.toNat ∣ n.toNat := Nat.dvd_of_mod_eq_zero (mod_eq_zero_iff.mp hzero)
    rw [if_pos hzero, leastMultiple_of_dvd (toNat_pos hunit) hdvd]
    exact (Nat.mod_eq_of_lt n.toNat_lt).symm
  · rw [if_neg hzero, leastMultiple_of_not_dvd (toNat_pos hunit) (mt mod_eq_zero_iff.mpr hzero),
      UInt64.toNat_add, (toNat_sub_mod hunit n).2]

/-- The sums stay within 64 bits as long as the multiple does. -/
theorem exact_iff (hunit : unit ≠ 0) :
    Exact n unit ↔ leastMultiple n.toNat unit.toNat < UInt64.size := by
  obtain ⟨hle, hsub⟩ := toNat_sub_mod hunit n
  by_cases hzero : n % unit = 0
  · rw [leastMultiple_of_dvd (toNat_pos hunit) (Nat.dvd_of_mod_eq_zero (mod_eq_zero_iff.mp hzero))]
    exact ⟨fun _ => n.toNat_lt, fun _ hrem => absurd hzero hrem⟩
  · rw [leastMultiple_of_not_dvd (toNat_pos hunit) (mt mod_eq_zero_iff.mpr hzero), ← hsub]
    exact ⟨fun h => (h hzero).2, fun h _ => ⟨hle, h⟩⟩

theorem roundedUp_of_dvd (h : unit.toNat ∣ n.toNat) : roundedUp n unit = n := by
  rw [roundedUp, if_pos (mod_eq_zero_iff.mpr (Nat.mod_eq_zero_of_dvd h))]

theorem toNat_roundedUp_of_lt (hunit : unit ≠ 0) (h : leastMultiple n.toNat unit.toNat < UInt64.size) :
    (roundedUp n unit).toNat = leastMultiple n.toNat unit.toNat := by
  rw [toNat_roundedUp hunit, Nat.mod_eq_of_lt h]

/-- A multiple beyond 64 bits comes round to less than a unit. -/
theorem lt_of_size_le (hunit : unit ≠ 0) (h : UInt64.size ≤ leastMultiple n.toNat unit.toNat) :
    (roundedUp n unit).toNat < unit.toNat := by
  have hlast := leastMultiple_lt n.toNat (toNat_pos hunit)
  have hn : n.toNat < UInt64.size := n.toNat_lt
  have hsize : unit.toNat < UInt64.size := unit.toNat_lt
  rw [toNat_roundedUp hunit, Nat.mod_eq_sub_mod h, Nat.mod_eq_of_lt (by omega)]
  omega

/-- So it is a multiple only if it is zero. -/
theorem eq_zero_of_size_le (hunit : unit ≠ 0) (h : UInt64.size ≤ leastMultiple n.toNat unit.toNat)
    (hdvd : unit.toNat ∣ (roundedUp n unit).toNat) : roundedUp n unit = 0 :=
  UInt64.toNat_inj.mp (Nat.eq_zero_of_dvd_of_lt hdvd (lt_of_size_le hunit h))

/-! ### Settings that have been validated -/

/-- The interval of swings that is asked for; zero stands for the standard one. -/
def askedAnimation (c : Config) : UInt64 := if c.animation = 0 then standard.animation else c.animation

/-- The interval of wear that is asked for; zero stands for the standard one. -/
def askedDurability (c : Config) : UInt64 := if c.durability = 0 then standard.durability else c.durability

/-- The interval of wear can be rounded up within 64 bits. -/
def Fits (c : Config) : Prop :=
  leastMultiple c.askedDurability.toNat c.askedAnimation.toNat < UInt64.size

/-- Settings that can be used in the place of those that were asked for: the clock and both intervals go on,
wear comes on a tick that swings and no sooner than asked for, and the tool breaks at last. -/
structure Safe (asked c : Config) : Prop where
  period : c.period ≠ 0
  animation : c.animation ≠ 0
  durability : c.durability ≠ 0
  multiple : c.animation.toNat ∣ c.durability.toNat
  kept : asked.durability ≠ 0 → asked.durability ≤ c.durability
  step : 1 ≤ c.step

variable {c : Config}

theorem askedAnimation_ne_zero (c : Config) : c.askedAnimation ≠ 0 := c.animation_validated_ne_zero

theorem askedDurability_ne_zero (c : Config) : c.askedDurability ≠ 0 := by
  rw [askedDurability]
  split
  · decide
  · assumption

theorem animation_validated (c : Config) : c.validated.animation = c.askedAnimation := rfl

theorem durability_validated (c : Config) :
    c.validated.durability = roundedUp c.askedDurability c.askedAnimation := rfl

theorem period_validated_ne_zero (c : Config) : c.validated.period ≠ 0 := by
  show (if c.period = 0 then standard.period else c.period) ≠ 0
  split
  · decide
  · assumption

theorem one_le_step_validated (c : Config) : 1 ≤ c.validated.step := by
  have hpos : 0 < c.validated.step := UInt8.pos_iff_ne_zero.mpr c.step_validated_ne_zero
  exact UInt8.le_iff_toNat_le.mpr (UInt8.lt_iff_toNat_lt.mp hpos)

/-- Within 64 bits the interval of wear is the least multiple. -/
theorem Fits.toNat_durability (h : c.Fits) :
    c.validated.durability.toNat = leastMultiple c.askedDurability.toNat c.askedAnimation.toNat := by
  rw [durability_validated, toNat_roundedUp_of_lt c.askedAnimation_ne_zero h]

theorem Fits.le_durability (h : c.Fits) : c.askedDurability ≤ c.validated.durability := by
  rw [UInt64.le_iff_toNat_le, h.toNat_durability]
  exact le_leastMultiple _ (toNat_pos c.askedAnimation_ne_zero)

theorem Fits.dvd_durability (h : c.Fits) : c.validated.animation.toNat ∣ c.validated.durability.toNat := by
  rw [h.toNat_durability]
  exact dvd_leastMultiple ..

theorem Fits.durability_ne_zero (h : c.Fits) : c.validated.durability ≠ 0 := by
  have hpos : 0 < c.askedDurability := UInt64.pos_iff_ne_zero.mpr c.askedDurability_ne_zero
  exact UInt64.pos_iff_ne_zero.mp (UInt64.lt_of_lt_of_le hpos h.le_durability)

/-- Beyond 64 bits the interval of wear is no multiple, or zero. -/
theorem fits_of_dvd (hdvd : c.validated.animation.toNat ∣ c.validated.durability.toNat)
    (hne : c.validated.durability ≠ 0) : c.Fits := by
  rw [animation_validated, durability_validated] at hdvd
  rw [durability_validated] at hne
  exact Nat.lt_of_not_le fun hsize => hne (eq_zero_of_size_le c.askedAnimation_ne_zero hsize hdvd)

theorem Fits.safe (h : c.Fits) : c.Safe c.validated where
  period := c.period_validated_ne_zero
  animation := c.animation_validated_ne_zero
  durability := h.durability_ne_zero
  multiple := h.dvd_durability
  kept hasked := by
    have hle := h.le_durability
    rwa [askedDurability, if_neg hasked] at hle
  step := c.one_le_step_validated

/-- Settings that are safe are left as they are. -/
theorem Safe.validated_eq {asked : Config} (h : asked.Safe c) : c.validated = c := by
  obtain ⟨hperiod, hanimation, hdurability, hdvd, -, hstep⟩ := h
  have hrounded : roundedUp c.durability c.animation = c.durability := roundedUp_of_dvd hdvd
  have hstep : c.step ≠ 0 := fun hzero => absurd hstep (by rw [hzero]; decide)
  rw [validated, if_neg hperiod, if_neg hanimation, if_neg hdurability, if_neg hstep]
  simp only [hrounded]

/-- Whatever the first validation has left can be rounded up by a second. -/
theorem fits_validated (c : Config) : c.validated.Fits := by
  have hunit : c.validated.askedAnimation = c.validated.animation := if_neg c.animation_validated_ne_zero
  have hpos : 0 < c.validated.animation.toNat := toNat_pos c.animation_validated_ne_zero
  have hsize : c.validated.animation.toNat < UInt64.size := c.validated.animation.toNat_lt
  rw [Fits, hunit]
  by_cases hzero : c.validated.durability = 0
  · -- the standard interval takes the place of zero
    rw [askedDurability, if_pos hzero]
    rcases Nat.le_total 40 c.validated.animation.toNat with hle | hle
    · exact Nat.lt_of_le_of_lt (leastMultiple_le hpos (Nat.dvd_refl _) hle) hsize
    · have hsum : 40 + c.validated.animation.toNat ≤ 80 := Nat.add_le_add_left hle 40
      exact Nat.lt_trans (leastMultiple_lt _ hpos) (Nat.lt_of_le_of_lt hsum (by decide))
  · rw [askedDurability, if_neg hzero]
    by_cases h : c.Fits
    · rw [leastMultiple_of_dvd hpos h.dvd_durability]
      exact c.validated.durability.toNat_lt
    · have hlt := lt_of_size_le c.askedAnimation_ne_zero (Nat.not_lt.mp h)
      exact Nat.lt_of_le_of_lt (leastMultiple_le hpos (Nat.dvd_refl _) (Nat.le_of_lt hlt)) hsize

/-- **Settings that have been validated are safe if and only if the interval of wear can be rounded up** within
64 bits. This is also when no sum of the rounding leaves them, and when validating the settings again changes
nothing. The clock, the interval of swings and the step are sound in any case. -/
theorem validated_safe_iff (c : Config) :
    (c.Safe c.validated ↔ c.Fits) ∧ (c.validated.validated = c.validated ↔ c.Fits) ∧
      (Exact c.askedDurability c.askedAnimation ↔ c.Fits) ∧
      c.validated.period ≠ 0 ∧ c.validated.animation ≠ 0 ∧ 1 ≤ c.validated.step := by
  have hagain := c.fits_validated
  refine ⟨⟨fun h => fits_of_dvd h.multiple h.durability, Fits.safe⟩,
    ⟨fun hsame => ?_, fun h => h.safe.validated_eq⟩,
    exact_iff c.askedAnimation_ne_zero, c.period_validated_ne_zero, c.animation_validated_ne_zero,
    c.one_le_step_validated⟩
  have hdvd := hagain.dvd_durability
  have hne := hagain.durability_ne_zero
  rw [hsame] at hdvd hne
  exact fits_of_dvd hdvd hne

/-- **Rounding up can end below what was asked for.** The last number of 64 bits becomes 4 as an interval of
wear, next to the standard interval of swings. Next to an interval of two it becomes zero, and the first tick
of an activation breaks off. -/
theorem interval_lost :
    let asked := { standard with animation := 2, durability := 18446744073709551615 }
    let s := (Session.new.activate ⟨0, 64, 0⟩).2
    { standard with durability := 18446744073709551615 }.validated.durability = 4 ∧
      asked.validated.durability = 0 ∧ (s.beginTick asked.validated 1).1 = .fault .zeroInterval ∧
      ¬ ∀ c : Config, c.Safe c.validated := by
  intro asked s
  have hlost : asked.validated.durability = 0 := by decide
  exact ⟨by decide, hlost, by decide, fun h => (h asked).durability hlost⟩

end Config

end Pickaxe.Mining
