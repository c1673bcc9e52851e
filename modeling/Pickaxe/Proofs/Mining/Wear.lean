import Pickaxe.Proofs.Mining.Attendance

/-! How long a tool lasts.

The tool loses a point of its hundred at least in every interval of wear, so that an activation ends
within a hundred intervals. Settings for which 64 bits hold a little more than this, as the standard
ones, need no care for the count of ticks (`counts_of_wear`). -/
namespace Pickaxe.Mining

theorem Config.step_validated_ne_zero (c : Config) : c.validated.step ≠ 0 := by
  show (if c.step = 0 then 1 else c.step) ≠ 0
  split
  · decide
  · assumption

variable {config : Config}

namespace Session

/-- The points left and the intervals gone by are no more than there are points. -/
def Spent (config : Config) (s : Session) : Prop :=
  s.durability.toNat + s.tickCount.toNat / config.durability.toNat ≤ fullDurability.toNat

theorem worn_lt (hstep : config.step ≠ 0) {s : Session} (hleft : s.durability ≠ 0) :
    s.worn config < s.durability := by
  unfold worn
  split
  · exact UInt8.pos_iff_ne_zero.mpr hleft
  · exact UInt8.sub_lt (UInt8.pos_iff_ne_zero.mpr hstep) (UInt8.le_of_lt (UInt8.not_le.mp ‹_›))

theorem new_spent (config : Config) : Session.new.Spent config :=
  Nat.le_of_eq (congrArg (100 + ·) (Nat.zero_div _))

namespace Spent

variable {s : Session}

theorem tickCount_lt (h : s.Spent config) (hlasts : 101 * config.durability.toNat < UInt64.size)
    (hpos : 0 < config.durability.toNat) : s.tickCount.toNat + 1 < UInt64.size := by
  have hpast : s.tickCount.toNat / config.durability.toNat ≤ 100 :=
    Nat.le_trans (Nat.le_add_left _ _) h
  have hlast : s.tickCount.toNat < 101 * config.durability.toNat :=
    (Nat.div_lt_iff_lt_mul hpos).mp (Nat.lt_succ_of_le hpast)
  exact Nat.lt_of_le_of_lt hlast hlasts

/-- A tick between two wears falls in the same interval, and one that wears begins the next. -/
theorem worked (h : s.Spent config) (hstep : config.step ≠ 0) (hleft : s.durability ≠ 0)
    (hcount : s.tickCount.toNat + 1 < UInt64.size) {plan : Plan} {after : Session}
    (hworked : Worked config s.counted plan after) : after.Spent config := by
  have htick : s.counted.tickCount.toNat = s.tickCount.toNat + 1 := by
    rw [show s.counted.tickCount = s.tickCount + 1 from rfl, UInt64.toNat_add]
    exact Nat.mod_eq_of_lt hcount
  have hwears : s.counted.tickCount % config.durability = 0 ↔
      config.durability.toNat ∣ s.tickCount.toNat + 1 := by
    rw [← UInt64.toNat_inj, UInt64.toNat_mod, htick]
    exact (Nat.dvd_iff_mod_eq_zero ..).symm
  unfold Spent at h ⊢
  obtain ⟨held, hreleased⟩ := s.counted.released_eq
  have hsucc := Nat.succ_div (a := s.tickCount.toNat) (b := config.durability.toNat)
  cases hworked with
  | spared hspared =>
    rw [if_neg (mt hwears.mpr hspared)] at hsucc
    rw [hreleased]
    show s.durability.toNat + s.counted.tickCount.toNat / _ ≤ _
    rw [htick, hsucc]
    exact h
  | worn hwear =>
    have hworn : (s.worn config).toNat < s.durability.toNat :=
      UInt8.lt_iff_toNat_lt.mp (worn_lt hstep hleft)
    rw [if_pos (hwears.mp hwear)] at hsucc
    obtain ⟨dig, hdig⟩ := startDig_eq config
      { s.counted.released with durability := s.counted.worn config }
    rw [hdig, hreleased]
    show (s.worn config).toNat + s.counted.tickCount.toNat / _ ≤ _
    rw [htick, hsucc]
    omega
  | broken hwear =>
    have hpos : 0 < s.durability.toNat := UInt8.lt_iff_toNat_lt.mp (UInt8.pos_iff_ne_zero.mpr hleft)
    rw [if_pos (hwears.mp hwear)] at hsucc
    rw [hreleased]
    show 0 + s.counted.tickCount.toNat / _ ≤ _
    rw [htick, hsucc]
    omega

theorem perform (h : s.Spent config) (hsound : s.Sound) (hstep : config.step ≠ 0)
    (hcount : s.tickCount.toNat + 1 < UInt64.size)
    (hfault : ∀ runner e, (s.beginTick config runner).1 ≠ .fault e) (x : Call) :
    (x.perform config s).Spent config := by
  cases x with
  | activate target =>
    rw [Call.perform, Session.activate]
    split <;> simp [Spent]
  | requestStop => exact h
  | beginTick runner =>
    have hticked := s.beginTick_ticked config runner
    specialize hfault runner
    rw [Call.perform]
    generalize s.beginTick config runner = turn at hticked hfault ⊢
    obtain ⟨turn, after⟩ := turn
    cases hticked with
    | foreign | stopped | ended => exact h
    | zeroInterval | corrupted => exact absurd rfl (hfault _)
    | planned _ _ hactive hwork =>
      have hleft : s.durability ≠ 0 := fun hzero => by
        rw [hsound.exhausted_iff.mp hzero] at hactive
        cases hactive
      exact h.worked hstep hleft hcount (worked_of_work hwork)
  | detach runner =>
    rw [Call.perform, Session.detach]
    split
    · exact h
    · split <;> exact h

end Spent

end Session

/-- A move makes one call of the session at most. -/
theorem Move.calls_cases (x : Move) (m : Machine) : x.calls m = [] ∨ ∃ call, x.calls m = [call] := by
  cases x with
  | activate | requestStop => exact .inr ⟨_, rfl⟩
  | release => exact .inl rfl
  | turn now runner =>
    rw [calls]
    cases m.stageOf runner with
    | woken | leaving => exact .inr ⟨_, rfl⟩
    | waiting | acting | gone => exact .inl rfl

namespace Machine

theorem Working.counts {m : Machine} (h : m.Working) (hspent : m.session.Spent m.config)
    (hstep : m.config.step ≠ 0) (hlasts : 101 * m.config.durability.toNat < UInt64.size)
    (moves : List Move) : Counts moves m := by
  induction moves generalizing m with
  | nil => trivial
  | cons x rest ih =>
    have hpos : 0 < m.config.durability.toNat :=
      UInt64.lt_iff_toNat_lt.mp (UInt64.pos_iff_ne_zero.mpr h.durability)
    have hcount := hspent.tickCount_lt hlasts hpos
    have hafter : (x.perform m).session.Spent m.config := by
      rw [x.perform_session]
      rcases x.calls_cases m with hnone | ⟨call, hone⟩
      · rw [hnone]
        exact hspent
      · rw [hone]
        exact hspent.perform h.sound hstep hcount (h.faultless hcount) call
    rw [← x.perform_config m] at hafter hstep hlasts
    exact ⟨hcount, ih (h.perform hcount x) hafter hstep hlasts⟩

/-- **Ticks are counted to the end of the tool** if 64 bits hold a hundred and one intervals of
wear. -/
theorem counts_of_wear (config : Config) (hdurability : config.validated.durability ≠ 0)
    (hlasts : 101 * config.validated.durability.toNat < UInt64.size) (moves : List Move) :
    Counts moves (new config) :=
  (new_working config hdurability).counts (Session.new_spent _) config.step_validated_ne_zero hlasts moves

example (moves : List Move) : Counts moves (new Config.standard) :=
  counts_of_wear Config.standard (by decide) (by decide) moves

end Machine

end Pickaxe.Mining
