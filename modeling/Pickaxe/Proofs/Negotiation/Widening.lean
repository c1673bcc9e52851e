import Pickaxe.Proofs.Negotiation.Candidates

/-! A wider window.

The list without any defaults is the part of it that comes before them (`candidates_split`). A window that
reaches further begins with the one that reaches less far (`around_prefix_around`), so nothing is lost by it. But a
radius that is no signed number of 32 bits reaches nowhere (`reach_of_lt`), and only the defaults are left of
such a list. `widens_iff` says when the wider list still holds the other. -/
namespace Pickaxe.Negotiation

open Packet (Version)

variable {center : Version} {radius narrow wide : UInt32}

/-! ### How far a radius reaches -/

/-- The radius is taken for a signed number, and this one is below zero. -/
theorem reach_of_lt (h : 2147483647 < radius.toNat) : reach radius = 0 := by
  have hbits : radius.toBitVec.toNat = radius.toNat := rfl
  have hneg : radius.toInt32.toInt ≤ 0 := by
    rw [← Int32.toInt_toBitVec, UInt32.toBitVec_toInt32, BitVec.toInt_eq_toNat_cond]
    have := radius.toBitVec.isLt
    split <;> omega
  rw [reach, Int32.toNatClampNeg, Int.toNat_of_nonpos hneg]

/-- What reaches further begins with what reaches less far. -/
theorem around_prefix_around (center : Version) (h : reach narrow ≤ reach wide) :
    around center narrow <+: around center wide := by
  obtain ⟨more, hmore⟩ := Nat.exists_eq_add_of_le h
  rw [around_eq, around_eq, hmore, List.range_add, List.map_append, List.flatMap_append]
  exact List.prefix_append _ _

theorem around_of_reach_eq_zero (center : Version) (h : reach radius = 0) : around center radius = [] := by
  rw [around_eq, h]
  rfl

/-! ### The list before its defaults -/

theorem candidates_without_defaults (r : Version) (radius : UInt32) :
    candidates (some r) [] radius = r :: around r radius := by
  rw [candidates_reported, firstOf, List.append_nil]

/-- The defaults come behind all the others. -/
theorem candidates_split (r : Version) (defaults : List Version) (radius : UInt32) :
    ∃ others, candidates (some r) defaults radius = candidates (some r) [] radius ++ others ∧
      ∀ v ∈ others, v ∈ defaults := by
  refine ⟨firstOf (r :: around r radius).reverse defaults, ?_, fun v hv => (mem_firstOf.mp hv).1⟩
  rw [candidates_reported, candidates_without_defaults]

theorem mem_candidates_of_default {v : Version} {defaults : List Version} (r : Version) (radius : UInt32)
    (h : v ∈ defaults) : v ∈ candidates (some r) defaults radius :=
  mem_firstOf.mpr ⟨List.mem_append_right _ h, List.not_mem_nil⟩

/-- Without a window the defaults are all there is besides the reported version. -/
theorem candidates_of_reach_eq_zero (r : Version) (defaults : List Version) (h : reach radius = 0) :
    candidates (some r) defaults radius = (r :: defaults).eraseDups := by
  have hall : (r :: defaults).filter (· ∉ []) = r :: defaults := List.filter_eq_self.mpr (by simp)
  rw [candidates, around_of_reach_eq_zero r h, firstOf_eq]
  exact congrArg List.eraseDups hall

/-! ### A wider list -/

/-- The wider list holds the other: every candidate is one still, and those that came before the defaults
come in the order in which they came. -/
structure Widens (r : Version) (defaults : List Version) (narrow wide : UInt32) : Prop where
  kept : ∀ v ∈ candidates (some r) defaults narrow, v ∈ candidates (some r) defaults wide
  ordered : (candidates (some r) [] narrow).Sublist (candidates (some r) defaults wide)

variable {r : Version} {defaults : List Version}

/-- Defaults are never lost, so the others decide. -/
theorem Widens.of_ordered (h : (candidates (some r) [] narrow).Sublist (candidates (some r) defaults wide)) :
    Widens r defaults narrow wide where
  kept := fun v hv => by
    obtain ⟨others, hsplit, hothers⟩ := candidates_split r defaults narrow
    rw [hsplit] at hv
    cases List.mem_append.mp hv with
    | inl hfirst => exact h.mem hfirst
    | inr hother => exact mem_candidates_of_default r wide (hothers v hother)
  ordered := h

theorem widens_of_reach_le (r : Version) (defaults : List Version) (h : reach narrow ≤ reach wide) :
    Widens r defaults narrow wide := by
  obtain ⟨others, hsplit, -⟩ := candidates_split r defaults wide
  refine .of_ordered ?_
  rw [hsplit, candidates_without_defaults, candidates_without_defaults]
  have hfirst : r :: around r narrow <+: r :: around r wide :=
    (List.prefix_cons_inj r).mpr (around_prefix_around r h)
  exact hfirst.sublist.trans (List.sublist_append_left _ _)

/-- **A wider window keeps every candidate** if and only if its radius is a signed number of 32 bits, or else
if the defaults hold the narrower window anyway, in its order: from there on a window reaches nowhere. -/
theorem widens_iff (r : Version) (defaults : List Version) (h : narrow ≤ wide) :
    Widens r defaults narrow wide ↔
      wide.toNat ≤ 2147483647 ∨ (candidates (some r) [] narrow).Sublist (r :: defaults).eraseDups := by
  have hle : narrow.toNat ≤ wide.toNat := UInt32.le_iff_toNat_le.mp h
  by_cases hwide : wide.toNat ≤ 2147483647
  · have hreach : reach narrow ≤ reach wide := by
      rw [reach_of_le (Nat.le_trans hle hwide), reach_of_le hwide]
      exact hle
    exact ⟨fun _ => .inl hwide, fun _ => widens_of_reach_le r defaults hreach⟩
  · have hlist : candidates (some r) defaults wide = (r :: defaults).eraseDups :=
      candidates_of_reach_eq_zero r defaults (reach_of_lt (Nat.lt_of_not_le hwide))
    constructor
    · intro hwidens
      exact .inr (hlist ▸ hwidens.ordered)
    · intro hor
      exact .of_ordered (hlist ▸ hor.resolve_left hwide)

/-- Two steps wider, and a radius beyond all signed numbers whose window the defaults make up for, in one
order of the two. -/
theorem widens_iff_thrice :
    (1 : UInt32) ≤ 3 ∧ (1 : UInt32) ≤ 4294967295 ∧ Widens 770 [767] 1 3 ∧
      Widens 770 [769, 767, 771] 1 4294967295 ∧ ¬ Widens 770 [771, 767, 769] 1 4294967295 := by
  have hnear : (1 : UInt32) ≤ 3 := by decide
  have hfar : (1 : UInt32) ≤ 4294967295 := by decide
  exact ⟨hnear, hfar, (widens_iff 770 [767] hnear).mpr (by decide),
    (widens_iff 770 [769, 767, 771] hfar).mpr (by decide), fun h =>
      absurd ((widens_iff 770 [771, 767, 769] hfar).mp h) (by decide)⟩

/-- **The widest windows are none.** Around 770 the window of radius 1 holds 769 and 771. The window of radius
2147483648 holds neither. -/
theorem window_lost :
    (1 : UInt32) ≤ 2147483648 ∧ candidates (some 770) [767] 1 = [770, 769, 771, 767] ∧
      candidates (some 770) [767] 2147483648 = [770, 767] ∧
      ¬ ∀ (r : Version) (defaults : List Version) (narrow wide : UInt32), narrow ≤ wide →
        Widens r defaults narrow wide := by
  have hle : (1 : UInt32) ≤ 2147483648 := by decide
  have hlost : 769 ∈ candidates (some 770) [767] 1 ∧ 769 ∉ candidates (some 770) [767] 2147483648 := by decide
  refine ⟨hle, by decide, by decide, fun hall => ?_⟩
  exact hlost.2 ((hall 770 [767] 1 2147483648 hle).kept 769 hlost.1)

end Pickaxe.Negotiation
