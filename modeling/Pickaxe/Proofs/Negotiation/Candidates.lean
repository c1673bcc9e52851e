import Pickaxe.Negotiation.Candidates

/-! The list of candidates.

Around the reported version stand the versions of the window, each nearer than those behind it, or as near
and lower (`pairwise_around`), and none but them (`mem_around`). None of the window comes twice, so of the
whole list only defaults are left out (`candidates_reported`), and those that are left keep the order in
which they come first (`pairwise_firstOf`). -/
namespace Pickaxe.Negotiation

open Packet (Version)

/-! ### First occurrences -/

section FirstOf

variable {seen l : List Version} {v : Version}

theorem firstOf_cons_of_mem (h : v ∈ seen) : firstOf seen (v :: l) = firstOf seen l := if_pos h

theorem firstOf_cons_of_notMem (h : v ∉ seen) : firstOf seen (v :: l) = v :: firstOf (v :: seen) l := if_neg h

theorem mem_firstOf : v ∈ firstOf seen l ↔ v ∈ l ∧ v ∉ seen := by
  induction l generalizing seen with
  | nil => simp [firstOf]
  | cons w l ih =>
    by_cases hw : w ∈ seen
    · rw [firstOf_cons_of_mem hw, ih, List.mem_cons]
      refine ⟨fun ⟨hv, hnot⟩ => ⟨.inr hv, hnot⟩, fun ⟨hv, hnot⟩ => ⟨hv.resolve_left ?_, hnot⟩⟩
      rintro rfl
      exact hnot hw
    · rw [firstOf_cons_of_notMem hw, List.mem_cons, ih, List.mem_cons, List.mem_cons, not_or]
      by_cases hv : v = w
      · simp [hv, hw]
      · simp [hv]

theorem firstOf_nodup (seen l : List Version) : (firstOf seen l).Nodup := by
  induction l generalizing seen with
  | nil => exact List.nodup_nil
  | cons w l ih =>
    by_cases hw : w ∈ seen
    · rw [firstOf_cons_of_mem hw]
      exact ih seen
    · rw [firstOf_cons_of_notMem hw]
      exact List.nodup_cons.mpr ⟨fun h => (mem_firstOf.mp h).2 (List.mem_cons_self ..), ih (w :: seen)⟩

/-- What comes once, and was not seen, is all taken. -/
theorem firstOf_append (hnodup : l.Nodup) (hnew : ∀ v ∈ l, v ∉ seen) (more : List Version) :
    firstOf seen (l ++ more) = l ++ firstOf (l.reverse ++ seen) more := by
  induction l generalizing seen with
  | nil => rfl
  | cons w l ih =>
    obtain ⟨hw, hnodup⟩ := List.nodup_cons.mp hnodup
    obtain ⟨hnew, hrest⟩ := List.forall_mem_cons.mp hnew
    have hlater : ∀ v ∈ l, v ∉ w :: seen := fun v hv hmem =>
      (List.mem_cons.mp hmem).elim (fun h => hw (h ▸ hv)) (hrest v hv)
    rw [List.cons_append, firstOf_cons_of_notMem hnew, ih hnodup hlater, List.reverse_cons, List.append_assoc]
    rfl

theorem firstOf_eq (seen l : List Version) : firstOf seen l = (l.filter (· ∉ seen)).eraseDups := by
  induction l generalizing seen with
  | nil => rfl
  | cons w l ih =>
    by_cases hw : w ∈ seen
    · rw [firstOf_cons_of_mem hw, ih, List.filter_cons_of_neg (by simpa using hw)]
    · have hunseen (v : Version) : decide (v ∉ w :: seen) = (!v == w && decide (v ∉ seen)) := by
        rw [Bool.eq_iff_iff]
        simp
      rw [firstOf_cons_of_notMem hw, ih, List.filter_cons_of_pos (by simpa using hw), List.eraseDups_cons,
        List.filter_filter, List.filter_congr fun v _ => hunseen v]

/-- What is kept stands in the order in which it comes first. -/
theorem pairwise_firstOf (seen l : List Version) :
    (firstOf seen l).Pairwise fun v w => l.idxOf v < l.idxOf w := by
  induction l generalizing seen with
  | nil => exact .nil
  | cons u l ih =>
    have hbehind {seen : List Version} (hu : u ∈ seen) {v : Version} (hv : v ∈ firstOf seen l) :
        (u :: l).idxOf v = l.idxOf v + 1 := by
      have hne : u ≠ v := fun h => (mem_firstOf.mp hv).2 (h ▸ hu)
      rw [List.idxOf_cons, beq_eq_false_iff_ne.mpr hne, cond_false]
    have hrest {seen : List Version} (hu : u ∈ seen) :
        (firstOf seen l).Pairwise fun v w => (u :: l).idxOf v < (u :: l).idxOf w := by
      refine (ih seen).imp_of_mem fun {v w} hv hw hlt => ?_
      rw [hbehind hu hv, hbehind hu hw]
      exact Nat.succ_lt_succ hlt
    by_cases hu : u ∈ seen
    · rw [firstOf_cons_of_mem hu]
      exact hrest hu
    · have hself : u ∈ u :: seen := List.mem_cons_self ..
      rw [firstOf_cons_of_notMem hu]
      refine .cons (fun v hv => ?_) (hrest hself)
      rw [List.idxOf_cons_self, hbehind hself hv]
      exact Nat.succ_pos _

end FirstOf

/-! ### The window -/

/-- How far a version is from another. -/
def gap (v w : Version) : Nat := (v.toInt - w.toInt).natAbs

/-- A positive version, no further than so far from the center. -/
def InWindow (center : Version) (distance : Nat) (v : Version) : Prop := 0 < v.toInt ∧ gap v center ≤ distance

/-- The order of the window: from near to far, and the lower of two that are as near. -/
def Nearer (center v w : Version) : Prop := gap v center < gap w center ∨ gap v center = gap w center ∧ v < w

/-- The versions at a distance, those that there are. -/
def ring (center : Version) (distance : Nat) : List Version :=
  (version? (center.toInt - distance)).toList ++ (version? (center.toInt + distance)).toList

theorem around_eq (center : Version) (radius : UInt32) :
    around center radius = ((List.range (reach radius)).map (· + 1)).flatMap (ring center) := rfl

variable {center v w : Version} {distance : Nat} {radius : UInt32}

theorem version?_eq_some_iff {n : Int} : version? n = some v ↔ 0 < n ∧ v.toInt = n := by
  rw [version?]
  split
  · rename_i hn
    have hsame : (Int32.ofInt n).toInt = n :=
      Int32.toInt_ofInt_of_le (by omega) (Int.lt_of_le_of_lt hn.2 (by decide))
    rw [Option.some.injEq, and_iff_right hn.1, ← Int32.toInt_inj, hsame, eq_comm]
  · rename_i hn
    refine ⟨nofun, fun ⟨hpos, hv⟩ => absurd ⟨hpos, ?_⟩ hn⟩
    exact hv ▸ v.toInt_le

theorem mem_ring (hpos : 0 < distance) : v ∈ ring center distance ↔ 0 < v.toInt ∧ gap v center = distance := by
  rw [ring, List.mem_append, Option.mem_toList, Option.mem_toList, version?_eq_some_iff, version?_eq_some_iff, gap]
  omega

theorem pairwise_ring (hpos : 0 < distance) : (ring center distance).Pairwise (Nearer center) := by
  have hone (n : Int) : (version? n).toList.Pairwise (Nearer center) := by
    cases version? n with
    | none => exact .nil
    | some v => exact List.pairwise_singleton _ v
  refine List.pairwise_append.mpr ⟨hone _, hone _, fun v hv w hw => ?_⟩
  rw [Option.mem_toList, version?_eq_some_iff] at hv hw
  refine .inr ⟨?_, Int32.lt_iff_toInt_lt.mpr ?_⟩
  · rw [gap, gap, hv.2, hw.2]
    omega
  · rw [hv.2, hw.2]
    omega

theorem mem_around : v ∈ around center radius ↔ v ≠ center ∧ InWindow center (reach radius) v := by
  have hgap : gap v center = 0 ↔ v = center := by
    rw [gap, ← Int32.toInt_inj]
    omega
  rw [around_eq, List.mem_flatMap]
  refine ⟨?_, fun ⟨hne, hpos, hle⟩ => ?_⟩
  · rintro ⟨distance, hdistance, hv⟩
    obtain ⟨d, hd, rfl⟩ := List.mem_map.mp hdistance
    obtain ⟨hpos, hv⟩ := (mem_ring (Nat.succ_pos d)).mp hv
    exact ⟨fun h => Nat.succ_ne_zero d (hv.symm.trans (hgap.mpr h)), hpos, hv ▸ List.mem_range.mp hd⟩
  · obtain ⟨d, hd⟩ := Nat.exists_eq_succ_of_ne_zero (mt hgap.mp hne)
    refine ⟨d + 1, List.mem_map.mpr ⟨d, List.mem_range.mpr ?_, rfl⟩, (mem_ring (Nat.succ_pos d)).mpr ⟨hpos, hd⟩⟩
    exact Nat.lt_of_succ_le (hd ▸ hle)

theorem pairwise_around (center : Version) (radius : UInt32) :
    (around center radius).Pairwise (Nearer center) := by
  rw [around_eq, List.pairwise_flatMap]
  refine ⟨fun distance hdistance => ?_, List.pairwise_map.mpr (List.pairwise_lt_range.imp fun {d e} hlt => ?_)⟩
  · obtain ⟨d, -, rfl⟩ := List.mem_map.mp hdistance
    exact pairwise_ring (Nat.succ_pos d)
  · intro v hv w hw
    rw [mem_ring (Nat.succ_pos _)] at hv hw
    refine .inl ?_
    rw [hv.2, hw.2]
    exact Nat.succ_lt_succ hlt

theorem nodup_around (center : Version) (radius : UInt32) : (around center radius).Nodup := by
  refine (pairwise_around center radius).imp fun {v w} hnearer => ?_
  rintro rfl
  exact hnearer.elim (Nat.lt_irrefl _) fun h => Int32.lt_irrefl h.2

/-- The radius is a number of 32 bits that has no sign yet. -/
theorem reach_of_le (h : radius.toNat ≤ 2147483647) : reach radius = radius.toNat := by
  have hsame : radius.toInt32.toInt = radius.toNat := by
    rw [← Int32.toInt_toBitVec, UInt32.toBitVec_toInt32, BitVec.toInt_eq_toNat_of_lt]
    · rfl
    · have : radius.toBitVec.toNat = radius.toNat := rfl
      omega
  rw [reach, Int32.toNatClampNeg, hsame, Int.toNat_natCast]

/-! ### The list -/

theorem candidates_nodup (reported : Option Version) (defaults : List Version) (radius : UInt32) :
    (candidates reported defaults radius).Nodup := firstOf_nodup [] _

theorem candidates_reported (r : Version) (defaults : List Version) (radius : UInt32) :
    candidates (some r) defaults radius =
      r :: around r radius ++ firstOf ((r :: around r radius).reverse) defaults := by
  have hnodup : (r :: around r radius).Nodup :=
    List.nodup_cons.mpr ⟨fun h => (mem_around.mp h).1 rfl, nodup_around r radius⟩
  have hnew : ∀ v ∈ r :: around r radius, v ∉ ([] : List Version) := fun _ _ => List.not_mem_nil
  have hall := firstOf_append hnodup hnew defaults
  rwa [List.append_nil] at hall

theorem candidates_unreported (defaults : List Version) (radius : UInt32) :
    candidates none defaults radius = defaults.eraseDups := by
  have hall : defaults.filter (· ∉ []) = defaults := List.filter_eq_self.mpr (by simp)
  rw [candidates, firstOf_eq, hall]

/-- **What the candidates are, and in which order.**

* With a reported version, and a radius that is a signed number of 32 bits: no candidate comes twice, and they
  are the reported version, the positive versions no further from it than the radius, and the defaults. The
  reported version comes first, then the others of the window from near to far, the lower one first where two
  are as near, and then the defaults that are left, in the order in which they come first.
* Without one they are the defaults, of which those that come again are dropped. -/
theorem candidates_in_order (defaults : List Version) :
    (∀ (r : Version) (radius : UInt32), radius.toNat ≤ 2147483647 →
      (candidates (some r) defaults radius).Nodup ∧
      (∀ v, v ∈ candidates (some r) defaults radius ↔ v = r ∨ InWindow r radius.toNat v ∨ v ∈ defaults) ∧
      ∃ window others, candidates (some r) defaults radius = r :: window ++ others ∧
        (∀ v, v ∈ window ↔ v ≠ r ∧ InWindow r radius.toNat v) ∧ window.Pairwise (Nearer r) ∧
        (∀ v, v ∈ others ↔ v ∈ defaults ∧ v ∉ r :: window) ∧
        others.Pairwise fun v w => defaults.idxOf v < defaults.idxOf w) ∧
    ∀ radius, candidates none defaults radius = defaults.eraseDups := by
  refine ⟨fun r radius hradius => ?_, candidates_unreported defaults⟩
  have hwindow (v : Version) : v ∈ around r radius ↔ v ≠ r ∧ InWindow r radius.toNat v := by
    rw [mem_around, reach_of_le hradius]
  have hothers (v : Version) : v ∈ firstOf (r :: around r radius).reverse defaults ↔
      v ∈ defaults ∧ v ∉ r :: around r radius := by rw [mem_firstOf, List.mem_reverse]
  refine ⟨candidates_nodup _ _ _, fun v => ?_, around r radius, firstOf _ defaults,
    candidates_reported r defaults radius, hwindow, pairwise_around r radius, hothers, pairwise_firstOf _ _⟩
  rw [candidates_reported, List.mem_append, hothers, List.mem_cons, hwindow]
  by_cases hr : v = r
  · simp [hr]
  · by_cases hin : InWindow r radius.toNat v <;> simp [hr, hin]

/-- Two short of the largest version, with a default that is in the window and one that comes twice. -/
theorem candidates_in_order_top :
    (2 : UInt32).toNat ≤ 2147483647 ∧
      candidates (some 2147483646) [5, 2147483645, 5, -7] 2 =
        [2147483646, 2147483645, 2147483647, 2147483644, 5, -7] ∧
      (candidates (some 2147483646) [5, 2147483645, 5, -7] 2).Nodup ∧
      candidates none [5, 2147483645, 5, -7] 4294967295 = [5, 2147483645, -7] := by
  have hradius : (2 : UInt32).toNat ≤ 2147483647 := by decide
  obtain ⟨hreported, hunreported⟩ := candidates_in_order [5, 2147483645, 5, -7]
  exact ⟨hradius, by decide, (hreported 2147483646 2 hradius).1, (hunreported 4294967295).trans (by decide)⟩

end Pickaxe.Negotiation
