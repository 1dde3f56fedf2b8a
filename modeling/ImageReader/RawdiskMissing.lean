import ImageReader.RawdiskMembers

/-!
# The gap below a sequence without its start

Where neither number 0 nor number 1 is there, a padded name with a neighbour is
taken for a segment of a sequence which has lost its start.  The walk down to
the lowest segment begins at the named one, whether that is there or not.  So
the name below the lowest segment is reported, unless the walk begins at an
absent name and finds nothing below it.
-/

namespace ImageReader
namespace Rawdisk

variable {build : Build} {present : Finset Path} {stem : Path}
  {num width fuel : ℕ} {example_ : Path}

/-- Number `q` is next to `num`, and is there. -/
def Neighbour (present : Finset Path) (stem : Path) (width num q : ℕ) : Prop :=
  (q + 1 = num ∨ q = num + 1 ∧ q < wordLimit) ∧
    segmentName stem q width ∈ present

/-- Number `m` is absent, and above it begins the run of a neighbour. -/
structure GapBelow (present : Finset Path) (stem : Path) (width num m : ℕ) :
    Prop where
  absent : segmentName stem m width ∉ present
  run : ∃ q, Neighbour present stem width num q ∧ m + 1 ≤ q ∧
    ∀ i, m + 1 ≤ i → i ≤ q → segmentName stem i width ∈ present

/-- The result is the error which names such a gap. -/
def NamesGap (present : Finset Path) (stem : Path) (width num : ℕ)
    (result : Outcome DiscoveryError (List Path)) : Prop :=
  ∃ m, result = .error (.missing (segmentName stem m width)) ∧
    GapBelow present stem width num m

theorem segmentPaths_of_neighbour {q : ℕ}
    (hsuffix : splitNumericSuffix example_ = some (stem, num, width))
    (hwidth : width ≤ formatWidthMax) (hpadded : num < 10 ^ (width - 1))
    (hzero : segmentName stem 0 width ∉ present)
    (hone : segmentName stem 1 width ∉ present)
    (hneighbour : Neighbour present stem width num q) :
    segmentPaths build (memberChecker present) fuel example_ =
      missingStart (memberChecker present) stem width num := by
  obtain ⟨-, hnum, htwo⟩ := segmentName_of_splitNumericSuffix hsuffix
  have hnext : decide (0 < num ∧ segmentName stem (num - 1) width ∈ present) ||
      decide (num + 1 < wordLimit ∧
        segmentName stem (num + 1) width ∈ present) := by
    rw [Bool.or_eq_true, decide_eq_true_eq, decide_eq_true_eq]
    obtain ⟨rfl | ⟨rfl, hq⟩, hin⟩ := hneighbour
    · exact Or.inl ⟨Nat.succ_pos q, hin⟩
    · exact Or.inr ⟨hq, hin⟩
  unfold segmentPaths withoutStart
  simp only [hsuffix, probe_eq hwidth, Outcome.ok_bind, hzero, hone, decide_false,
    isZeroPadded_eq (show 0 < width by omega) hwidth hnum, hpadded, decide_true,
    probeBelow_eq hwidth, probeAbove_eq hwidth]
  rw [if_pos hnext]
  rfl

section Lowest

-- `lowest` is where a walk down from `num` ends
variable {lowest q : ℕ} (hle : lowest ≤ num)
  (hrun : ∀ i, lowest ≤ i → i < num → segmentName stem i width ∈ present)
  (habsent : 0 < lowest → segmentName stem (lowest - 1) width ∉ present)

include hle hrun

theorem start_of_gapBelow (hone : segmentName stem 1 width ∉ present)
    (hgap : GapBelow present stem width num (lowest - 1)) :
    segmentName stem num width ∈ present ∨
      0 < num ∧ segmentName stem (num - 1) width ∈ present := by
  by_contra hnone
  rw [not_or, not_and] at hnone
  obtain rfl : lowest = num := by
    by_contra hne
    exact hnone.2 (by omega) (hrun (num - 1) (by omega) (by omega))
  obtain ⟨-, q, -, hlt, hpresent⟩ := hgap
  have hnext := hpresent _ le_rfl hlt
  rcases Nat.eq_zero_or_pos lowest with rfl | hpos
  · exact hone hnext
  · rw [Nat.sub_add_cancel hpos] at hnext
    exact hnone.1 hnext

include habsent

theorem gapBelow_lowest (hzero : segmentName stem 0 width ∉ present)
    (hq : Neighbour present stem width num q)
    (hstart : segmentName stem num width ∈ present ∨
      0 < num ∧ segmentName stem (num - 1) width ∈ present) :
    GapBelow present stem width num (lowest - 1) := by
  have hpos : 0 < lowest := by
    rw [Nat.pos_iff_ne_zero]
    rintro rfl
    rcases Nat.eq_zero_or_pos num with rfl | hnum
    · exact hzero (hstart.resolve_right (by omega))
    · exact hzero (hrun 0 le_rfl hnum)
  refine ⟨habsent hpos, ?_⟩
  rw [Nat.sub_add_cancel hpos]
  by_cases hin : 0 < num ∧ segmentName stem (num - 1) width ∈ present
  · -- the walk leaves the named segment if there is one below it
    have hlt : lowest < num := by
      refine Nat.lt_of_le_of_ne hle ?_
      rintro rfl
      exact habsent hin.1 hin.2
    refine ⟨num - 1, ⟨Or.inl (by omega), hin.2⟩, by omega, ?_⟩
    exact fun i hlow hhigh => hrun i hlow (by omega)
  · have hnum := hstart.resolve_right hin
    obtain ⟨rfl | ⟨rfl, hq'⟩, hqin⟩ := hq
    · exact absurd ⟨Nat.succ_pos q, hqin⟩ hin
    · refine ⟨num + 1, ⟨Or.inr ⟨rfl, hq'⟩, hqin⟩, by omega, ?_⟩
      intro i hlow hhigh
      rcases Nat.lt_trichotomy i num with hlt | rfl | hgt
      · exact hrun i hlow hlt
      · exact hnum
      · obtain rfl : i = num + 1 := by omega
        exact hqin

end Lowest

/-- The missing start is named exactly when the walk down has a present name to
begin with, or finds one below. -/
theorem missing_start_names_gap_iff
    (hsuffix : splitNumericSuffix example_ = some (stem, num, width))
    (hpadded : num < 10 ^ (width - 1))
    (hzero : segmentName stem 0 width ∉ present)
    (hone : segmentName stem 1 width ∉ present)
    (hneighbour : ∃ q, Neighbour present stem width num q) :
    NamesGap present stem width num
        (segmentPaths build (memberChecker present) fuel example_) ↔
      width ≤ formatWidthMax ∧
        (segmentName stem num width ∈ present ∨
          0 < num ∧ segmentName stem (num - 1) width ∈ present) := by
  by_cases hwidth : width ≤ formatWidthMax
  swap
  · rw [segmentPaths_of_wide hsuffix hwidth]
    simp [NamesGap, hwidth]
  obtain ⟨q, hq⟩ := hneighbour
  obtain ⟨lowest, hle, hwalk, hrun, habsent⟩ :=
    walkDown_spec present stem hwidth num
  have hmissing : missingStart (memberChecker present) stem width num =
      .error (.missing (segmentName stem (lowest - 1) width)) := by
    unfold missingStart
    rw [hwalk, Outcome.ok_bind, candidate_eq hwidth, Outcome.ok_bind]
  rw [segmentPaths_of_neighbour hsuffix hwidth hpadded hzero hone hq, hmissing]
  constructor
  · rintro ⟨m, herror, hgap⟩
    obtain rfl : lowest - 1 = m := by
      simpa using segmentName_injective stem width (by simpa using herror)
    exact ⟨hwidth, start_of_gapBelow hle hrun hone hgap⟩
  · rintro ⟨-, hstart⟩
    exact ⟨lowest - 1, rfl, gapBelow_lowest hle hrun habsent hzero hq hstart⟩

theorem missing_start_names_gap_iff_three :
    NamesGap {"d.002".toList, "d.003".toList} "d".toList 3 3
        (segmentPaths .dev (memberChecker {"d.002".toList, "d.003".toList}) 0
          "d.003".toList) ↔
      3 ≤ formatWidthMax ∧
        (segmentName "d".toList 3 3 ∈
            ({"d.002".toList, "d.003".toList} : Finset Path) ∨
          0 < 3 ∧ segmentName "d".toList (3 - 1) 3 ∈
            ({"d.002".toList, "d.003".toList} : Finset Path)) :=
  missing_start_names_gap_iff (by decide) (by decide) (by decide) (by decide)
    ⟨2, Or.inl rfl, by decide⟩

/-- The named segment is the gap, and the name below it is reported. -/
theorem absent_name_misses_gap :
    let present : Finset Path := {"d.005".toList}
    segmentPaths .dev (memberChecker present) 0 "d.004".toList =
        .error (.missing "d.003".toList) ∧
      Neighbour present "d".toList 3 4 5 ∧
      ¬ NamesGap present "d".toList 3 4
        (segmentPaths .dev (memberChecker present) 0 "d.004".toList) := by
  intro present
  have hrun : segmentPaths .dev (memberChecker present) 0 "d.004".toList =
      .error (.missing (segmentName "d".toList 3 3)) := by decide
  refine ⟨hrun, ⟨Or.inr ⟨rfl, by decide⟩, by decide⟩, ?_⟩
  rw [hrun]
  rintro ⟨m, herror, -, q, -, hlt, hpresent⟩
  obtain rfl : 3 = m := segmentName_injective "d".toList 3 (by simpa using herror)
  exact absurd (hpresent 4 le_rfl hlt) (by decide)

end Rawdisk
end ImageReader
