import ImageReader.RawdiskSegPath

/-!
# Discovery is sound

Over a checker which answers membership in a finite set of names, discovery
ends: each step of the walk upward finds another name of the set.  What it
returns is a lone file, or the complete run of segments around the named one,
and what it reports missing is absent.
-/

namespace ImageReader
namespace Rawdisk

/-- The checker which answers membership in a set of names. -/
def memberChecker (present : Finset Path) : ExistsChecker := fun path =>
  .ok (decide (path ∈ present))

section Present

variable {build : Build} {present : Finset Path} {stem : Path} {width : ℕ}

@[simp] theorem existsAt_memberChecker (path : Path) :
    existsAt (memberChecker present) path = .ok (decide (path ∈ present)) :=
  rfl

theorem candidate_eq {ε : Type} (hwidth : width ≤ formatWidthMax) (n : ℕ) :
    (candidate stem n width : Outcome ε Path) =
      .ok (segmentName stem n width) := by
  simp [candidate, hwidth]

theorem probe_eq (hwidth : width ≤ formatWidthMax) (n : ℕ) :
    probe (memberChecker present) stem width n =
      .ok (decide (segmentName stem n width ∈ present)) := by
  unfold probe
  rw [candidate_eq hwidth, Outcome.ok_bind, existsAt_memberChecker]

/-- A width which cannot be formatted panics at the first probe. -/
theorem segmentPaths_of_wide {checker : ExistsChecker} {fuel num : ℕ}
    {example_ : Path}
    (hsuffix : splitNumericSuffix example_ = some (stem, num, width))
    (hwide : ¬ width ≤ formatWidthMax) :
    segmentPaths build checker fuel example_ = .panic .formatWidth := by
  have hprobe : probe checker stem width 0 = .panic .formatWidth := by
    unfold probe candidate
    rw [if_neg hwide]
    rfl
  unfold segmentPaths
  simp only [hsuffix, hprobe]
  rfl

theorem probeBelow_eq (hwidth : width ≤ formatWidthMax) (num : ℕ) :
    probeBelow (memberChecker present) stem width num =
      .ok (decide (0 < num ∧
        segmentName stem (num - 1) width ∈ present)) := by
  unfold probeBelow
  rw [probe_eq hwidth]
  split_ifs with h <;> simp [h]

theorem probeAbove_eq (hwidth : width ≤ formatWidthMax) (num : ℕ) :
    probeAbove (memberChecker present) stem width num =
      .ok (decide (num + 1 < wordLimit ∧
        segmentName stem (num + 1) width ∈ present)) := by
  unfold probeAbove checkedAdd
  split_ifs with h
  · simp only [probe_eq hwidth]
    simp [h]
  · simp [h]

/-! ## Walking -/

/-- The walk down goes along present names.  It stops above an absent one, or
at zero. -/
theorem walkDown_spec (present : Finset Path) (stem : Path)
    (hwidth : width ≤ formatWidthMax) (num : ℕ) :
    ∃ lowest ≤ num,
      walkDown (memberChecker present) stem width num = .ok lowest ∧
      (∀ i, lowest ≤ i → i < num → segmentName stem i width ∈ present) ∧
      (0 < lowest → segmentName stem (lowest - 1) width ∉ present) := by
  induction num with
  | zero => exact ⟨0, le_rfl, rfl, by omega, by simp⟩
  | succ num ih =>
      unfold walkDown
      rw [probe_eq hwidth, Outcome.ok_bind]
      by_cases hin : segmentName stem num width ∈ present
      · obtain ⟨lowest, hle, hwalk, hrun, habsent⟩ := ih
        refine ⟨lowest, by omega, by simpa [hin] using hwalk, ?_, habsent⟩
        intro i hlow hhigh
        rcases Nat.lt_or_eq_of_le (Nat.le_of_lt_succ hhigh) with hlt | rfl
        · exact hrun i hlow hlt
        · exact hin
      · exact ⟨num + 1, le_rfl, by simp [hin], by omega, fun _ => by simpa using hin⟩

/-- The names of the segments `first`, ..., `n - 1`. -/
def segmentNames (stem : Path) (width first n : ℕ) : List Path :=
  (List.range' first (n - first)).map fun i => segmentName stem i width

theorem segmentNames_succ {first n : ℕ} (h : first ≤ n) :
    segmentNames stem width first (n + 1) =
      segmentNames stem width first n ++ [segmentName stem n width] := by
  unfold segmentNames
  rw [Nat.sub_add_comm h, List.range'_concat, List.map_append]
  simp only [Nat.one_mul, Nat.add_sub_cancel' h]
  rfl

theorem mem_segmentNames_iff {first n i : ℕ} :
    segmentName stem i width ∈ segmentNames stem width first n ↔
      first ≤ i ∧ i < n := by
  unfold segmentNames
  rw [List.mem_map_of_injective (segmentName_injective stem width),
    List.mem_range'_1]
  omega

theorem mem_segmentNames {first n i : ℕ} (hfirst : first ≤ i) (hn : i < n) :
    segmentName stem i width ∈ segmentNames stem width first n :=
  mem_segmentNames_iff.mpr ⟨hfirst, hn⟩

/-- All segments of `[first, n)` are there. -/
def AllPresent (present : Finset Path) (stem : Path) (width first n : ℕ) :
    Prop :=
  first ≤ n ∧ ∀ i, first ≤ i → i < n → segmentName stem i width ∈ present

theorem AllPresent.length_le {first n : ℕ}
    (h : AllPresent present stem width first n) :
    n - first ≤ present.card := by
  classical
  have hsub : (Finset.Ico first n).image
      (fun i => segmentName stem i width) ⊆ present := by
    intro path hpath
    obtain ⟨i, hi, rfl⟩ := Finset.mem_image.mp hpath
    obtain ⟨hlow, hhigh⟩ := Finset.mem_Ico.mp hi
    exact h.2 i hlow hhigh
  have hcard := Finset.card_le_card hsub
  rw [Finset.card_image_of_injective _ (segmentName_injective stem width),
    Nat.card_Ico] at hcard
  exact hcard

theorem AllPresent.succ {first n : ℕ}
    (h : AllPresent present stem width first n)
    (hn : segmentName stem n width ∈ present) :
    AllPresent present stem width first (n + 1) := by
  refine ⟨by have := h.1; omega, ?_⟩
  intro i hlow hhigh
  rcases Nat.lt_or_eq_of_le (Nat.le_of_lt_succ hhigh) with hlt | rfl
  · exact h.2 i hlow hlt
  · exact hn

theorem walkUpBody_eq (build : Build) (hwidth : width ≤ formatWidthMax) (n : ℕ)
    (paths : List Path) :
    walkUpBody build (memberChecker present) stem width (n, paths) =
      if segmentName stem n width ∈ present then
        build.add n 1 >>= fun next =>
          Outcome.ok (.next (next, paths ++ [segmentName stem n width]))
      else .ok (.done (n, paths)) := by
  unfold walkUpBody
  simp only [candidate_eq hwidth, existsAt_memberChecker, Outcome.ok_bind,
    decide_eq_true_eq]
  rfl

/-- The walk upward collects the run of present segments. -/
theorem walkUp_spec (build : Build) (stem : Path) (hwidth : width ≤ formatWidthMax)
    (hcard : present.card < 2 ^ 63) {fuel first : ℕ}
    (hfuel : present.card < fuel) (hfirst : first ≤ 1) :
    ∃ n, loop (walkUpBody build (memberChecker present) stem width) fuel
        (first, []) = .ok (n, segmentNames stem width first n) ∧
      AllPresent present stem width first n ∧
      segmentName stem n width ∉ present := by
  apply loop_rule
    (fun state : ℕ × List Path =>
      AllPresent present stem width first state.1 ∧
        state.2 = segmentNames stem width first state.1)
    (fun state => present.card - (state.1 - first))
    (fun outcome : Outcome DiscoveryError (ℕ × List Path) =>
      ∃ n, outcome = .ok (n, segmentNames stem width first n) ∧
        AllPresent present stem width first n ∧
        segmentName stem n width ∉ present)
  · rintro ⟨n, paths⟩ ⟨hall, hpaths⟩
    simp only at hall hpaths
    subst hpaths
    rw [walkUpBody_eq build hwidth]
    have hlength := hall.length_le
    by_cases hin : segmentName stem n width ∈ present
    · have hall' := hall.succ hin
      have hlength' := hall'.length_le
      have hle := hall.1
      rw [if_pos hin, Build.add_of_lt (by
        rw [wordLimit_eq]
        omega)]
      refine ⟨⟨hall', (segmentNames_succ hle).symm⟩, ?_⟩
      simp only
      omega
    · rw [if_neg hin]
      exact ⟨n, rfl, hall, hin⟩
  · refine ⟨⟨le_rfl, fun i hlow hhigh => by omega⟩, ?_⟩
    simp [segmentNames]
  · simp only
    omega

/-! ## The results of discovery -/

/-- `example_` is a file of its own: there is no start at its width, and its
number is unpadded or has no neighbour. -/
def LoneFile (present : Finset Path) (stem : Path) (num width : ℕ) : Prop :=
  segmentName stem 0 width ∉ present ∧ segmentName stem 1 width ∉ present ∧
    (¬ num < 10 ^ (width - 1) ∨
      (0 < num → segmentName stem (num - 1) width ∉ present) ∧
      (num + 1 < wordLimit → segmentName stem (num + 1) width ∉ present))

/-- `paths` are the segments from the start of the sequence up to a gap of
two, and number `num` is one of them. -/
def WholeRun (present : Finset Path) (stem : Path) (num width : ℕ)
    (paths : List Path) : Prop :=
  ∃ n, let first := if segmentName stem 0 width ∈ present then 0 else 1
    paths = segmentNames stem width first n ∧
      AllPresent present stem width first n ∧
      segmentName stem n width ∉ present ∧
      segmentName stem (n + 1) width ∉ present ∧ first ≤ num ∧ num < n

/-- What discovery may do with a numbered name. -/
def Discovers (present : Finset Path) (example_ stem : Path)
    (num width : ℕ) : Outcome DiscoveryError (List Path) → Prop
  | .ok paths =>
      paths = [example_] ∧ LoneFile present stem num width ∨
        WholeRun present stem num width paths ∧ example_ ∈ paths
  | .error (.missing path) => path ∉ present
  | .error (.undetermined _) => False
  | .panic fault => fault = .formatWidth ∧ formatWidthMax < width
  | .hang => False

theorem fromStart_spec (hwidth : width ≤ formatWidthMax)
    (hcard : present.card < 2 ^ 63) {fuel first num : ℕ}
    (hfuel : present.card < fuel)
    (hfirst : first = if segmentName stem 0 width ∈ present then 0 else 1) :
    Discovers present (segmentName stem num width) stem num width
      (fromStart build (memberChecker present) stem width fuel first num) := by
  have hle : first ≤ 1 := by
    rw [hfirst]
    split_ifs <;> simp
  obtain ⟨n, hwalk, hall, habsent⟩ :=
    walkUp_spec build stem hwidth hcard hfuel hle
  have hlength := hall.length_le
  unfold fromStart
  rw [hwalk, Outcome.ok_bind]
  simp only [candidate_eq hwidth, Outcome.ok_bind, probe_eq hwidth]
  by_cases hbelow : num < first
  · rw [if_pos hbelow]
    -- the only number below the start is an absent zero
    have hzero : segmentName stem 0 width ∉ present := by
      intro hin
      rw [if_pos hin] at hfirst
      omega
    obtain rfl : num = 0 := by omega
    exact hzero
  · rw [if_neg hbelow]
    by_cases habove : n ≤ num
    · rw [if_pos habove]
      exact habsent
    · rw [if_neg habove, Build.add_of_lt (by rw [wordLimit_eq]; omega),
        Outcome.ok_bind]
      by_cases hpast : segmentName stem (n + 1) width ∈ present
      · rw [if_pos (by simpa using hpast)]
        exact habsent
      · rw [if_neg (by simpa using hpast)]
        refine Or.inr ⟨⟨n, ?_⟩, mem_segmentNames (by omega) (by omega)⟩
        rw [← hfirst]
        exact ⟨rfl, hall, habsent, hpast, by omega, by omega⟩

theorem missingStart_spec (hwidth : width ≤ formatWidthMax) {num : ℕ}
    {example_ : Path} (hzero : segmentName stem 0 width ∉ present) :
    Discovers present example_ stem num width
      (missingStart (memberChecker present) stem width num) := by
  obtain ⟨lowest, -, hwalk, -, habsent⟩ :=
    walkDown_spec present stem hwidth num
  unfold missingStart
  rw [hwalk, Outcome.ok_bind, candidate_eq hwidth, Outcome.ok_bind]
  rcases Nat.eq_zero_or_pos lowest with rfl | hpos
  · exact hzero
  · exact habsent hpos

theorem withoutStart_spec (hwidth : width ≤ formatWidthMax)
    (hpos : 0 < width) {num : ℕ} (hnum : num < wordLimit)
    {example_ : Path} (hzero : segmentName stem 0 width ∉ present)
    (hone : segmentName stem 1 width ∉ present) :
    Discovers present example_ stem num width
      (withoutStart build (memberChecker present) stem width example_
        num) := by
  unfold withoutStart
  rw [isZeroPadded_eq hpos hwidth hnum, Outcome.ok_bind]
  by_cases hpadded : num < 10 ^ (width - 1)
  · rw [if_neg (by simpa using hpadded)]
    rw [probeBelow_eq hwidth, Outcome.ok_bind, probeAbove_eq hwidth,
      Outcome.ok_bind]
    split_ifs with hneighbour
    · exact missingStart_spec hwidth hzero
    · refine Or.inl ⟨rfl, hzero, hone, Or.inr ?_⟩
      simpa using hneighbour
  · rw [if_pos (by simpa using hpadded)]
    exact Or.inl ⟨rfl, hzero, hone, Or.inl hpadded⟩

/-- Raw segment discovery is sound: it terminates, it returns a lone file or
the whole run around the named segment, and a segment it reports missing is
absent. -/
theorem segmentPaths_sound {example_ : Path} {fuel num : ℕ}
    (hcard : present.card < 2 ^ 63)
    (hsuffix : splitNumericSuffix example_ = some (stem, num, width))
    (hfuel : present.card < fuel) :
    Discovers present example_ stem num width
      (segmentPaths build (memberChecker present) fuel example_) := by
  obtain ⟨rfl, hnum, htwo⟩ := segmentName_of_splitNumericSuffix hsuffix
  by_cases hwidth : width ≤ formatWidthMax
  · unfold segmentPaths
    simp only [hsuffix]
    rw [probe_eq hwidth, Outcome.ok_bind]
    by_cases hzero : segmentName stem 0 width ∈ present
    · rw [if_pos (by simpa using hzero)]
      exact fromStart_spec hwidth hcard hfuel (by rw [if_pos hzero])
    · rw [if_neg (by simpa using hzero), probe_eq hwidth, Outcome.ok_bind]
      by_cases hone : segmentName stem 1 width ∈ present
      · rw [if_pos (by simpa using hone)]
        exact fromStart_spec hwidth hcard hfuel (by rw [if_neg hzero])
      · rw [if_neg (by simpa using hone)]
        exact withoutStart_spec hwidth (by omega) hnum hzero hone
  · rw [segmentPaths_of_wide hsuffix hwidth]
    exact ⟨rfl, by omega⟩

theorem segmentPaths_sound_three :
    Discovers {"d.001".toList, "d.002".toList, "d.003".toList}
      "d.002".toList "d".toList 2 3
      (segmentPaths .dev (memberChecker
        {"d.001".toList, "d.002".toList, "d.003".toList}) 4
        "d.002".toList) :=
  segmentPaths_sound (by decide) (by decide) (by decide)

end Present

end Rawdisk
end ImageReader
