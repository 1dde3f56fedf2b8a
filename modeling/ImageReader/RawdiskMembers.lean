import ImageReader.RawdiskDiscovery

/-!
# Naming a segment

Which segments an accepted name brings in.  Both results are about the runs
that return a list, over every finite set of names, and need no bound on that
set: a walk which wraps around past the largest word never returns a list.

A start of the sequence makes the walk upward reach the named segment.  Without
a start only the two neighbours are looked at, and a segment further below goes
unnoticed.  A sequence opens from each of its members as long as the numbers
fit the width of the names; the first number beyond it has a wider name, which
is read as a name of another sequence.
-/

namespace ImageReader
namespace Rawdisk

/-! ## Reading a segment name back -/

theorem width_le_length_padded (n width : ℕ) :
    width ≤ (padded n width).length := by
  unfold padded
  rw [List.length_append, List.length_replicate]
  omega

/-- A number which the width cannot hold has one digit more. -/
theorem length_padded_pow (width : ℕ) :
    (padded (10 ^ width) width).length = width + 1 := by
  have hupper := (Nat.length_toDigits_le_iff (b := 10) (n := 10 ^ width)
    (by decide) (Nat.succ_pos width)).mpr
      (Nat.pow_lt_pow_right (by decide) (Nat.lt_succ_self width))
  have hlower : ¬ (Nat.toDigits 10 (10 ^ width)).length ≤ width := by
    intro hle
    rcases Nat.eq_zero_or_pos width with rfl | hpos
    · exact absurd hle (by decide)
    · have := (Nat.length_toDigits_le_iff (by decide) hpos).mp hle
      omega
  unfold padded
  rw [List.length_append, List.length_replicate]
  omega

/-- The name of a number is read as that number, at the width it is written
with. -/
theorem splitNumericSuffix_segmentName (stem : Path) {n width : ℕ}
    (hwidth : 2 ≤ width) (hn : n < wordLimit) :
    splitNumericSuffix (segmentName stem n width) =
      some (stem, n, (padded n width).length) := by
  have hdot : '.' ∉ padded n width := by
    intro hmem
    exact absurd (isDigit_of_mem_padded hmem) (by decide)
  have hdigits : (padded n width).all Char.isDigit = true :=
    List.all_eq_true.mpr fun c hc => isDigit_of_mem_padded hc
  have hlength := width_le_length_padded n width
  unfold splitNumericSuffix segmentName
  rw [rsplitOnce_append stem hdot]
  simp only [digitsValue_padded, hdigits, if_pos hn]
  rw [if_neg]
  unfold MIN_SEGMENT_DIGITS
  simp only [Bool.true_eq_false, or_false]
  omega

theorem length_of_splitNumericSuffix {path stem : Path} {num width : ℕ}
    (h : splitNumericSuffix path = some (stem, num, width)) :
    path.length = stem.length + 1 + width := by
  unfold splitNumericSuffix at h
  cases hsplit : rsplitOnce '.' path with
  | none => simp [hsplit] at h
  | some parts =>
      obtain ⟨before, suffix⟩ := parts
      simp only [hsplit] at h
      split_ifs at h
      obtain ⟨rfl, -, rfl⟩ :
          before = stem ∧ digitsValue suffix = num ∧
            suffix.length = width := by
        simpa using h
      rw [eq_of_rsplitOnce hsplit, List.length_append, List.length_cons]
      omega

/-! ## The runs that return a list -/

section Listed

variable {build : Build} {present : Finset Path} {stem : Path}
  {width fuel : ℕ}

/-- Where the walk upward starts. -/
def StartsAt (present : Finset Path) (stem : Path) (width first : ℕ) : Prop :=
  first = 0 ∧ segmentName stem 0 width ∈ present ∨
    first = 1 ∧ segmentName stem 0 width ∉ present ∧
      segmentName stem 1 width ∈ present

theorem StartsAt.le_one {first : ℕ} (h : StartsAt present stem width first) :
    first ≤ 1 := by
  rcases h with ⟨rfl, -⟩ | ⟨rfl, -⟩ <;> simp

theorem StartsAt.eq_ite {first : ℕ} (h : StartsAt present stem width first) :
    first = if segmentName stem 0 width ∈ present then 0 else 1 := by
  rcases h with ⟨rfl, hin⟩ | ⟨rfl, hzero, -⟩
  · rw [if_pos hin]
  · rw [if_neg hzero]

theorem StartsAt.le_of_mem {first m : ℕ}
    (h : StartsAt present stem width first)
    (hin : segmentName stem m width ∈ present) : first ≤ m := by
  rcases h with ⟨rfl, -⟩ | ⟨rfl, hzero, -⟩
  · exact Nat.zero_le m
  · rcases Nat.eq_zero_or_pos m with rfl | hpos
    · exact absurd hin hzero
    · exact hpos

/-- The state of the walk upward: it has collected the run so far, or it has
found every number present and wrapped around. -/
structure Walked (present : Finset Path) (stem : Path) (width first : ℕ)
    (state : ℕ × List Path) : Prop where
  lt : state.1 < wordLimit
  run : AllPresent present stem width first wordLimit ∨
    AllPresent present stem width first state.1 ∧
      state.2 = segmentNames stem width first state.1

theorem Walked.start {first : ℕ} (hfirst : first ≤ 1) :
    Walked present stem width first (first, []) := by
  refine ⟨by rw [wordLimit_eq]; simp only; omega, Or.inr ⟨⟨le_rfl, ?_⟩, ?_⟩⟩
  · intro i hlow hhigh
    simp only at hhigh
    omega
  · simp [segmentNames]

theorem Walked.next {first n next : ℕ} {paths : List Path}
    (h : Walked present stem width first (n, paths))
    (hin : segmentName stem n width ∈ present)
    (hadd : build.add (ε := DiscoveryError) n 1 = .ok next) :
    Walked present stem width first
      (next, paths ++ [segmentName stem n width]) := by
  obtain ⟨hn, hrun⟩ := h
  by_cases hlt : n + 1 < wordLimit
  · rw [Build.add_of_lt hlt] at hadd
    obtain rfl : n + 1 = next := by simpa using hadd
    refine ⟨hlt, ?_⟩
    rcases hrun with hall | ⟨hall, hpaths⟩
    · exact Or.inl hall
    · simp only at hpaths
      rw [hpaths]
      exact Or.inr ⟨hall.succ hin, (segmentNames_succ hall.1).symm⟩
  · cases build with
    | dev => simp [Build.dev_add hlt] at hadd
    | release =>
        -- the largest word is a segment too, and the count starts over
        rw [Build.release_add hlt] at hadd
        obtain rfl : (n + 1) % wordLimit = next := by simpa using hadd
        refine ⟨Nat.mod_lt _ (by rw [wordLimit_eq]; omega), Or.inl ?_⟩
        rcases hrun with hall | ⟨hall, -⟩
        · exact hall
        · have hlast : wordLimit = n + 1 := by
            simp only at hn
            omega
          rw [hlast]
          exact hall.succ hin

/-- A walk upward which ends has collected the run of present segments, or has
wrapped around below its start. -/
theorem walkUp_ok (hwidth : width ≤ formatWidthMax) {first n : ℕ}
    {paths : List Path} (hfirst : first ≤ 1)
    (hloop : loop (walkUpBody build (memberChecker present) stem width) fuel
      (first, []) = .ok (n, paths)) :
    n < wordLimit ∧ segmentName stem n width ∉ present ∧
      (n < first ∨ AllPresent present stem width first n ∧
        paths = segmentNames stem width first n) := by
  apply loop_ok_rule (Walked present stem width first)
    (fun state : ℕ × List Path => state.1 < wordLimit ∧
      segmentName stem state.1 width ∉ present ∧
      (state.1 < first ∨ AllPresent present stem width first state.1 ∧
        state.2 = segmentNames stem width first state.1))
    ?_ ?_ (Walked.start hfirst) hloop
  · rintro ⟨n, paths⟩ state hwalked hnext
    rw [walkUpBody_eq build hwidth] at hnext
    split_ifs at hnext with hin
    · obtain ⟨next, hadd, hstate⟩ := Outcome.bind_eq_ok.mp hnext
      obtain rfl : (next, paths ++ [segmentName stem n width]) = state := by
        simpa using hstate
      exact hwalked.next hin hadd
    · simp at hnext
  · rintro ⟨n, paths⟩ result ⟨hn, hrun⟩ hdone
    rw [walkUpBody_eq build hwidth] at hdone
    split_ifs at hdone with hin
    · obtain ⟨next, -, hstate⟩ := Outcome.bind_eq_ok.mp hdone
      simp at hstate
    · obtain rfl : (n, paths) = result := by simpa using hdone
      refine ⟨hn, hin, ?_⟩
      rcases hrun with hall | hrun
      · refine Or.inl ?_
        by_contra hge
        exact hin (hall.2 n (not_lt.mp hge) hn)
      · exact Or.inr hrun

/-- What the code checks before it returns the segments from `first` on. -/
theorem fromStart_eq_ok {checker : ExistsChecker} {first num : ℕ}
    {paths : List Path} :
    fromStart build checker stem width fuel first num = .ok paths ↔
      ∃ n beyond, loop (walkUpBody build checker stem width) fuel
          (first, []) = .ok (n, paths) ∧
        first ≤ num ∧ num < n ∧ build.add (ε := DiscoveryError) n 1 = .ok beyond ∧
        probe checker stem width beyond = .ok false := by
  have hmissing : ∀ i, (candidate stem i width >>= fun path =>
      (.error (.missing path) : Outcome DiscoveryError (List Path))) ≠
        .ok paths := by
    intro i hok
    obtain ⟨path, -, herror⟩ := Outcome.bind_eq_ok.mp hok
    simp at herror
  unfold fromStart
  constructor
  · intro h
    obtain ⟨⟨n, paths'⟩, hloop, h⟩ := Outcome.bind_eq_ok.mp h
    simp only at h
    split_ifs at h with hbelow habove
    · exact absurd h (hmissing _)
    · exact absurd h (hmissing _)
    · obtain ⟨beyond, hadd, h⟩ := Outcome.bind_eq_ok.mp h
      obtain ⟨past, hprobe, h⟩ := Outcome.bind_eq_ok.mp h
      cases past with
      | true => exact absurd h (hmissing _)
      | false =>
          obtain rfl : paths' = paths := by simpa using h
          exact ⟨n, beyond, hloop, by omega, by omega, hadd, hprobe⟩
  · rintro ⟨n, beyond, hloop, hlow, hhigh, hadd, hprobe⟩
    rw [hloop, Outcome.ok_bind]
    simp only [if_neg (not_lt.mpr hlow), if_neg (not_le.mpr hhigh), hadd,
      hprobe, Outcome.ok_bind]
    rfl

/-- Without a start the only list is the lone file. -/
theorem withoutStart_eq_ok (hwidth : width ≤ formatWidthMax)
    (hpos : 0 < width) {num : ℕ} (hnum : num < wordLimit) {example_ : Path}
    {paths : List Path} (hzero : segmentName stem 0 width ∉ present)
    (hone : segmentName stem 1 width ∉ present) :
    withoutStart build (memberChecker present) stem width example_ num =
        .ok paths ↔
      LoneFile present stem num width ∧ paths = [example_] := by
  have hmissing :
      missingStart (memberChecker present) stem width num ≠ .ok paths := by
    intro hok
    obtain ⟨lowest, -, hok⟩ := Outcome.bind_eq_ok.mp hok
    obtain ⟨path, -, herror⟩ := Outcome.bind_eq_ok.mp hok
    simp at herror
  unfold withoutStart LoneFile
  rw [isZeroPadded_eq hpos hwidth hnum, Outcome.ok_bind]
  by_cases hpadded : num < 10 ^ (width - 1)
  · rw [if_neg (by simpa using hpadded), probeBelow_eq hwidth, Outcome.ok_bind,
      probeAbove_eq hwidth, Outcome.ok_bind]
    split_ifs with hneighbour
    · constructor
      · intro hok
        exact absurd hok hmissing
      · rintro ⟨⟨-, -, hlone⟩, -⟩
        rcases hlone with hunpadded | ⟨hbelow, habove⟩
        · exact absurd hpadded hunpadded
        · simp only [Bool.or_eq_true, decide_eq_true_eq] at hneighbour
          rcases hneighbour with ⟨hlt, hin⟩ | ⟨hlt, hin⟩
          · exact absurd hin (hbelow hlt)
          · exact absurd hin (habove hlt)
    · simp only [Bool.or_eq_true, decide_eq_true_eq, not_or,
        not_and] at hneighbour
      constructor
      · intro hok
        obtain rfl : [example_] = paths := by simpa using hok
        exact ⟨⟨hzero, hone, Or.inr hneighbour⟩, rfl⟩
      · rintro ⟨-, rfl⟩
        rfl
  · simp [hpadded, hzero, hone, eq_comm]

/-- A numbered name is returned alone, as a lone file, or with the segments from
the start of its sequence on. -/
theorem segmentPaths_eq_ok {example_ : Path} {num : ℕ} {paths : List Path}
    (hsuffix : splitNumericSuffix example_ = some (stem, num, width)) :
    segmentPaths build (memberChecker present) fuel example_ = .ok paths ↔
      width ≤ formatWidthMax ∧
        (LoneFile present stem num width ∧ paths = [example_] ∨
          ∃ first, StartsAt present stem width first ∧
            fromStart build (memberChecker present) stem width fuel first
              num = .ok paths) := by
  obtain ⟨-, hnum, htwo⟩ := segmentName_of_splitNumericSuffix hsuffix
  by_cases hwidth : width ≤ formatWidthMax
  · unfold segmentPaths
    simp only [hsuffix, probe_eq hwidth, Outcome.ok_bind, hwidth, true_and,
      decide_eq_true_eq]
    by_cases hzero : segmentName stem 0 width ∈ present
    · simp [StartsAt, LoneFile, hzero]
    · by_cases hone : segmentName stem 1 width ∈ present
      · simp [StartsAt, LoneFile, hzero, hone]
      · rw [if_neg hzero, if_neg hone,
          withoutStart_eq_ok hwidth (by omega) hnum hzero hone]
        simp [StartsAt, hzero, hone]
  · rw [segmentPaths_of_wide hsuffix hwidth]
    simp [hwidth]

/-! ## Segments below the named one -/

/-- The named segment has lost the start of its sequence and both neighbours,
and a segment further below is there. -/
def Detached (present : Finset Path) (stem : Path) (num width : ℕ) : Prop :=
  width ≤ formatWidthMax ∧ segmentName stem 0 width ∉ present ∧
    segmentName stem 1 width ∉ present ∧
    segmentName stem (num - 1) width ∉ present ∧
    (num + 1 < wordLimit → segmentName stem (num + 1) width ∉ present) ∧
    ∃ m < num, segmentName stem m width ∈ present

/-- Every segment below a zero-padded name is listed, except below a detached
one. -/
theorem lower_segments_listed_iff {num : ℕ} (hnum : num < wordLimit)
    (hpadded : num < 10 ^ (width - 1)) :
    (∀ paths, segmentPaths build (memberChecker present) fuel
        (segmentName stem num width) = .ok paths →
      ∀ m < num, segmentName stem m width ∈ present →
        segmentName stem m width ∈ paths) ↔
      ¬ Detached present stem num width := by
  rcases Nat.eq_zero_or_pos num with rfl | hpos
  · simp [Detached]
  · have htwo : 2 ≤ width := by
      by_contra hlt
      have : width - 1 = 0 := by omega
      rw [this] at hpadded
      omega
    have hlength : (padded num width).length = width := by
      apply length_padded (by omega)
      calc
        num < 10 ^ (width - 1) := hpadded
        _ ≤ 10 ^ width := Nat.pow_le_pow_right (by decide) (by omega)
    have hsuffix := splitNumericSuffix_segmentName stem htwo hnum
    rw [hlength] at hsuffix
    constructor
    · rintro hlisted ⟨hwidth, hzero, hone, hbelow, habove, m, hm, hin⟩
      have hok : segmentPaths build (memberChecker present) fuel
          (segmentName stem num width) = .ok [segmentName stem num width] :=
        (segmentPaths_eq_ok hsuffix).mpr ⟨hwidth, Or.inl
          ⟨⟨hzero, hone, Or.inr ⟨fun _ => hbelow, habove⟩⟩, rfl⟩⟩
      have hmem := hlisted _ hok m hm hin
      have heq := segmentName_injective stem width (List.mem_singleton.mp hmem)
      omega
    · intro hattached paths hok m hm hin
      obtain ⟨hwidth, hlone | ⟨first, hstart, hfrom⟩⟩ :=
        (segmentPaths_eq_ok hsuffix).mp hok
      · obtain ⟨⟨hzero, hone, hunpadded | ⟨hbelow, habove⟩⟩, -⟩ := hlone
        · exact absurd hpadded hunpadded
        · exact absurd ⟨hwidth, hzero, hone, hbelow hpos, habove, m, hm, hin⟩
            hattached
      · obtain ⟨n, beyond, hloop, hlow, hhigh, -⟩ := fromStart_eq_ok.mp hfrom
        obtain ⟨-, -, hwrapped | ⟨-, hpaths⟩⟩ :=
          walkUp_ok hwidth hstart.le_one hloop
        · omega
        · rw [hpaths]
          apply mem_segmentNames (hstart.le_of_mem hin)
          omega

theorem lower_segments_listed_iff_three :
    let present : Finset Path :=
      {"d.001".toList, "d.002".toList, "d.003".toList}
    (∀ paths, segmentPaths .dev (memberChecker present) 4
        (segmentName "d".toList 3 3) = .ok paths →
      ∀ m < 3, segmentName "d".toList m 3 ∈ present →
        segmentName "d".toList m 3 ∈ paths) ↔
      ¬ Detached present "d".toList 3 3 :=
  lower_segments_listed_iff (by decide) (by decide)

/-- `d.005` opens alone next to `d.002`. -/
theorem lower_segment_left_out :
    ∃ paths, segmentPaths .dev
        (memberChecker {"d.002".toList, "d.005".toList}) 1
        (segmentName "d".toList 5 3) = .ok paths ∧
      segmentName "d".toList 2 3 ∈
        ({"d.002".toList, "d.005".toList} : Finset Path) ∧
      segmentName "d".toList 2 3 ∉ paths :=
  ⟨["d.005".toList], by decide, by decide, by decide⟩

/-! ## Naming another member -/

theorem length_segmentName (stem : Path) (n width : ℕ) :
    (segmentName stem n width).length =
      stem.length + 1 + (padded n width).length := by
  unfold segmentName
  rw [List.length_append, List.length_cons]
  omega

/-- No listed name is shorter than the one that was named. -/
theorem length_le_of_listed {example_ q : Path} {paths : List Path}
    (hok : segmentPaths build (memberChecker present) fuel example_ =
      .ok paths) (hq : q ∈ paths) : example_.length ≤ q.length := by
  cases hsuffix : splitNumericSuffix example_ with
  | none =>
      unfold segmentPaths at hok
      simp only [hsuffix] at hok
      obtain rfl : [example_] = paths := by simpa using hok
      rw [List.mem_singleton.mp hq]
  | some parts =>
      obtain ⟨stem, num, width⟩ := parts
      obtain ⟨hwidth, ⟨-, rfl⟩ | ⟨first, hstart, hfrom⟩⟩ :=
        (segmentPaths_eq_ok hsuffix).mp hok
      · rw [List.mem_singleton.mp hq]
      · obtain ⟨n, beyond, hloop, hlow, hhigh, -⟩ := fromStart_eq_ok.mp hfrom
        obtain ⟨-, -, hwrapped | ⟨-, rfl⟩⟩ :=
          walkUp_ok hwidth hstart.le_one hloop
        · omega
        · obtain ⟨i, -, rfl⟩ := List.mem_map.mp hq
          rw [length_of_splitNumericSuffix hsuffix, length_segmentName]
          have := width_le_length_padded i width
          omega

/-- The sequence of `example_` goes on past the largest number its width can
hold. -/
def Outgrows (present : Finset Path) (example_ : Path) : Prop :=
  match splitNumericSuffix example_ with
  | none => False
  | some (stem, _, width) =>
      let first := if segmentName stem 0 width ∈ present then 0 else 1
      ∀ i, first ≤ i → i ≤ 10 ^ width → segmentName stem i width ∈ present

/-- A list of segments is opened by each of its members exactly when the
numbers fit the width of the names. -/
theorem opens_from_every_member_iff {example_ : Path} {paths : List Path}
    (hok : segmentPaths build (memberChecker present) fuel example_ =
      .ok paths) :
    (∀ q ∈ paths, segmentPaths build (memberChecker present) fuel q =
      .ok paths) ↔ ¬ Outgrows present example_ := by
  unfold Outgrows
  cases hsuffix : splitNumericSuffix example_ with
  | none =>
      have hsame := hok
      unfold segmentPaths at hsame
      simp only [hsuffix] at hsame
      obtain rfl : [example_] = paths := by simpa using hsame
      simpa using hok
  | some parts =>
      obtain ⟨stem, num, width⟩ := parts
      obtain ⟨-, hnum, htwo⟩ := segmentName_of_splitNumericSuffix hsuffix
      obtain ⟨hwidth, hlone | ⟨first, hstart, hfrom⟩⟩ :=
        (segmentPaths_eq_ok hsuffix).mp hok
      · obtain ⟨⟨hzero, hone, -⟩, rfl⟩ := hlone
        simp only [hzero, if_false]
        constructor
        · intro _ hall
          exact hone (hall 1 le_rfl (Nat.pow_pos (by decide)))
        · intro _ q hq
          rw [List.mem_singleton.mp hq]
          exact hok
      · obtain ⟨n, beyond, hloop, hlow, hhigh, hadd, hprobe⟩ :=
          fromStart_eq_ok.mp hfrom
        obtain ⟨hn, habsent, hwrapped | ⟨hall, hpaths⟩⟩ :=
          walkUp_ok hwidth hstart.le_one hloop
        · omega
        simp only [← hstart.eq_ite]
        constructor
        · intro hmembers hout
          have hlong : 10 ^ width < n := by
            by_contra hle
            exact habsent (hout n hall.1 (not_lt.mp hle))
          have hfirst : first < 10 ^ width := by
            have := hstart.le_one
            have := Nat.pow_le_pow_right (show 0 < 10 by decide) htwo
            omega
          have hmem : segmentName stem (10 ^ width) width ∈ paths := by
            rw [hpaths]
            exact mem_segmentNames hfirst.le hlong
          have hmem' : segmentName stem first width ∈ paths := by
            rw [hpaths]
            exact mem_segmentNames le_rfl (by omega)
          have hle := length_le_of_listed (hmembers _ hmem) hmem'
          rw [length_segmentName, length_segmentName, length_padded_pow,
            length_padded (by omega) hfirst] at hle
          omega
        · intro hfits q hq
          have hshort : n ≤ 10 ^ width := by
            by_contra hlt
            exact hfits fun i hlow hhigh => hall.2 i hlow (by omega)
          rw [hpaths] at hq
          obtain ⟨j, hj, rfl⟩ := List.mem_map.mp hq
          rw [List.mem_range'_1] at hj
          have hsuffix' := splitNumericSuffix_segmentName stem htwo
            (show j < wordLimit by omega)
          rw [length_padded (by omega) (by omega)] at hsuffix'
          apply (segmentPaths_eq_ok hsuffix').mpr
          refine ⟨hwidth, Or.inr ⟨first, hstart, fromStart_eq_ok.mpr ?_⟩⟩
          exact ⟨n, beyond, hloop, hj.1, by omega, hadd, hprobe⟩

theorem opens_from_every_member_iff_two :
    let present : Finset Path := {"d.01".toList, "d.02".toList}
    (∀ q ∈ ["d.01".toList, "d.02".toList],
      segmentPaths .dev (memberChecker present) 4 q =
        .ok ["d.01".toList, "d.02".toList]) ↔
      ¬ Outgrows present "d.02".toList :=
  opens_from_every_member_iff (by decide)

/-- `d.01`, ..., `d.100` open from `d.01`, and `d.100` opens alone. -/
theorem member_opens_another_list :
    let present := (segmentNames "d".toList 2 1 101).toFinset
    segmentPaths .dev (memberChecker present) 102 "d.01".toList =
        .ok (segmentNames "d".toList 2 1 101) ∧
      "d.100".toList ∈ segmentNames "d".toList 2 1 101 ∧
      segmentPaths .dev (memberChecker present) 102 "d.100".toList =
        .ok ["d.100".toList] := by
  intro present
  have hmem (i : ℕ) : segmentName "d".toList i 2 ∈ present ↔ 1 ≤ i ∧ i < 101 := by
    rw [List.mem_toFinset, mem_segmentNames_iff]
  have hcard : present.card ≤ 100 := List.toFinset_card_le _
  have hwidth : 2 ≤ formatWidthMax := by decide
  have hstart : StartsAt present "d".toList 2 1 :=
    Or.inr ⟨rfl, by rw [hmem]; decide, by rw [hmem]; decide⟩
  refine ⟨?_, ?_, ?_⟩
  · obtain ⟨n, hloop, hall, habsent⟩ := walkUp_spec .dev "d".toList hwidth
      (by omega) (show present.card < 102 by omega) hstart.le_one
    have hn : n = 101 := by
      have hup : ¬ (1 ≤ n ∧ n < 101) := fun h => habsent ((hmem n).mpr h)
      have hdown : ¬ 101 < n := fun h => by
        have := (hmem 101).mp (hall.2 101 (by decide) h)
        omega
      have := hall.1
      omega
    subst hn
    have hsuffix : splitNumericSuffix "d.01".toList =
        some ("d".toList, 1, 2) := by decide
    apply (segmentPaths_eq_ok hsuffix).mpr
    refine ⟨hwidth, Or.inr ⟨1, hstart, fromStart_eq_ok.mpr ?_⟩⟩
    refine ⟨101, 102, hloop, le_rfl, by decide, rfl, ?_⟩
    rw [probe_eq hwidth, decide_eq_false (by rw [hmem]; decide)]
  · exact mem_segmentNames (i := 100) (by decide) (by decide)
  · have hsuffix : splitNumericSuffix "d.100".toList =
        some ("d".toList, 100, 3) := by decide
    apply (segmentPaths_eq_ok hsuffix).mpr
    have habsent {i : ℕ} (hi : padded i 3 ≠ padded i 2) :
        segmentName "d".toList i 3 ∉ present := by
      intro hin
      obtain ⟨j, -, hj⟩ := List.mem_map.mp (List.mem_toFinset.mp hin)
      have hpadded : padded j 2 = padded i 3 := by
        simpa [segmentName] using hj
      have hvalue := congrArg digitsValue hpadded
      rw [digitsValue_padded, digitsValue_padded] at hvalue
      exact hi (by rw [← hpadded, hvalue])
    refine ⟨by decide, Or.inl ⟨⟨?_, ?_, Or.inl (by decide)⟩, rfl⟩⟩
    · exact habsent (by decide)
    · exact habsent (by decide)

end Listed

end Rawdisk
end ImageReader
