import ImageReader.RawdiskMembers

/-!
# Names and numbers

A segment name is read as the number it was written for, and the number is
written as the name it was read from.  The one condition is that the width can
be given to a format string.  Whether a number is padded is computed from the
last 32 bits of the width, so a width of 2^32 and more is taken for another
one.
-/

namespace ImageReader
namespace Rawdisk

variable {ε : Type} {build : Build} {stem : Path} {n width : ℕ}

/-! ## Digits -/

theorem length_padded_eq (n width : ℕ) :
    (padded n width).length = max width (Nat.toDigits 10 n).length := by
  unfold padded
  rw [List.length_append, List.length_replicate]
  omega

theorem head_toDigits_ne_zero (hn : 0 < n) :
    (Nat.toDigits 10 n).head? ≠ some '0' := by
  intro hhead
  obtain ⟨rest, hdigits⟩ : ∃ rest, Nat.toDigits 10 n = '0' :: rest := by
    cases hcase : Nat.toDigits 10 n with
    | nil => simp [hcase] at hhead
    | cons c rest =>
        obtain rfl : c = '0' := by simpa [hcase] using hhead
        exact ⟨rest, rfl⟩
  have hrest : ∀ c ∈ rest, c.isDigit = true := by
    intro c hc
    refine Nat.isDigit_of_mem_toDigits (n := n) (by decide) le_rfl ?_
    rw [hdigits]
    exact List.mem_cons_of_mem _ hc
  have hvalue : n = digitsValue rest := by
    calc
      n = digitsValue (Nat.toDigits 10 n) := Nat.ofDigitChars_ten_toDigits.symm
      _ = digitsValue rest := by
          rw [hdigits, digitsValue_cons]
          simp
  have hlt := digitsValue_lt hrest
  rw [← hvalue] at hlt
  rcases Nat.eq_zero_or_pos rest.length with hnil | hpos
  · rw [hnil] at hlt
    omega
  · have hle := (Nat.length_toDigits_le_iff (b := 10) (by decide) hpos).mpr hlt
    rw [hdigits, List.length_cons] at hle
    omega

/-- A number starts with a zero when it is written to more digits than it
has. -/
theorem head_padded_eq_zero_iff (n width : ℕ) :
    (padded n width).head? = some '0' ↔ n < 10 ^ (width - 1) := by
  have hdigits : 0 < (Nat.toDigits 10 n).length := Nat.length_toDigits_pos
  by_cases hshort : (Nat.toDigits 10 n).length < width
  · have hle := (Nat.length_toDigits_le_iff (b := 10) (n := n) (by decide)
      (show 0 < width - 1 by omega)).mp (by omega)
    have hfill : width - (Nat.toDigits 10 n).length =
        width - (Nat.toDigits 10 n).length - 1 + 1 := by omega
    unfold padded
    rw [hfill, List.replicate_succ]
    simpa using hle
  · have hfill : width - (Nat.toDigits 10 n).length = 0 := by omega
    unfold padded
    rw [hfill, List.replicate_zero, List.nil_append]
    rcases Nat.eq_zero_or_pos n with rfl | hn
    · simp [Nat.toDigits_zero]
    · have hnot : ¬ n < 10 ^ (width - 1) := by
        rcases Nat.eq_zero_or_pos (width - 1) with hzero | hpos
        · rw [hzero]
          omega
        · rw [← Nat.length_toDigits_le_iff (b := 10) (by decide) hpos]
          omega
      simp only [head_toDigits_ne_zero hn, hnot]

/-! ## Names -/

theorem candidate_eq_ok_iff {path : Path} :
    (candidate stem n width : Outcome ε Path) = .ok path ↔
      width ≤ formatWidthMax ∧ segmentName stem n width = path := by
  unfold candidate
  split_ifs with hwidth
  · simp [hwidth]
  · simp [hwidth]

theorem candidate_injOn_iff :
    Set.InjOn (fun n => (candidate stem n width : Outcome ε Path))
        {n | n < wordLimit} ↔
      width ≤ formatWidthMax := by
  constructor
  · intro hinj
    by_contra hwidth
    have hpanic : ∀ n, (candidate stem n width : Outcome ε Path) =
        .panic .formatWidth := fun n => if_neg hwidth
    have hsame := hinj (show 0 < wordLimit by decide) (show 1 < wordLimit by decide)
      ((hpanic 0).trans (hpanic 1).symm)
    omega
  · intro hwidth n _ n' _ hsame
    simp only [candidate_eq hwidth, Outcome.ok.injEq] at hsame
    exact segmentName_injective stem width hsame

/-! ## Padding -/

theorem pow_ge_wordLimit {exponent : ℕ} (h : 20 ≤ exponent) :
    wordLimit ≤ 10 ^ exponent := by
  calc
    wordLimit ≤ 10 ^ 20 := by decide
    _ ≤ 10 ^ exponent := Nat.pow_le_pow_right (by decide) h

/-- The last 32 bits of the width do for the whole width. -/
def WidthExact (build : Build) (n width : ℕ) : Prop :=
  if width % 2 ^ 32 = 0 then build = .release ∧ n < 10 ^ (width - 1)
  else width < 2 ^ 32 ∨ n < 10 ^ (width % 2 ^ 32 - 1)

theorem isZeroPadded_exact_iff (hn : n < wordLimit) :
    (isZeroPadded build n width : Outcome ε Bool) =
        .ok (decide ((padded n width).head? = some '0')) ↔
      WidthExact build n width := by
  have hhead : decide ((padded n width).head? = some '0') =
      decide (n < 10 ^ (width - 1)) :=
    decide_eq_decide.mpr (head_padded_eq_zero_iff n width)
  unfold WidthExact
  rw [hhead]
  by_cases hzero : width % 2 ^ 32 = 0
  · rw [if_pos hzero]
    cases build with
    | dev =>
        have hpanic : (isZeroPadded .dev n width : Outcome ε Bool) =
            .panic .subOverflow := by
          unfold isZeroPadded
          rw [hzero]
          rfl
        rw [hpanic]
        simp
    | release =>
        have hsub : (Build.release.sub32 (width % 2 ^ 32) 1 : Outcome ε ℕ) =
            .ok 4294967295 := by
          rw [hzero]
          rfl
        have hpadded : n < 10 ^ 4294967295 :=
          hn.trans_le (pow_ge_wordLimit (by decide))
        rw [isZeroPadded_of_sub32 hn hsub, Outcome.ok.injEq, decide_eq_decide]
        simp only [hpadded, true_and, true_iff]
  · rw [if_neg hzero, isZeroPadded_of_sub32 hn (Build.sub32_of_le (by omega)),
      Outcome.ok.injEq, decide_eq_decide]
    by_cases hsmall : width < 2 ^ 32
    · rw [Nat.mod_eq_of_lt hsmall]
      exact iff_of_true Iff.rfl (Or.inl hsmall)
    · have hpadded : n < 10 ^ (width - 1) :=
        hn.trans_le (pow_ge_wordLimit (by omega))
      simp only [hsmall, hpadded, false_or, iff_true]

/-! ## The correspondence -/

/-- Reading a name and writing it again, writing a number and reading it again,
one name for each number, and the leading zero of a padded one. -/
theorem names_numbers_iff (build : Build) (stem : Path) (width : ℕ)
    (hn : n < wordLimit) :
    (∀ path, splitNumericSuffix path = some (stem, n, width) →
      ((candidate stem n width : Outcome Empty Path) = .ok path ↔
        width ≤ formatWidthMax)) ∧
    (2 ≤ width →
      ((∃ path, (candidate stem n width : Outcome Empty Path) = .ok path ∧
          splitNumericSuffix path =
            some (stem, n, max width (Nat.toDigits 10 n).length)) ↔
        width ≤ formatWidthMax)) ∧
    (Set.InjOn (fun n => (candidate stem n width : Outcome Empty Path))
        {n | n < wordLimit} ↔ width ≤ formatWidthMax) ∧
    ((isZeroPadded build n width : Outcome Empty Bool) =
        .ok (decide ((padded n width).head? = some '0')) ↔
      WidthExact build n width) := by
  refine ⟨?_, ?_, candidate_injOn_iff, isZeroPadded_exact_iff hn⟩
  · intro path hsplit
    rw [candidate_eq_ok_iff]
    exact and_iff_left (segmentName_of_splitNumericSuffix hsplit).1
  · intro htwo
    have hread := splitNumericSuffix_segmentName stem htwo hn
    rw [length_padded_eq] at hread
    constructor
    · rintro ⟨path, hname, -⟩
      exact (candidate_eq_ok_iff.mp hname).1
    · intro hwidth
      exact ⟨_, candidate_eq hwidth n, hread⟩

theorem names_numbers_iff_three :
    (∀ path, splitNumericSuffix path = some ("d".toList, 1, 3) →
      ((candidate "d".toList 1 3 : Outcome Empty Path) = .ok path ↔
        3 ≤ formatWidthMax)) ∧
    (2 ≤ 3 →
      ((∃ path, (candidate "d".toList 1 3 : Outcome Empty Path) = .ok path ∧
          splitNumericSuffix path =
            some ("d".toList, 1, max 3 (Nat.toDigits 10 1).length)) ↔
        3 ≤ formatWidthMax)) ∧
    (Set.InjOn (fun n => (candidate "d".toList n 3 : Outcome Empty Path))
        {n | n < wordLimit} ↔ 3 ≤ formatWidthMax) ∧
    ((isZeroPadded .dev 1 3 : Outcome Empty Bool) =
        .ok (decide ((padded 1 3).head? = some '0')) ↔
      WidthExact .dev 1 3) :=
  names_numbers_iff .dev "d".toList 3 (by decide)

/-- A number of 65536 digits is read, and cannot be written. -/
theorem wide_name_is_lost :
    let path := segmentName "d".toList 1 65536
    splitNumericSuffix path = some ("d".toList, 1, 65536) ∧
      (candidate "d".toList 1 65536 : Outcome Empty Path) =
        .panic .formatWidth ∧
      ¬ (candidate "d".toList 1 65536 : Outcome Empty Path) = .ok path := by
  have hpanic : (candidate "d".toList 1 65536 : Outcome Empty Path) =
      .panic .formatWidth := if_neg (by decide)
  refine ⟨?_, hpanic, by rw [hpanic]; simp⟩
  rw [splitNumericSuffix_segmentName "d".toList (by decide) (by decide),
    length_padded (by decide) (one_lt_pow₀ (by decide) (by decide))]

end Rawdisk
end ImageReader
