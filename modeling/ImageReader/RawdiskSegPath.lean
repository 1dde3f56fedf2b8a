import ImageReader.Loop
import ImageReader.Machine
import ImageReader.Text
import Mathlib.Data.Finset.Card

/-!
# Discovering the segments of a raw image

A segment is named by a stem, a dot and a number of fixed width.  Given one
name, `segmentPaths` probes for the start of the sequence, walks upward to its
end, and refuses a sequence with a hole next to what was named.

The checker answers each probe from a fixed state of the world, so it is a
function of the name.  Paths are lists of characters.
-/

namespace ImageReader
namespace Rawdisk

variable {ε : Type}

abbrev Path := List Char

structure ExistsError where
  path : Path
  code : ℕ
  deriving DecidableEq, Repr

inductive DiscoveryError where
  | missing (path : Path)
  | undetermined (err : ExistsError)
  deriving DecidableEq, Repr

abbrev ExistsChecker := Path → Except ExistsError Bool

def MIN_SEGMENT_DIGITS : ℕ := 2

/-! ## Names -/

/-- The number a list of digits denotes. -/
def digitsValue (digits : List Char) : ℕ := Nat.ofDigitChars 10 digits 0

/-- `(stem, number, digit width)` -/
def splitNumericSuffix (path : Path) : Option (Path × ℕ × ℕ) :=
  match rsplitOnce '.' path with
  | none => none
  | some (stem, suffix) =>
      if suffix.length < MIN_SEGMENT_DIGITS ∨ suffix.all Char.isDigit = false
      then none
      else if digitsValue suffix < wordLimit then
        some (stem, digitsValue suffix, suffix.length)
      else none

def isZeroPadded (build : Build) (num width : ℕ) : Outcome ε Bool := do
  let exponent ← build.sub32 (width % 2 ^ 32) 1
  match checkedPow 10 exponent with
  | some firstUnpadded => pure (decide (num < firstUnpadded))
  | none => pure true

/-- A number in decimal digits, padded with zeros to `width`. -/
def padded (n width : ℕ) : List Char :=
  List.replicate (width - (Nat.toDigits 10 n).length) '0' ++
    Nat.toDigits 10 n

def segmentName (stem : Path) (n width : ℕ) : Path :=
  stem ++ '.' :: padded n width

/-- The largest width a format string may be given at run time. -/
def formatWidthMax : ℕ := 65535

/-- `format!("{stem}.{n:0width$}")` -/
def candidate (stem : Path) (n width : ℕ) : Outcome ε Path :=
  if width ≤ formatWidthMax then .ok (segmentName stem n width)
  else .panic .formatWidth

/-! ## Discovery -/

section Discovery

variable (build : Build) (checker : ExistsChecker) (stem : Path) (width : ℕ)

def existsAt (path : Path) : Outcome DiscoveryError Bool :=
  (Outcome.ofExcept (checker path)).mapError .undetermined

/-- `checker.exists(candidate(stem, n, width))?` -/
def probe (n : ℕ) : Outcome DiscoveryError Bool := do
  let path ← candidate stem n width
  existsAt checker path

/-- The lowest number of the run of present segments below `lowest`. -/
def walkDown : ℕ → Outcome DiscoveryError ℕ
  | 0 => .ok 0
  | lowest + 1 => do
      if ← probe checker stem width lowest then walkDown lowest
      else pure (lowest + 1)

/-- Is the segment below `num` there? -/
def probeBelow (num : ℕ) : Outcome DiscoveryError Bool :=
  if 0 < num then probe checker stem width (num - 1) else .ok false

/-- Is the segment above `num` there?  The largest word has none. -/
def probeAbove (num : ℕ) : Outcome DiscoveryError Bool :=
  match checkedAdd num 1 with
  | some next => probe checker stem width next
  | none => .ok false

/-- A sequence without its start: the name below its lowest segment is
missing. -/
def missingStart (num : ℕ) : Outcome DiscoveryError (List Path) := do
  let lowest ← walkDown checker stem width num
  let path ← candidate stem (lowest - 1) width
  .error (.missing path)

/-- No padded start at this width: a lone file, or a sequence that has lost
its first segment. -/
def withoutStart (example_ : Path) (num : ℕ) :
    Outcome DiscoveryError (List Path) := do
  let isPadded ← isZeroPadded build num width
  if isPadded = false then pure [example_]
  else
    let below ← probeBelow checker stem width num
    let above ← probeAbove checker stem width num
    if below || above then missingStart checker stem width num
    else pure [example_]

/-- One step of the walk upward, which probes each name once. -/
def walkUpBody (state : ℕ × List Path) :
    Outcome DiscoveryError (Step (ℕ × List Path) (ℕ × List Path)) := do
  let (n, paths) := state
  let path ← candidate stem n width
  if ← existsAt checker path then
    let next ← build.add n 1
    pure (.next (next, paths ++ [path]))
  else pure (.done (n, paths))

/-- The sequence from `first` on, unless it does not hold the named segment or
ends at a hole. -/
def fromStart (fuel first num : ℕ) : Outcome DiscoveryError (List Path) := do
  let (n, paths) ← loop (walkUpBody build checker stem width) fuel (first, [])
  if num < first then
    let path ← candidate stem num width
    .error (.missing path)
  else if n ≤ num then
    let path ← candidate stem n width
    .error (.missing path)
  else
    let beyond ← build.add n 1
    if ← probe checker stem width beyond then
      let path ← candidate stem n width
      .error (.missing path)
    else pure paths

end Discovery

def segmentPaths (build : Build) (checker : ExistsChecker) (fuel : ℕ)
    (example_ : Path) : Outcome DiscoveryError (List Path) :=
  match splitNumericSuffix example_ with
  | none => .ok [example_]
  | some (stem, num, width) => do
      if ← probe checker stem width 0 then
        fromStart build checker stem width fuel 0 num
      else if ← probe checker stem width 1 then
        fromStart build checker stem width fuel 1 num
      else withoutStart build checker stem width example_ num

/-! ## Numbers and digits -/

theorem digitsValue_padded (n width : ℕ) :
    digitsValue (padded n width) = n := by
  unfold digitsValue padded
  rw [Nat.ofDigitChars_append, Nat.ofDigitChars_replicate_zero, Nat.mul_zero,
    Nat.ofDigitChars_ten_toDigits]

theorem segmentName_injective (stem : Path) (width : ℕ) :
    Function.Injective fun n => segmentName stem n width := by
  intro n n' h
  have hpadded : padded n width = padded n' width := by
    simpa [segmentName] using h
  rw [← digitsValue_padded n width, hpadded, digitsValue_padded]

theorem toNat_digit {c : Char} (h : c.isDigit) :
    48 ≤ c.toNat ∧ c.toNat - 48 < 10 := by
  rw [Char.isDigit, Bool.and_eq_true, decide_eq_true_eq,
    decide_eq_true_eq] at h
  obtain ⟨hlow, hhigh⟩ := h
  have hlow' : 48 ≤ c.toNat := hlow
  have hhigh' : c.toNat ≤ 57 := hhigh
  omega

theorem digitsValue_cons (c : Char) (rest : List Char) :
    digitsValue (c :: rest) =
      10 ^ rest.length * (c.toNat - 48) + digitsValue rest := by
  unfold digitsValue
  rw [Nat.ofDigitChars_cons, Nat.ofDigitChars_eq_ofDigitChars_zero]
  simp

theorem digitsValue_lt {digits : List Char}
    (h : ∀ c ∈ digits, c.isDigit = true) :
    digitsValue digits < 10 ^ digits.length := by
  induction digits with
  | nil => simp [digitsValue]
  | cons c rest ih =>
      have hrest := ih fun c' hc' => h c' (List.mem_cons_of_mem _ hc')
      have hc := (toNat_digit (h c List.mem_cons_self)).2
      rw [digitsValue_cons, List.length_cons, Nat.pow_succ]
      have : 10 ^ rest.length * (c.toNat - 48) ≤ 10 ^ rest.length * 9 :=
        Nat.mul_le_mul_left _ (by omega)
      omega

theorem eq_of_digitsValue_eq {digits digits' : List Char}
    (h : ∀ c ∈ digits, c.isDigit = true)
    (h' : ∀ c ∈ digits', c.isDigit = true)
    (hlength : digits.length = digits'.length)
    (hvalue : digitsValue digits = digitsValue digits') :
    digits = digits' := by
  induction digits generalizing digits' with
  | nil => exact (List.length_eq_zero_iff.mp hlength.symm).symm
  | cons c rest ih =>
      cases digits' with
      | nil => simp at hlength
      | cons c' rest' =>
          have hlen : rest.length = rest'.length := by simpa using hlength
          have hdigit := toNat_digit (h c List.mem_cons_self)
          have hdigit' := toNat_digit (h' c' List.mem_cons_self)
          have hlt := digitsValue_lt fun x hx =>
            h x (List.mem_cons_of_mem c hx)
          have hlt' := digitsValue_lt fun x hx =>
            h' x (List.mem_cons_of_mem c' hx)
          rw [digitsValue_cons, digitsValue_cons, hlen] at hvalue
          rw [hlen] at hlt
          have hhead : c.toNat - 48 = c'.toNat - 48 := by
            have hdiv := congrArg (· / 10 ^ rest'.length) hvalue
            simpa [Nat.mul_add_div (Nat.pow_pos (show 0 < 10 by decide)),
              Nat.div_eq_of_lt hlt, Nat.div_eq_of_lt hlt'] using hdiv
          have htail : digitsValue rest = digitsValue rest' := by
            rw [hhead] at hvalue
            omega
          obtain rfl : c = c' := Char.toNat_inj.mp (by omega)
          rw [ih (fun x hx => h x (List.mem_cons_of_mem _ hx))
            (fun x hx => h' x (List.mem_cons_of_mem _ hx)) hlen htail]

theorem length_padded {n width : ℕ} (hwidth : 0 < width)
    (hn : n < 10 ^ width) : (padded n width).length = width := by
  have hle := (Nat.length_toDigits_le_iff (b := 10) (by decide) hwidth).mpr hn
  unfold padded
  rw [List.length_append, List.length_replicate]
  omega

theorem isDigit_of_mem_padded {n width : ℕ} {c : Char}
    (h : c ∈ padded n width) : c.isDigit = true := by
  rcases List.mem_append.mp h with h | h
  · rw [List.eq_of_mem_replicate h]
    rfl
  · exact Nat.isDigit_of_mem_toDigits (by decide) le_rfl h

theorem segmentName_of_splitNumericSuffix {path stem : Path} {num width : ℕ}
    (h : splitNumericSuffix path = some (stem, num, width)) :
    segmentName stem num width = path ∧ num < wordLimit ∧ 2 ≤ width := by
  unfold splitNumericSuffix at h
  cases hsplit : rsplitOnce '.' path with
  | none => simp [hsplit] at h
  | some parts =>
      obtain ⟨before, suffix⟩ := parts
      simp only [hsplit] at h
      split_ifs at h with hshape hlt
      obtain ⟨rfl, rfl, rfl⟩ :
          before = stem ∧ digitsValue suffix = num ∧
            suffix.length = width := by
        simpa using h
      have hmin : 2 ≤ suffix.length := by
        unfold MIN_SEGMENT_DIGITS at hshape
        omega
      have hdigits : ∀ c ∈ suffix, c.isDigit = true := by
        have hall : suffix.all Char.isDigit = true := by
          simpa using fun hf => hshape (Or.inr hf)
        exact List.all_eq_true.mp hall
      refine ⟨?_, hlt, hmin⟩
      rw [eq_of_rsplitOnce hsplit]
      unfold segmentName
      rw [eq_of_digitsValue_eq (fun c hc => isDigit_of_mem_padded hc) hdigits
        (length_padded (by omega) (digitsValue_lt hdigits))
        (digitsValue_padded _ _)]

theorem isZeroPadded_of_sub32 {build : Build} {num width exponent : ℕ}
    (hnum : num < wordLimit)
    (hsub : (build.sub32 (width % 2 ^ 32) 1 : Outcome ε ℕ) = .ok exponent) :
    (isZeroPadded build num width : Outcome ε Bool) =
      .ok (decide (num < 10 ^ exponent)) := by
  unfold isZeroPadded checkedPow
  rw [hsub, Outcome.ok_bind]
  split_ifs with hlt
  · rfl
  · have hpad : num < 10 ^ exponent := hnum.trans_le (not_lt.mp hlt)
    simp [hpad]

/-- With a width that can be formatted, a number is padded when it has fewer
digits. -/
theorem isZeroPadded_eq {build : Build} {num width : ℕ} (hpos : 0 < width)
    (hwidth : width ≤ formatWidthMax) (hnum : num < wordLimit) :
    (isZeroPadded build num width : Outcome ε Bool) =
      .ok (decide (num < 10 ^ (width - 1))) := by
  unfold formatWidthMax at hwidth
  apply isZeroPadded_of_sub32 hnum
  rw [Nat.mod_eq_of_lt (by omega), Build.sub32_of_le hpos]

end Rawdisk
end ImageReader
