import ImageReader.Machine

/-!
# The segment map of a split raw image

A split raw image is the concatenation of its segments.  `SegmentMap` stores
the cumulative start of each segment, and `locate` finds a byte by binary
search over them.

The starts are strictly increasing as long as no segment is empty, except
that a lone segment may be.  `Segmented` is that condition, together with a
total that is a word.
-/

namespace ImageReader
namespace Rawdisk

variable {ε : Type}

structure SegmentMap where
  starts : List ℕ
  lengths : List ℕ
  imageSize : ℕ
  deriving DecidableEq, Repr

/-- The starts of the segments from `acc` on, and the end of the last one. -/
def cumulativeStarts : ℕ → List ℕ → List ℕ × ℕ
  | acc, [] => ([], acc)
  | acc, len :: rest =>
      let (starts, imageSize) := cumulativeStarts (saturatingAdd acc len) rest
      (acc :: starts, imageSize)

/-- `debug_assert!`: checked in the `dev` profile only. -/
def debugAssert (build : Build) (condition : Bool) : Outcome ε Unit :=
  match build with
  | .dev => if condition then .ok () else .panic .assertionFailed
  | .release => .ok ()

def SegmentMap.new (build : Build) (lengths : List ℕ) :
    Outcome ε SegmentMap := do
  debugAssert build
    (decide (lengths.length < 2) || lengths.all fun len => 0 < len)
  let (starts, imageSize) := cumulativeStarts 0 lengths
  pure { starts, lengths, imageSize }

/-- The index of the segment where a search in the starts ends. -/
def segmentIndex (build : Build) (map : SegmentMap) (offset : ℕ) :
    Outcome ε ℕ :=
  match Slice.binarySearch map.starts offset with
  | .ok i => .ok i
  | .error i => build.sub i 1

/-- `(segment index, offset within that segment, bytes left in it)` -/
def SegmentMap.locate (build : Build) (map : SegmentMap) (offset : ℕ) :
    Outcome ε (Option (ℕ × ℕ × ℕ)) :=
  if map.imageSize ≤ offset then .ok none
  else do
    let i ← segmentIndex build map offset
    let start ← Slice.index map.starts i
    let within ← build.sub offset start
    let len ← Slice.index map.lengths i
    let left ← build.sub len within
    pure (some (i, within, left))

/-! ## Starts -/

/-- The start of segment `i`. -/
def startOf (lengths : List ℕ) (i : ℕ) : ℕ := (lengths.take i).sum

theorem startOf_succ {lengths : List ℕ} {i len : ℕ}
    (h : lengths[i]? = some len) :
    startOf lengths (i + 1) = startOf lengths i + len := by
  unfold startOf
  rw [List.take_add_one, h]
  simp

theorem startOf_length (lengths : List ℕ) :
    startOf lengths lengths.length = lengths.sum := by
  simp [startOf]

theorem cumulativeStarts_eq (acc : ℕ) (lengths : List ℕ)
    (h : acc + lengths.sum < wordLimit) :
    (cumulativeStarts acc lengths).2 = acc + lengths.sum ∧
      (cumulativeStarts acc lengths).1.length = lengths.length ∧
      ∀ i < lengths.length, (cumulativeStarts acc lengths).1[i]? =
        some (acc + startOf lengths i) := by
  induction lengths generalizing acc with
  | nil => simp [cumulativeStarts]
  | cons len rest ih =>
      rw [List.sum_cons] at h ⊢
      obtain ⟨hsize, hlength, hget⟩ :=
        ih (saturatingAdd acc len)
          (by rw [saturatingAdd_of_lt (by omega)]; omega)
      rw [saturatingAdd_of_lt (by omega)] at hsize hlength hget
      unfold cumulativeStarts
      rw [saturatingAdd_of_lt (by omega)]
      refine ⟨by simp only; omega, by simpa using hlength, ?_⟩
      intro i hi
      cases i with
      | zero => simp [startOf]
      | succ i =>
          rw [List.length_cons] at hi
          rw [List.getElem?_cons_succ, hget i (by omega)]
          simp only [startOf, List.take_succ_cons, List.sum_cons]
          congr 1
          omega

/-! ## Segmented lengths -/

/-- What opening guarantees of the segment lengths, and what makes the starts
usable. -/
structure Segmented (lengths : List ℕ) : Prop where
  nonempty : lengths ≠ []
  pos : lengths.length < 2 ∨ ∀ len ∈ lengths, 0 < len
  lt : lengths.sum < wordLimit

section Locate

variable {build : Build} {lengths : List ℕ}

theorem Segmented.pos_of_lt (h : Segmented lengths) {i j : ℕ} {len : ℕ}
    (hij : i < j) (hj : j < lengths.length) (hget : lengths[i]? = some len) :
    0 < len := by
  rcases h.pos with hone | hall
  · omega
  · exact hall len (List.mem_of_getElem? hget)

theorem Segmented.startOf_lt (h : Segmented lengths) {i j : ℕ} (hij : i < j)
    (hj : j < lengths.length) : startOf lengths i < startOf lengths j := by
  induction j, hij using Nat.le_induction with
  | base =>
      have hget := List.getElem?_eq_getElem (show i < lengths.length by omega)
      rw [startOf_succ hget]
      have := h.pos_of_lt (Nat.lt_succ_self i) hj hget
      omega
  | succ j hle ih =>
      have hget := List.getElem?_eq_getElem (show j < lengths.length by omega)
      rw [startOf_succ hget]
      have := ih (by omega)
      omega

theorem SegmentMap.new_eq (build : Build) (h : Segmented lengths) :
    ∃ map, (SegmentMap.new build lengths : Outcome ε SegmentMap) = .ok map ∧
      map.lengths = lengths ∧ map.imageSize = lengths.sum ∧
      map.starts.length = lengths.length ∧
      ∀ i < lengths.length, map.starts[i]? = some (startOf lengths i) := by
  have hassert : (debugAssert build (decide (lengths.length < 2) ||
      lengths.all fun len => 0 < len) : Outcome ε Unit) = .ok () := by
    have hcondition : (decide (lengths.length < 2) ||
        lengths.all fun len => decide (0 < len)) = true := by
      simpa [List.all_eq_true] using h.pos
    rw [hcondition]
    cases build <;> rfl
  obtain ⟨hsize, hlength, hget⟩ :=
    cumulativeStarts_eq 0 lengths (by
      have := h.lt
      omega)
  refine ⟨_, by unfold SegmentMap.new; rw [hassert]; rfl, rfl, ?_, hlength, ?_⟩
  · simpa using hsize
  · simpa using hget

/-- `locate` names the segment which holds the byte, and that segment has
bytes left. -/
theorem SegmentMap.locate_eq (build : Build) (h : Segmented lengths)
    {map : SegmentMap}
    (hlengths : map.lengths = lengths) (hsize : map.imageSize = lengths.sum)
    (hlength : map.starts.length = lengths.length)
    (hstarts : ∀ i < lengths.length,
      map.starts[i]? = some (startOf lengths i))
    {offset : ℕ} (hoffset : offset < lengths.sum) :
    ∃ i within left len, (map.locate build offset :
        Outcome ε (Option (ℕ × ℕ × ℕ))) = .ok (some (i, within, left)) ∧
      lengths[i]? = some len ∧ offset = startOf lengths i + within ∧
      within + left = len ∧ 0 < left := by
  have hne : 0 < lengths.length := List.length_pos_iff.mpr h.nonempty
  have hsorted : map.starts.Pairwise (· < ·) := by
    rw [List.pairwise_iff_getElem]
    intro i j hi hj hij
    have hi' := hstarts i (by omega)
    have hj' := hstarts j (by omega)
    rw [List.getElem?_eq_getElem hi, Option.some.injEq] at hi'
    rw [List.getElem?_eq_getElem hj, Option.some.injEq] at hj'
    rw [hi', hj']
    exact h.startOf_lt hij (by omega)
  obtain ⟨i, start, hsearch, hget, hle, hnext⟩ :=
    Slice.binarySearch_cases hsorted (hstarts 0 hne)
      (show startOf lengths 0 ≤ offset by simp [startOf])
  have hi : i < lengths.length := by
    rw [← hlength]
    exact (List.getElem?_eq_some_iff.mp hget).1
  obtain rfl : startOf lengths i = start := by
    simpa [hstarts i hi] using hget
  have hlen := List.getElem?_eq_getElem hi
  -- the byte lies before the next start, or before the end of the image
  have hend : offset < startOf lengths i + lengths[i] := by
    rw [← startOf_succ hlen]
    rcases Nat.lt_or_ge (i + 1) lengths.length with hlt | hge
    · exact hnext _ (hstarts (i + 1) hlt)
    · rw [show i + 1 = lengths.length by omega, startOf_length]
      exact hoffset
  have hindex : (segmentIndex build map offset : Outcome ε ℕ) = .ok i := by
    unfold segmentIndex
    rcases hsearch with hsearch | hsearch <;> rw [hsearch]
    simp only
    rw [Build.sub_of_le (by omega), Nat.add_sub_cancel]
  refine ⟨i, offset - startOf lengths i,
    lengths[i] - (offset - startOf lengths i), lengths[i], ?_, hlen,
    by omega, by omega, by omega⟩
  unfold SegmentMap.locate
  rw [if_neg (by omega), hindex, Outcome.ok_bind,
    Slice.index_of_getElem? hget, Outcome.ok_bind, Build.sub_of_le hle,
    Outcome.ok_bind, hlengths, Slice.index_of_getElem? hlen,
    Outcome.ok_bind, Build.sub_of_le (by omega)]
  rfl

end Locate

end Rawdisk
end ImageReader
