import ImageReader.Contents
import ImageReader.RawdiskReader

/-!
# Reading a split raw image over a cache which may fail

Each slice of a read is one read of the block cache, which may fail.  The
failure ends the read; what it hands on is the error of the cache, for a part
of the range that was asked for.
-/

namespace ImageReader
namespace Rawdisk

/-- Inside a segment the cache answers with its bytes, or fails where it
may. -/
def HonestCache (cache : Cache) (segments : List Bytes)
    (mayFail : ℕ → ℕ → ℕ → Prop) : Prop :=
  ∀ idx seg, segments[idx]? = some seg → ∀ off len, 0 < len →
    off + len ≤ seg.length →
    cache.read idx off len = .ok (Slice.window seg off len) ∨
      ∃ code, cache.read idx off len = .error code ∧ mayFail idx off len

/-- The cache may fail on a part of `[beg, end_)`, which lies in one
segment. -/
def SliceMayFail (segments : List Bytes) (mayFail : ℕ → ℕ → ℕ → Prop)
    (beg end_ : ℕ) : Prop :=
  ∃ idx seg within len, segments[idx]? = some seg ∧ 0 < len ∧
    within + len ≤ seg.length ∧
    beg ≤ startOf (segments.map List.length) idx + within ∧
    startOf (segments.map List.length) idx + within + len ≤ end_ ∧
    mayFail idx within len

/-- How a read of `n` bytes at the offset may fail. -/
def ReadMayFail (segments : List Bytes) (mayFail : ℕ → ℕ → ℕ → Prop)
    (offset n : ℕ) (e : ReadError) : Prop :=
  ∃ code, e = .ioError code ∧
    SliceMayFail segments mayFail offset (offset + n)

theorem CorrectCache.honest {cache : Cache} {segments : List Bytes}
    (h : CorrectCache cache segments) (mayFail : ℕ → ℕ → ℕ → Prop) :
    HonestCache cache segments mayFail :=
  fun idx seg hseg off len _ hle => Or.inl (h idx seg hseg off len hle)

section Reading

variable {build : Build} {cache : Cache} {segments : List Bytes}
  {reader : RawdiskReader} {mayFail : ℕ → ℕ → ℕ → Prop}

/-- One iteration moves on by one cache read inside one segment, or ends with
its failure. -/
theorem readBody_honest (build : Build) (hmounted : Mounted segments reader)
    (hcache : HonestCache cache segments mayFail) {offset total : ℕ}
    (htotal : offset + total ≤ segments.flatten.length) {filled : Bytes}
    (hfilled : Filled segments offset total filled)
    (hmore : filled.length < total) :
    (∃ filled', readBody build cache reader offset total filled =
        .ok (.next filled') ∧
      Filled segments offset total filled' ∧
      filled.length < filled'.length) ∨
    ∃ code, readBody build cache reader offset total filled =
        .error (.ioError code) ∧
      SliceMayFail segments mayFail offset (offset + total) := by
  obtain ⟨hle, hbytes⟩ := hfilled
  have hlt := hmounted.segmented.lt
  rw [← List.length_flatten] at hlt
  obtain ⟨idx, within, left, seg, hlocate, hget, hsum, hpos, hwant⟩ :=
    hmounted.locate build (offset + filled.length) (by omega)
  set take := takeBytes (total - filled.length) left with htake
  have htake' : 0 < take ∧ take ≤ left ∧ take ≤ total - filled.length := by
    unfold takeBytes at htake
    omega
  have hbody : readBody build cache reader offset total filled =
      ((Outcome.ofExcept (cache.read idx within take)).mapError .ioError >>=
        fun data => pure (.next (filled ++ data))) := by
    unfold readBody
    rw [if_pos hmore, Build.add_of_lt (by omega), Outcome.ok_bind, hlocate,
      Outcome.ok_bind]
    simp only
    rw [Build.sub_of_le hle, Outcome.ok_bind, ← htake, if_neg (by omega)]
  rcases hcache idx seg hget within take htake'.1 (by omega) with
    hdata | ⟨code, hfails, hmay⟩
  · refine Or.inl ⟨filled ++ Slice.window seg within take, ?_, ⟨?_, ?_⟩, ?_⟩
    · rw [hbody, hdata]
      rfl
    · rw [List.length_append, Slice.length_window_of_le (by omega)]
      omega
    · rw [List.length_append, Slice.length_window_of_le (by omega),
        ← Slice.window_append, ← hbytes, window_segment hget (by omega),
        ← hwant]
    · rw [List.length_append, Slice.length_window_of_le (by omega)]
      omega
  · refine Or.inr ⟨code, ?_, idx, seg, within, take, hget, htake'.1, by omega,
      by omega, by omega, hmay⟩
    rw [hbody, hfails]
    rfl

/-- The outcome of filling `total` bytes. -/
def FillsHonestly (segments : List Bytes) (mayFail : ℕ → ℕ → ℕ → Prop)
    (offset total : ℕ) : Outcome ReadError Bytes → Prop
  | .ok filled => filled = Slice.window segments.flatten offset total
  | .error e => ReadMayFail segments mayFail offset total e
  | .panic _ => False
  | .hang => False

theorem readLoop_honest (build : Build) (hmounted : Mounted segments reader)
    (hcache : HonestCache cache segments mayFail) {offset total : ℕ}
    (htotal : offset + total ≤ segments.flatten.length) :
    FillsHonestly segments mayFail offset total
      (loop (readBody build cache reader offset total) (total + 1) []) := by
  apply loop_rule (Filled segments offset total)
    (fun filled : Bytes => total - filled.length)
  · intro filled hfilled
    by_cases hmore : filled.length < total
    · rcases readBody_honest build hmounted hcache htotal hfilled hmore with
        ⟨filled', hbody, hfilled', hgrow⟩ | ⟨code, hbody, hmay⟩
      · rw [hbody]
        refine ⟨hfilled', ?_⟩
        have := hfilled'.1
        simp only
        omega
      · rw [hbody]
        exact ⟨code, rfl, hmay⟩
    · unfold readBody
      rw [if_neg hmore]
      obtain ⟨hle, hbytes⟩ := hfilled
      rw [show filled.length = total by omega] at hbytes
      exact hbytes
  · exact ⟨Nat.zero_le _, by simp⟩
  · simp

/-- A read inside the image delivers the requested part of the concatenation,
or the error of a cache read for a part of it. -/
theorem Mounted.readsBytes (hmounted : Mounted segments reader)
    (hcache : HonestCache cache segments mayFail) {offset : ℕ} {buf : Bytes}
    (hoffset : offset ≤ segments.flatten.length)
    (hlt : offset + buf.length < wordLimit) :
    ReadsBytes segments.flatten (ReadMayFail segments mayFail) offset buf
      (readAtOffset build cache reader offset buf) := by
  set n := min buf.length (segments.flatten.length - offset) with hn
  have hwindow : (Slice.window buf 0 n).length = n :=
    Slice.length_window_of_le (by omega)
  unfold readAtOffset
  rw [hmounted.imageSize, if_neg (by omega), limitToEnd_eq hoffset hlt, ← hn,
    Outcome.ok_bind, Slice.range_of_le (Nat.zero_le _) (by omega),
    Outcome.ok_bind, Nat.sub_zero]
  simp only
  rw [hwindow]
  split_ifs with hzero
  · rw [hzero] at hn
    exact ⟨hn, by simp⟩
  · have hloop := readLoop_honest build hmounted hcache
      (show offset + n ≤ segments.flatten.length by omega)
    cases hcase : loop (readBody build cache reader offset n) (n + 1) [] with
    | ok filled =>
        rw [hcase] at hloop
        obtain rfl : filled = _ := hloop
        exact ⟨hn, rfl⟩
    | error e =>
        rw [hcase] at hloop
        exact hloop
    | panic fault =>
        rw [hcase] at hloop
        exact hloop
    | hang =>
        rw [hcase] at hloop
        exact hloop

/-! ## Mounted by opening -/

theorem segmentLengths_empty {sources : List (String × ℕ)}
    (h : ∃ source ∈ sources, source.2 = 0) :
    ∃ e, segmentLengths true sources = .error e := by
  induction sources with
  | nil => simp at h
  | cons source rest ih =>
      obtain ⟨path, end_⟩ := source
      unfold segmentLengths
      by_cases hzero : end_ = 0
      · exact ⟨_, if_pos ⟨rfl, hzero⟩⟩
      · rw [if_neg fun hboth => hzero hboth.2]
        obtain ⟨found, hmem, hempty⟩ := h
        rcases List.mem_cons.mp hmem with rfl | hmem
        · exact absurd hempty hzero
        · obtain ⟨e, herror⟩ := ih ⟨found, hmem, hempty⟩
          exact ⟨e, by rw [herror]; rfl⟩

/-- A reader which opening has accepted is one over the segments. -/
theorem mounted_of_opened {imagePath : String} {paths : List String}
    (hpaths : paths.length = segments.length) (hne : segments ≠ [])
    (hlt : segments.flatten.length < wordLimit)
    (hopen : openSegments build imagePath
      (paths.zip (segments.map List.length)) = .ok reader) :
    Mounted segments reader := by
  have hempty : segments.length = 1 ∨ ∀ seg ∈ segments, seg ≠ [] := by
    by_contra hcontra
    obtain ⟨hone, hsome⟩ := not_or.mp hcontra
    have hsome' : [] ∈ segments := by
      by_contra hnone
      exact hsome fun seg hseg hnil => hnone (hnil ▸ hseg)
    have hseveral : 1 < segments.length := by
      have := List.length_pos_iff.mpr hne
      omega
    obtain ⟨i, hi, hget⟩ := List.mem_iff_getElem.mp hsome'
    have hsource : ∃ source ∈ paths.zip (segments.map List.length),
        source.2 = 0 := by
      refine ⟨(paths[i], segments[i].length), ?_, by simp [hget]⟩
      refine List.mem_iff_getElem.mpr ⟨i, by simpa [hpaths] using hi, ?_⟩
      simp
    obtain ⟨e, herror⟩ := segmentLengths_empty hsource
    unfold openSegments at hopen
    rw [List.length_zip, List.length_map, hpaths, min_self,
      decide_eq_true hseveral, herror] at hopen
    simp [bind, Outcome.bind] at hopen
  obtain ⟨reader', hopen', hmounted⟩ := openSegments_mounted build imagePath
    hpaths hne hempty hlt
  rw [hopen] at hopen'
  obtain rfl : reader = reader' := Outcome.ok.inj hopen'
  exact hmounted

end Reading

end Rawdisk
end ImageReader
