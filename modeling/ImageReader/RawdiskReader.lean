import ImageReader.ImageSource
import ImageReader.Loop
import ImageReader.RawdiskSpans

/-!
# Reading a split raw image

`readAtOffset` serves a read in per-segment slices, each of them one read of
the block cache.  Over a cache which answers with the bytes of the segments,
the slices put together are the requested part of the concatenation.
-/

namespace ImageReader
namespace Rawdisk

/-- The block cache as the reader sees it: a read fills the slice it is given,
or fails. -/
structure Cache where
  read : ℕ → ℕ → ℕ → Except ℕ Bytes
  length_eq : ∀ idx off len data,
    read idx off len = .ok data → data.length = len

inductive ReadError where
  | offsetBeyondEnd (offset imageSize : ℕ)
  | noBytesRemaining (idx want : ℕ)
  | ioError (code : ℕ)
  deriving DecidableEq, Repr

inductive OpenError where
  | emptyImageSegment (path : String)
  deriving DecidableEq, Repr

structure RawdiskReader where
  imagePath : String
  imageSize : ℕ
  segments : SegmentMap
  deriving DecidableEq, Repr

/-- The lengths of the segments, unless one of several is empty. -/
def segmentLengths (several : Bool) :
    List (String × ℕ) → Outcome OpenError (List ℕ)
  | [] => .ok []
  | (path, end_) :: rest =>
      if several ∧ end_ = 0 then .error (.emptyImageSegment path)
      else do
        let lengths ← segmentLengths several rest
        pure (end_ :: lengths)

/-- `open_with_options` behind the discovery of the segments: `sources` are
their paths and their lengths. -/
def openSegments (build : Build) (imagePath : String)
    (sources : List (String × ℕ)) : Outcome OpenError RawdiskReader := do
  let lengths ← segmentLengths (1 < sources.length) sources
  let segments ← SegmentMap.new build lengths
  pure { imagePath, imageSize := segments.imageSize, segments }

/-- The smaller of what is left to fill and what the segment still holds. -/
def takeBytes (remaining segmentLeft : ℕ) : ℕ := min remaining segmentLeft

section Read

variable (build : Build) (cache : Cache) (reader : RawdiskReader)

/-- One iteration of the read loop; `filled` is the part of the buffer that is
done. -/
def readBody (offset total : ℕ) (filled : Bytes) :
    Outcome ReadError (Step Bytes Bytes) :=
  if filled.length < total then do
    let want ← build.add offset filled.length
    match ← reader.segments.locate build want with
    | none => .error (.offsetBeyondEnd want reader.imageSize)
    | some (idx, within, left) =>
        let remaining ← build.sub total filled.length
        let take := takeBytes remaining left
        if take = 0 then .error (.noBytesRemaining idx want)
        else
          let data ← (Outcome.ofExcept (cache.read idx within take)).mapError
            .ioError
          pure (.next (filled ++ data))
  else .ok (.done filled)

def readAtOffset (offset : ℕ) (buf : Bytes) :
    Outcome ReadError (ℕ × Bytes) :=
  if reader.imageSize < offset then
    .error (.offsetBeyondEnd offset reader.imageSize)
  else do
    let limit ← limitToEnd build reader.imageSize offset buf.length
    let window ← Slice.range buf 0 limit
    let total := window.length
    if total = 0 then pure (0, buf)
    else
      let filled ← loop (readBody build cache reader offset total)
        (total + 1) []
      pure (total, filled ++ buf.drop total)

end Read

/-! ## The concatenation -/

/-- A read which lies inside a segment gives the bytes of the segment. -/
def CorrectCache (cache : Cache) (segments : List Bytes) : Prop :=
  ∀ idx seg, segments[idx]? = some seg → ∀ off len,
    off + len ≤ seg.length →
      cache.read idx off len = .ok (Slice.window seg off len)

theorem window_flatten {segments : List Bytes} {i : ℕ} {seg : Bytes}
    (h : segments[i]? = some seg) :
    Slice.window segments.flatten
      (startOf (segments.map List.length) i) seg.length = seg := by
  induction segments generalizing i with
  | nil => simp at h
  | cons first rest ih =>
      cases i with
      | zero =>
          obtain rfl : first = seg := by simpa using h
          simp [Slice.window, startOf]
      | succ i =>
          rw [List.getElem?_cons_succ] at h
          have hih := ih h
          unfold Slice.window startOf at hih ⊢
          rw [List.flatten_cons, List.map_cons, List.take_succ_cons,
            List.sum_cons, ← List.drop_drop, List.drop_left]
          exact hih

section Reading

variable {build : Build} {cache : Cache} {segments : List Bytes}
  {reader : RawdiskReader}

/-- A reader over the given segments. -/
structure Mounted (segments : List Bytes) (reader : RawdiskReader) :
    Prop where
  segmented : Segmented (segments.map List.length)
  imageSize : reader.imageSize = segments.flatten.length
  lengths : reader.segments.lengths = segments.map List.length
  mapSize : reader.segments.imageSize = (segments.map List.length).sum
  startsLength : reader.segments.starts.length =
    (segments.map List.length).length
  starts : ∀ i < (segments.map List.length).length,
    reader.segments.starts[i]? =
      some (startOf (segments.map List.length) i)

theorem segmentLengths_eq {several : Bool} (sources : List (String × ℕ))
    (h : several = true → ∀ source ∈ sources, 0 < source.2) :
    segmentLengths several sources = .ok (sources.map Prod.snd) := by
  induction sources with
  | nil => rfl
  | cons source rest ih =>
      obtain ⟨path, end_⟩ := source
      unfold segmentLengths
      rw [if_neg]
      · rw [ih fun hseveral source hsource =>
          h hseveral source (List.mem_cons_of_mem _ hsource)]
        rfl
      · rintro ⟨hseveral, rfl⟩
        exact absurd (h hseveral _ List.mem_cons_self) (lt_irrefl _)

theorem openSegments_mounted (build : Build) (imagePath : String)
    {paths : List String}
    (hpaths : paths.length = segments.length) (hne : segments ≠ [])
    (hempty : segments.length = 1 ∨ ∀ seg ∈ segments, seg ≠ [])
    (hlt : segments.flatten.length < wordLimit) :
    ∃ reader, openSegments build imagePath
        (paths.zip (segments.map List.length)) = .ok reader ∧
      Mounted segments reader := by
  have hseg : Segmented (segments.map List.length) := {
    nonempty := by simpa using hne
    pos := by
      rcases hempty with hone | hall
      · left
        rw [List.length_map]
        omega
      · right
        intro len hlen
        obtain ⟨seg, hseg, rfl⟩ := List.mem_map.mp hlen
        exact List.length_pos_iff.mpr (hall seg hseg)
    lt := by rwa [List.length_flatten] at hlt }
  have hsnd : (paths.zip (segments.map List.length)).map Prod.snd =
      segments.map List.length :=
    List.map_snd_zip (by simp [hpaths])
  have hlengths : segmentLengths
      (1 < (paths.zip (segments.map List.length)).length)
      (paths.zip (segments.map List.length)) =
        .ok (segments.map List.length) := by
    rw [segmentLengths_eq, hsnd]
    intro hseveral source hsource
    have hmem : source.2 ∈ segments.map List.length := by
      rw [← hsnd]
      exact List.mem_map_of_mem hsource
    rcases hseg.pos with hone | hall
    · rw [decide_eq_true_eq, List.length_zip, List.length_map,
        hpaths] at hseveral
      rw [List.length_map] at hone
      omega
    · exact hall _ hmem
  obtain ⟨map, hmap, hmapLengths, hmapSize, hstartsLength, hstarts⟩ :=
    SegmentMap.new_eq (ε := OpenError) build hseg
  refine ⟨⟨imagePath, map.imageSize, map⟩, ?_, {
    segmented := hseg
    imageSize := by
      rw [hmapSize, List.length_flatten]
    lengths := hmapLengths
    mapSize := hmapSize
    startsLength := hstartsLength
    starts := hstarts }⟩
  unfold openSegments
  rw [hlengths, Outcome.ok_bind, hmap, Outcome.ok_bind]
  rfl

/-- Every byte of the image is located in the segment that holds it, and that
segment has bytes left. -/
theorem Mounted.locate (build : Build) (hmounted : Mounted segments reader)
    (want : ℕ) (hwant : want < segments.flatten.length) :
    ∃ idx within left seg,
      (reader.segments.locate build want :
        Outcome ReadError (Option (ℕ × ℕ × ℕ))) =
          .ok (some (idx, within, left)) ∧
      segments[idx]? = some seg ∧ within + left = seg.length ∧ 0 < left ∧
      want = startOf (segments.map List.length) idx + within := by
  rw [List.length_flatten] at hwant
  obtain ⟨idx, within, left, len, hlocate, hlen, hoffset, hsum, hpos⟩ :=
    SegmentMap.locate_eq (ε := ReadError) build hmounted.segmented
      hmounted.lengths hmounted.mapSize
      hmounted.startsLength hmounted.starts hwant
  rw [List.getElem?_map, Option.map_eq_some_iff] at hlen
  obtain ⟨seg, hget, rfl⟩ := hlen
  exact ⟨idx, within, left, seg, hlocate, hget, hsum, hpos, hoffset⟩

theorem window_segment {idx within len : ℕ} {seg : Bytes}
    (hget : segments[idx]? = some seg) (hle : within + len ≤ seg.length) :
    Slice.window seg within len = Slice.window segments.flatten
      (startOf (segments.map List.length) idx + within) len := by
  conv_lhs => rw [← window_flatten hget]
  rw [Slice.window_window hle]

/-- The loop has filled the front of the buffer from the concatenation. -/
def Filled (segments : List Bytes) (offset total : ℕ) (filled : Bytes) :
    Prop :=
  filled.length ≤ total ∧
    filled = Slice.window segments.flatten offset filled.length

/-- One iteration moves on by one cache read inside one segment. -/
theorem readBody_spec (build : Build) (hmounted : Mounted segments reader)
    (hcache : CorrectCache cache segments) {offset total : ℕ}
    (htotal : offset + total ≤ segments.flatten.length) {filled : Bytes}
    (hfilled : Filled segments offset total filled)
    (hmore : filled.length < total) :
    ∃ idx within left seg filled',
      (reader.segments.locate build (offset + filled.length) :
        Outcome ReadError (Option (ℕ × ℕ × ℕ))) =
          .ok (some (idx, within, left)) ∧
      segments[idx]? = some seg ∧
      within + takeBytes (total - filled.length) left ≤ seg.length ∧
      readBody build cache reader offset total filled =
        .ok (.next filled') ∧
      Filled segments offset total filled' ∧
      filled.length < filled'.length := by
  obtain ⟨hle, hbytes⟩ := hfilled
  have hlt := hmounted.segmented.lt
  rw [← List.length_flatten] at hlt
  obtain ⟨idx, within, left, seg, hlocate, hget, hsum, hpos, hwant⟩ :=
    hmounted.locate build (offset + filled.length) (by omega)
  set take := takeBytes (total - filled.length) left with htake
  have htake' : 0 < take ∧ take ≤ left ∧ take ≤ total - filled.length := by
    unfold takeBytes at htake
    omega
  have hdata := hcache idx seg hget within take (by omega)
  refine ⟨idx, within, left, seg,
    filled ++ Slice.window seg within take, hlocate, hget, by omega, ?_, ?_,
    ?_⟩
  · unfold readBody
    rw [if_pos hmore, Build.add_of_lt (by omega), Outcome.ok_bind, hlocate,
      Outcome.ok_bind]
    simp only
    rw [Build.sub_of_le hle, Outcome.ok_bind, ← htake, if_neg (by omega),
      hdata]
    rfl
  · refine ⟨?_, ?_⟩
    · rw [List.length_append, Slice.length_window_of_le (by omega)]
      omega
    · rw [List.length_append, Slice.length_window_of_le (by omega),
        ← Slice.window_append, ← hbytes, window_segment hget (by omega),
        ← hwant]
  · rw [List.length_append, Slice.length_window_of_le (by omega)]
    omega

theorem readLoop_spec (hmounted : Mounted segments reader)
    (hcache : CorrectCache cache segments) {offset total : ℕ}
    (htotal : offset + total ≤ segments.flatten.length) :
    loop (readBody build cache reader offset total) (total + 1) [] =
      .ok (Slice.window segments.flatten offset total) := by
  apply loop_rule (Filled segments offset total)
    (fun filled : Bytes => total - filled.length)
    (fun outcome : Outcome ReadError Bytes =>
      outcome = .ok (Slice.window segments.flatten offset total))
  · intro filled hfilled
    by_cases hmore : filled.length < total
    · obtain ⟨_, _, _, _, filled', _, _, _, hbody, hfilled', hgrow⟩ :=
        readBody_spec build hmounted hcache htotal hfilled hmore
      rw [hbody]
      refine ⟨hfilled', ?_⟩
      have := hfilled'.1
      simp only
      omega
    · unfold readBody
      rw [if_neg hmore]
      obtain ⟨hle, hbytes⟩ := hfilled
      rw [show filled.length = total by omega] at hbytes
      exact congrArg Outcome.ok hbytes
  · exact ⟨Nat.zero_le _, by simp⟩
  · simp

/-- What a read of a split image has to deliver. -/
structure ReadsConcatenation (build : Build) (cache : Cache)
    (segments : List Bytes) (reader : RawdiskReader) (offset : ℕ)
    (buf : Bytes) : Prop where
  beyond : segments.flatten.length < offset →
    readAtOffset build cache reader offset buf =
      .error (.offsetBeyondEnd offset segments.flatten.length)
  inside : offset ≤ segments.flatten.length →
    let n := min buf.length (segments.flatten.length - offset)
    readAtOffset build cache reader offset buf =
      .ok (n, Slice.window segments.flatten offset n ++ buf.drop n)
  /-- every cache read of the loop lies inside one segment, and takes at least
  one byte -/
  reads : offset ≤ segments.flatten.length →
    let n := min buf.length (segments.flatten.length - offset)
    ∀ filled, Reaches (readBody build cache reader offset n) [] filled →
      filled.length < n →
      ∃ idx within left seg,
        (reader.segments.locate build (offset + filled.length) :
          Outcome ReadError (Option (ℕ × ℕ × ℕ))) =
            .ok (some (idx, within, left)) ∧
        segments[idx]? = some seg ∧
        0 < takeBytes (n - filled.length) left ∧
        within + takeBytes (n - filled.length) left ≤ seg.length

theorem Mounted.readsConcatenation (hmounted : Mounted segments reader)
    (hcache : CorrectCache cache segments) {offset : ℕ} {buf : Bytes}
    (hlt : segments.flatten.length + buf.length < wordLimit) :
    ReadsConcatenation build cache segments reader offset buf where
  beyond := by
    intro hoffset
    unfold readAtOffset
    rw [hmounted.imageSize, if_pos hoffset]
  inside := by
    intro hoffset n
    have hn : (Slice.window buf 0 n).length = n :=
      Slice.length_window_of_le (by omega)
    unfold readAtOffset
    rw [hmounted.imageSize, if_neg (by omega),
      limitToEnd_eq hoffset (by omega), Outcome.ok_bind,
      Slice.range_of_le (Nat.zero_le _) (by omega), Outcome.ok_bind,
      Nat.sub_zero]
    simp only
    rw [hn]
    split_ifs with hzero
    · simp [hzero]
    · rw [readLoop_spec hmounted hcache (by omega)]
      rfl
  reads := by
    intro hoffset n filled hreach hmore
    have hfilled : Filled segments offset n filled := by
      refine hreach.invariant ?_ ⟨Nat.zero_le _, by simp⟩
      intro filled filled' hfilled hbody
      by_cases hmore : filled.length < n
      · obtain ⟨_, _, _, _, next, _, _, _, hbody', hnext, _⟩ :=
          readBody_spec build hmounted hcache (by omega) hfilled
            hmore
        obtain rfl : next = filled' := by
          simpa [hbody] using hbody'.symm
        exact hnext
      · simp [readBody, hmore] at hbody
    obtain ⟨idx, within, left, seg, hlocate, hget, _, hpos, _⟩ :=
      hmounted.locate build (offset + filled.length) (by omega)
    obtain ⟨idx', within', left', seg', _, hlocate', hget', hle, _⟩ :=
      readBody_spec build hmounted hcache (by omega) hfilled hmore
    obtain ⟨rfl, rfl, rfl⟩ :
        idx = idx' ∧ within = within' ∧ left = left' := by
      simpa [hlocate] using hlocate'
    obtain rfl : seg = seg' := by simpa [hget] using hget'
    refine ⟨idx, within, left, seg, hlocate, hget, ?_, hle⟩
    unfold takeBytes
    omega

/-- A split raw image reads as the concatenation of its segments. -/
theorem split_image_reads_concatenation (imagePath : String)
    {paths : List String} (hpaths : paths.length = segments.length)
    (hne : segments ≠ [])
    (hempty : segments.length = 1 ∨ ∀ seg ∈ segments, seg ≠ [])
    (hlt : segments.flatten.length < wordLimit) :
    ∃ reader, openSegments build imagePath
        (paths.zip (segments.map List.length)) = .ok reader ∧
      reader.imageSize = segments.flatten.length ∧
      (∀ want < segments.flatten.length, ∃ idx within left seg,
        (reader.segments.locate build want :
          Outcome ReadError (Option (ℕ × ℕ × ℕ))) =
            .ok (some (idx, within, left)) ∧
        segments[idx]? = some seg ∧
        segments.flatten[want]? = seg[within]? ∧
        within + left = seg.length ∧ 0 < left) ∧
      ∀ (cache : Cache) (offset : ℕ) (buf : Bytes),
        CorrectCache cache segments →
        segments.flatten.length + buf.length < wordLimit →
        ReadsConcatenation build cache segments reader offset buf := by
  obtain ⟨reader, hopen, hmounted⟩ :=
    openSegments_mounted build imagePath hpaths hne hempty hlt
  refine ⟨reader, hopen, hmounted.imageSize, ?_, ?_⟩
  · intro want hwant
    obtain ⟨idx, within, left, seg, hlocate, hget, hsum, hpos, hoffset⟩ :=
      hmounted.locate build want hwant
    refine ⟨idx, within, left, seg, hlocate, hget, ?_, hsum, hpos⟩
    have hbyte : (Slice.window segments.flatten
          (startOf (segments.map List.length) idx) seg.length)[within]? =
        segments.flatten[startOf (segments.map List.length) idx + within]? :=
      Slice.getElem?_window (by omega)
    rw [window_flatten hget, ← hoffset] at hbyte
    exact hbyte.symm
  · intro cache offset buf hcache hbuf
    exact hmounted.readsConcatenation hcache hbuf

end Reading

/-- The cache which holds the segments and never fails on them. -/
def segmentCache (segments : List Bytes) : Cache where
  read := fun idx off len =>
    match segments[idx]? with
    | none => .error 0
    | some seg =>
        if off + len ≤ seg.length then .ok (Slice.window seg off len)
        else .error 0
  length_eq := by
    intro idx off len data h
    cases hget : segments[idx]? with
    | none => simp [hget] at h
    | some seg =>
        simp only [hget] at h
        split_ifs at h with hle
        obtain rfl : Slice.window seg off len = data := by simpa using h
        exact Slice.length_window_of_le hle

theorem correctCache_segmentCache (segments : List Bytes) :
    CorrectCache (segmentCache segments) segments := by
  intro idx seg hget off len hle
  simp [segmentCache, hget, hle]

theorem split_image_reads_concatenation_two :
    ∃ reader, openSegments .dev "d.001" [("d.001", 1), ("d.002", 2)] =
        .ok reader ∧
      readAtOffset .dev (segmentCache [[1], [2, 3]]) reader 0 [8, 9] =
        .ok (2, [1, 2]) := by
  obtain ⟨reader, hopen, _, _, hreads⟩ :=
    @split_image_reads_concatenation .dev [[1], [2, 3]] "d.001"
      ["d.001", "d.002"] rfl (by simp) (Or.inr (by simp)) (by decide)
  exact ⟨reader, hopen, (hreads (segmentCache [[1], [2, 3]]) 0 [8, 9]
    (correctCache_segmentCache _) (by decide)).inside (by decide)⟩

end Rawdisk
end ImageReader
