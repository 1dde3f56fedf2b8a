import ImageReader.E01ReadWorker

/-!
# Opening an E01 image

The segments are read side by side, each with its own index, and their
metadata is put together in order.  What an opened reader promises its reads
is `Opened`: the chunks cover the declared size, and each chunk lies in one of
the segments.
-/

namespace ImageReader
namespace E01

structure VolumeSection where
  chunkCount : UInt32
  sectorsPerChunk : UInt32
  bytesPerSector : UInt32
  totalSectorCount : UInt64
  deriving DecidableEq, Repr

inductive OpenError where
  | noSegmentFiles
  | missingVolumeSection (path : String)
  | invalidVolumeGeometry (sectorsPerChunk bytesPerSector : UInt32)
  | tooManyChunks (actual expected : ℕ)
  | tooFewChunks (actual expected : ℕ)
  | declaredSizeExceedsChunks (imageSize chunkCoverage : ℕ)
  | segmentOutOfOrder (path : String) (actual expected : ℕ)
  deriving DecidableEq, Repr

namespace VolumeSection

/-- The product of two `u32` words is a word. -/
def chunkSize (volume : VolumeSection) : ℕ :=
  volume.sectorsPerChunk.toNat * volume.bytesPerSector.toNat

def maxOffset (build : Build) (volume : VolumeSection) : Outcome OpenError ℕ :=
  build.mul volume.totalSectorCount.toNat volume.bytesPerSector.toNat

theorem chunkSize_lt (volume : VolumeSection) :
    volume.chunkSize + 4 < wordLimit := by
  have hsectors := volume.sectorsPerChunk.toNat_lt
  have hbytes := volume.bytesPerSector.toNat_lt
  have hle : volume.chunkSize ≤ (2 ^ 32 - 1) * (2 ^ 32 - 1) :=
    Nat.mul_le_mul (by omega) (by omega)
  rw [wordLimit_eq]
  omega

end VolumeSection

structure SegmentComponents where
  path : String
  segmentNumber : ℕ
  volume : Option VolumeSection
  md5 : Option (Vector UInt8 16)
  sha1 : Option (Vector UInt8 20)
  chunks : List Chunk
  deriving DecidableEq, Repr

/-- The end of `read_segment`: the chunks of a segment get its index. -/
def setSegmentIndex (segmentIndex : ℕ) (seg : SegmentComponents) :
    SegmentComponents :=
  { seg with
    chunks := seg.chunks.map fun chunk => { chunk with segment := segmentIndex } }

structure E01Metadata where
  volume : VolumeSection
  md5 : Option (Vector UInt8 16)
  sha1 : Option (Vector UInt8 20)
  segmentPaths : List String
  chunks : List Chunk
  deriving DecidableEq, Repr

/-- The variables of `process_segments`. -/
structure SegmentFold where
  volume : Option VolumeSection
  storedMd5 : Option (Vector UInt8 16)
  storedSha1 : Option (Vector UInt8 20)
  segmentPaths : List String
  chunks : List Chunk
  deriving DecidableEq, Repr

def SegmentFold.new : SegmentFold := ⟨none, none, none, [], []⟩

/-- A segment is recorded; what is there already comes first. -/
def SegmentFold.record (acc : SegmentFold) (seg : SegmentComponents) :
    SegmentFold :=
  { volume := acc.volume <|> seg.volume
    storedMd5 := acc.storedMd5 <|> seg.md5
    storedSha1 := acc.storedSha1 <|> seg.sha1
    segmentPaths := acc.segmentPaths ++ [seg.path]
    chunks := acc.chunks ++ seg.chunks }

/-- The loop of `process_segments`; `i` counts the segments. -/
def processSegmentsFrom (i : ℕ) (acc : SegmentFold) :
    List SegmentComponents → Outcome OpenError SegmentFold
  | [] => .ok acc
  | seg :: segs =>
      let expected := (i + 1) % 2 ^ 16
      if seg.segmentNumber ≠ expected then
        .error (.segmentOutOfOrder seg.path seg.segmentNumber expected)
      else
        match seg.volume, acc.volume with
        | none, none => .error (.missingVolumeSection seg.path)
        | _, _ => processSegmentsFrom (i + 1) (acc.record seg) segs

def processSegments (segs : List SegmentComponents) :
    Outcome OpenError E01Metadata := do
  let acc ← processSegmentsFrom 0 .new segs
  match acc.volume with
  | none => .panic .assertionFailed
  | some volume =>
      pure { volume, md5 := acc.storedMd5, sha1 := acc.storedSha1,
             segmentPaths := acc.segmentPaths, chunks := acc.chunks }

def validateVolume (volume : VolumeSection) : Outcome OpenError Unit :=
  if volume.chunkSize = 0 then
    .error (.invalidVolumeGeometry volume.sectorsPerChunk volume.bytesPerSector)
  else .ok ()

def validateChunkCoverage (imageSize chunkCount chunkSize : ℕ) :
    Outcome OpenError Unit :=
  let chunkCoverage := min (chunkCount * chunkSize) (wordLimit - 1)
  if chunkCoverage < imageSize then
    .error (.declaredSizeExceedsChunks imageSize chunkCoverage)
  else .ok ()

/-- The checks of `open_impl`, which lead to the size of the image. -/
def checkVolume (build : Build) (volume : VolumeSection) (chunkCount : ℕ) :
    Outcome OpenError ℕ := do
  validateVolume volume
  let expChunkCount := volume.chunkCount.toNat
  if expChunkCount < chunkCount then
    .error (.tooManyChunks chunkCount expChunkCount)
  else if chunkCount < expChunkCount then
    .error (.tooFewChunks chunkCount expChunkCount)
  else
    let imageSize ← volume.maxOffset build
    validateChunkCoverage imageSize chunkCount volume.chunkSize
    pure imageSize

/-- The options that reads depend on; `tracing` says whether there is an I/O
log. -/
structure E01ReaderOptions where
  corruptChunkPolicy : CorruptChunkPolicy
  decodedChunkCache : Bool
  parallelChunkReads : Bool
  tracing : Bool
  deriving DecidableEq, Repr

/-- What a reader is for good.  Its pool of workers and its cache are
`ReaderState`. -/
structure E01Reader where
  chunks : List Chunk
  chunkSize : ℕ
  imageSize : ℕ
  segmentPaths : List String
  options : E01ReaderOptions
  deriving DecidableEq, Repr

def openImpl (build : Build) (options : E01ReaderOptions)
    (segments : List SegmentComponents) : Outcome OpenError E01Reader :=
  if segments = [] then .error .noSegmentFiles
  else do
    let metadata ← processSegments
      (segments.mapIdx fun i seg => setSegmentIndex i seg)
    let imageSize ← checkVolume build metadata.volume metadata.chunks.length
    pure { chunks := metadata.chunks, chunkSize := metadata.volume.chunkSize,
           imageSize, segmentPaths := metadata.segmentPaths, options }

/-! ## What the checks establish -/

structure Opened (reader : E01Reader) : Prop where
  chunkSize_pos : 0 < reader.chunkSize
  chunkSize_lt : reader.chunkSize + 4 < wordLimit
  imageSize_lt : reader.imageSize < wordLimit
  covered : reader.imageSize ≤ reader.chunks.length * reader.chunkSize
  segment_lt : ∀ chunk ∈ reader.chunks,
    chunk.segment < reader.segmentPaths.length

theorem mem_chunks_setSegmentIndex {i : ℕ} {seg : SegmentComponents}
    {chunk : Chunk} (h : chunk ∈ (setSegmentIndex i seg).chunks) :
    chunk.segment = i := by
  obtain ⟨raw, -, rfl⟩ : ∃ c ∈ seg.chunks, { c with segment := i } = chunk := by
    simpa [setSegmentIndex] using h
  rfl

/-- The fold goes over a segment when its number is the expected one and it
brings a volume section, or one was there before. -/
theorem processSegmentsFrom_cons {i : ℕ} {acc : SegmentFold}
    {seg : SegmentComponents} {segs : List SegmentComponents}
    {result : SegmentFold} :
    processSegmentsFrom i acc (seg :: segs) = .ok result ↔
      seg.segmentNumber = (i + 1) % 2 ^ 16 ∧
        (acc.record seg).volume.isSome = true ∧
        processSegmentsFrom (i + 1) (acc.record seg) segs = .ok result := by
  conv_lhs => unfold processSegmentsFrom
  simp only
  split_ifs with horder
  · simp only [false_iff]
    exact fun h => horder h.1
  · rw [not_not] at horder
    cases hseg : seg.volume <;> cases hacc : acc.volume <;>
      simp [horder, hseg, hacc, SegmentFold.record]

theorem processSegmentsFrom_segment_lt {segs : List SegmentComponents} {i : ℕ}
    (acc : SegmentFold) {result : SegmentFold}
    (hpaths : acc.segmentPaths.length = i)
    (hacc : ∀ chunk ∈ acc.chunks, chunk.segment < acc.segmentPaths.length)
    (hsegs : ∀ j seg, segs[j]? = some seg →
      ∀ chunk ∈ seg.chunks, chunk.segment = i + j)
    (h : processSegmentsFrom i acc segs = .ok result) :
    ∀ chunk ∈ result.chunks,
      chunk.segment < result.segmentPaths.length := by
  induction segs generalizing i acc with
  | nil =>
      obtain rfl : acc = result := by simpa [processSegmentsFrom] using h
      exact hacc
  | cons seg segs ih =>
      obtain ⟨-, -, h⟩ := processSegmentsFrom_cons.mp h
      refine ih (acc.record seg) ?_ ?_ ?_ h
      · simp [SegmentFold.record, hpaths]
      · intro chunk hchunk
        simp only [SegmentFold.record, List.mem_append] at hchunk
        simp only [SegmentFold.record, List.length_append,
          List.length_singleton]
        rcases hchunk with hold | hnew
        · exact Nat.lt_succ_of_lt (hacc chunk hold)
        · rw [hsegs 0 seg rfl chunk hnew, hpaths]
          omega
      · intro j seg' hj chunk hchunk
        rw [hsegs (j + 1) seg' (by simpa using hj) chunk hchunk]
        omega

theorem checkVolume_of_counts {build : Build} {volume : VolumeSection}
    {chunkCount : ℕ} (hsize : volume.chunkSize ≠ 0)
    (hcount : chunkCount = volume.chunkCount.toNat) :
    checkVolume build volume chunkCount =
      volume.maxOffset build >>= fun imageSize =>
        if min (chunkCount * volume.chunkSize) (wordLimit - 1) < imageSize then
          .error (.declaredSizeExceedsChunks imageSize
            (min (chunkCount * volume.chunkSize) (wordLimit - 1)))
        else .ok imageSize := by
  unfold checkVolume validateVolume validateChunkCoverage
  rw [if_neg hsize, Outcome.ok_bind]
  simp only
  rw [if_neg (by omega), if_neg (by omega)]
  congr 1
  funext imageSize
  split_ifs <;> rfl

theorem checkVolume_of_not (build : Build) {volume : VolumeSection}
    {chunkCount : ℕ}
    (h : volume.chunkSize = 0 ∨ chunkCount ≠ volume.chunkCount.toNat) :
    ∃ e, checkVolume build volume chunkCount = .error e := by
  unfold checkVolume validateVolume
  by_cases hzero : volume.chunkSize = 0
  · rw [if_pos hzero]
    exact ⟨_, rfl⟩
  · rw [if_neg hzero, Outcome.ok_bind]
    simp only
    split_ifs with hmany hfew
    · exact ⟨_, rfl⟩
    · exact ⟨_, rfl⟩
    · omega

theorem checkVolume_eq_ok {build : Build} {volume : VolumeSection}
    {chunkCount imageSize : ℕ} :
    checkVolume build volume chunkCount = .ok imageSize ↔
      volume.chunkSize ≠ 0 ∧ chunkCount = volume.chunkCount.toNat ∧
        volume.maxOffset build = .ok imageSize ∧
        imageSize ≤ min (chunkCount * volume.chunkSize) (wordLimit - 1) := by
  constructor
  · intro h
    have hvalid : ¬ (volume.chunkSize = 0 ∨
        chunkCount ≠ volume.chunkCount.toNat) := by
      intro hnot
      obtain ⟨e, herror⟩ := checkVolume_of_not build hnot
      simp [herror] at h
    rw [not_or, not_not] at hvalid
    obtain ⟨hsize, hcount⟩ := hvalid
    rw [checkVolume_of_counts hsize hcount] at h
    obtain ⟨size, hoffset, h⟩ := Outcome.bind_eq_ok.mp h
    split_ifs at h with hexceeds
    obtain rfl : size = imageSize := by simpa using h
    exact ⟨hsize, hcount, hoffset, not_lt.mp hexceeds⟩
  · rintro ⟨hsize, hcount, hoffset, hle⟩
    rw [checkVolume_of_counts hsize hcount, hoffset, Outcome.ok_bind,
      if_neg (not_lt.mpr hle)]

theorem openImpl_opened {build : Build} {options : E01ReaderOptions}
    {segments : List SegmentComponents} {reader : E01Reader}
    (h : openImpl build options segments = .ok reader) : Opened reader := by
  unfold openImpl at h
  split_ifs at h with hempty
  obtain ⟨metadata, hmetadata, h⟩ := Outcome.bind_eq_ok.mp h
  obtain ⟨imageSize, hcheck, h⟩ := Outcome.bind_eq_ok.mp h
  obtain rfl : _ = reader := by simpa using h
  obtain ⟨hzero, -, hsize, hcoverage⟩ := checkVolume_eq_ok.mp hcheck
  refine ⟨Nat.pos_of_ne_zero hzero, metadata.volume.chunkSize_lt,
    Build.mul_lt hsize, ?_, ?_⟩
  · exact hcoverage.trans (Nat.min_le_left _ _)
  · unfold processSegments at hmetadata
    obtain ⟨result, hresult, hmetadata⟩ := Outcome.bind_eq_ok.mp hmetadata
    cases hvolume : result.volume with
    | none => simp [hvolume] at hmetadata
    | some volume =>
        simp only [hvolume] at hmetadata
        obtain rfl : _ = metadata := by simpa using hmetadata
        refine processSegmentsFrom_segment_lt .new rfl
          (fun _ hchunk => absurd hchunk List.not_mem_nil) ?_ hresult
        intro j seg hj chunk hchunk
        rw [List.getElem?_mapIdx] at hj
        cases hseg : segments[j]? with
        | none => simp [hseg] at hj
        | some raw =>
            obtain rfl : setSegmentIndex j raw = seg := by
              simpa [hseg] using hj
            rw [mem_chunks_setSegmentIndex hchunk]
            exact (Nat.zero_add j).symm

end E01
end ImageReader
