import ImageReader.E01Open

/-!
# What an opened E01 image consists of

Two facts about opening.  The segments are put together in order into one list
of chunks, and the first volume, MD5 and SHA1 sections count.  The declared
size is exact as long as its product is a word: past that the product is
reduced before the chunks are compared with it.
-/

namespace ImageReader
namespace E01

/-! ## The size of the image -/

/-- `total_sector_count * bytes_per_sector`, as an integer -/
def VolumeSection.declaredSize (volume : VolumeSection) : ℕ :=
  volume.totalSectorCount.toNat * volume.bytesPerSector.toNat

/-- The declared size is no word, and nothing else is wrong with the volume. -/
def SizeOverflows (build : Build) (volume : VolumeSection)
    (chunkCount : ℕ) : Prop :=
  volume.chunkSize ≠ 0 ∧ chunkCount = volume.chunkCount.toNat ∧
    wordLimit ≤ volume.declaredSize ∧
    match build with
    | .dev => chunkCount * volume.chunkSize < volume.declaredSize
    | .release =>
        volume.declaredSize % wordLimit ≤ chunkCount * volume.chunkSize

theorem maxOffset_cases (build : Build) (volume : VolumeSection) :
    (volume.declaredSize < wordLimit ∧
      volume.maxOffset build = .ok volume.declaredSize) ∨
    (wordLimit ≤ volume.declaredSize ∧ build = .dev ∧
      volume.maxOffset build = .panic .mulOverflow) ∨
    (wordLimit ≤ volume.declaredSize ∧ build = .release ∧
      volume.maxOffset build = .ok (volume.declaredSize % wordLimit)) := by
  unfold VolumeSection.maxOffset
  by_cases hlt : volume.declaredSize < wordLimit
  · exact Or.inl ⟨hlt, Build.mul_of_lt hlt⟩
  · have hge := not_lt.mp hlt
    cases build with
    | dev => exact Or.inr (Or.inl ⟨hge, rfl, if_neg hlt⟩)
    | release => exact Or.inr (Or.inr ⟨hge, rfl, if_neg hlt⟩)

theorem checkVolume_ne_assertionFailed (build : Build)
    (volume : VolumeSection) (chunkCount : ℕ) :
    checkVolume build volume chunkCount ≠ .panic .assertionFailed := by
  by_cases hvalid : volume.chunkSize = 0 ∨
      chunkCount ≠ volume.chunkCount.toNat
  · obtain ⟨e, herror⟩ := checkVolume_of_not build hvalid
    simp [herror]
  · rw [not_or, not_not] at hvalid
    rw [checkVolume_of_counts hvalid.1 hvalid.2]
    rcases maxOffset_cases build volume with
      ⟨-, hoffset⟩ | ⟨-, -, hoffset⟩ | ⟨-, -, hoffset⟩
    · rw [hoffset, Outcome.ok_bind]
      split_ifs <;> simp
    · simp [hoffset]
    · rw [hoffset, Outcome.ok_bind]
      split_ifs <;> simp

/-- The checks take the size the volume declares, and refuse one that the chunks
do not cover, unless the product is no word. -/
theorem image_size_exact_iff (build : Build) (volume : VolumeSection)
    (chunkCount : ℕ) :
    ((∀ imageSize, checkVolume build volume chunkCount = .ok imageSize →
        imageSize =
            volume.totalSectorCount.toNat * volume.bytesPerSector.toNat ∧
          volume.chunkSize =
            volume.sectorsPerChunk.toNat * volume.bytesPerSector.toNat ∧
          imageSize ≤ chunkCount * volume.chunkSize) ∧
      (chunkCount * volume.chunkSize <
          volume.totalSectorCount.toNat * volume.bytesPerSector.toNat →
        ∃ e, checkVolume build volume chunkCount = .error e)) ↔
      ¬ SizeOverflows build volume chunkCount := by
  change ((∀ imageSize, checkVolume build volume chunkCount = .ok imageSize →
      imageSize = volume.declaredSize ∧ _ ∧ _) ∧
    (_ < volume.declaredSize → _)) ↔ _
  constructor
  · rintro ⟨haccepted, hrefused⟩ ⟨hsize, hcount, hlarge, hbuild⟩
    rcases maxOffset_cases build volume with
      ⟨hlt, -⟩ | ⟨-, rfl, hoffset⟩ | ⟨-, rfl, hoffset⟩
    · omega
    · obtain ⟨e, herror⟩ := hrefused hbuild
      rw [checkVolume_of_counts hsize hcount, hoffset] at herror
      simp at herror
    · have hmod : volume.declaredSize % wordLimit < wordLimit :=
        Nat.mod_lt _ (by rw [wordLimit_eq]; omega)
      have hok := checkVolume_eq_ok.mpr ⟨hsize, hcount, hoffset,
        le_min hbuild (Nat.le_sub_one_of_lt hmod)⟩
      have heq := (haccepted _ hok).1
      omega
  · intro hexact
    constructor
    · intro imageSize hok
      obtain ⟨hsize, hcount, hoffset, hle⟩ := checkVolume_eq_ok.mp hok
      have hcovered := hle.trans (Nat.min_le_left _ _)
      refine ⟨?_, rfl, hcovered⟩
      rcases maxOffset_cases build volume with
        ⟨-, hoffset'⟩ | ⟨-, -, hoffset'⟩ | ⟨hlarge, rfl, hoffset'⟩
      · rw [hoffset'] at hoffset
        simpa using hoffset.symm
      · simp [hoffset'] at hoffset
      · obtain rfl : volume.declaredSize % wordLimit = imageSize := by
          simpa [hoffset'] using hoffset
        exact absurd ⟨hsize, hcount, hlarge, hcovered⟩ hexact
    · intro hexceeds
      by_cases hvalid : volume.chunkSize = 0 ∨
          chunkCount ≠ volume.chunkCount.toNat
      · exact checkVolume_of_not build hvalid
      · rw [not_or, not_not] at hvalid
        obtain ⟨hsize, hcount⟩ := hvalid
        rw [checkVolume_of_counts hsize hcount]
        rcases maxOffset_cases build volume with
          ⟨hlt, hoffset⟩ | ⟨hlarge, rfl, -⟩ | ⟨hlarge, rfl, hoffset⟩
        · rw [hoffset, Outcome.ok_bind, if_pos
            ((Nat.min_le_left _ _).trans_lt hexceeds)]
          exact ⟨_, rfl⟩
        · exact absurd ⟨hsize, hcount, hlarge, hexceeds⟩ hexact
        · rw [hoffset, Outcome.ok_bind, if_pos]
          · exact ⟨_, rfl⟩
          · apply (Nat.min_le_left _ _).trans_lt
            by_contra hle
            exact hexact ⟨hsize, hcount, hlarge, not_lt.mp hle⟩

/-- A size of `2 ^ 64` bytes is taken for none. -/
theorem declared_size_wraps :
    checkVolume .release ⟨1, 1, 2, 9223372036854775808⟩ 1 = .ok 0 ∧
      (9223372036854775808 : UInt64).toNat * (2 : UInt32).toNat ≠ 0 := by
  decide

/-! ## The list of chunks -/

/-- The segments are numbered from `i` on, and the first one has a volume
section. -/
def Accepted (i : ℕ) (acc : SegmentFold) (segs : List SegmentComponents) :
    Prop :=
  (∀ j seg, segs[j]? = some seg →
    seg.segmentNumber = (i + j + 1) % 2 ^ 16) ∧
  ∀ seg, segs[0]? = some seg → (acc.record seg).volume.isSome = true

theorem volume_record_isSome {acc : SegmentFold} (seg : SegmentComponents)
    (h : acc.volume.isSome = true) :
    (acc.record seg).volume.isSome = true := by
  cases hvolume : acc.volume <;> simp_all [SegmentFold.record]

theorem accepted_cons {i : ℕ} {acc : SegmentFold} {seg : SegmentComponents}
    {segs : List SegmentComponents} :
    Accepted i acc (seg :: segs) ↔
      seg.segmentNumber = (i + 1) % 2 ^ 16 ∧
        (acc.record seg).volume.isSome = true ∧
        Accepted (i + 1) (acc.record seg) segs := by
  constructor
  · rintro ⟨hnumber, hvolume⟩
    have hfirst := hvolume seg rfl
    refine ⟨hnumber 0 seg rfl, hfirst, ?_, ?_⟩
    · intro j seg' hj
      rw [hnumber (j + 1) seg' (by simpa using hj)]
      congr 1
      omega
    · intro seg' _
      exact volume_record_isSome seg' hfirst
  · rintro ⟨hnumber, hvolume, hrest, -⟩
    constructor
    · intro j seg' hj
      cases j with
      | zero =>
          obtain rfl : seg = seg' := by simpa using hj
          exact hnumber
      | succ j =>
          rw [hrest j seg' (by simpa using hj)]
          congr 1
          omega
    · intro seg' hj
      obtain rfl : seg = seg' := by simpa using hj
      exact hvolume

theorem processSegmentsFrom_eq_ok {i : ℕ} {acc result : SegmentFold}
    {segs : List SegmentComponents} :
    processSegmentsFrom i acc segs = .ok result ↔
      Accepted i acc segs ∧ segs.foldl SegmentFold.record acc = result := by
  induction segs generalizing i acc with
  | nil => simp [processSegmentsFrom, Accepted]
  | cons seg segs ih =>
      rw [processSegmentsFrom_cons, ih, accepted_cons, List.foldl_cons]
      tauto

theorem processSegmentsFrom_returns (i : ℕ) (acc : SegmentFold)
    (segs : List SegmentComponents) :
    (processSegmentsFrom i acc segs).Returns := by
  induction segs generalizing i acc with
  | nil => exact Outcome.returns_ok acc
  | cons seg segs ih =>
      unfold processSegmentsFrom
      simp only
      split_ifs
      · exact Outcome.returns_error _
      · split
        · exact Outcome.returns_error _
        · exact ih _ _

theorem foldl_record (acc : SegmentFold) (segs : List SegmentComponents) :
    segs.foldl SegmentFold.record acc =
      { volume := acc.volume <|> segs.findSome? (·.volume)
        storedMd5 := acc.storedMd5 <|> segs.findSome? (·.md5)
        storedSha1 := acc.storedSha1 <|> segs.findSome? (·.sha1)
        segmentPaths := acc.segmentPaths ++ segs.map (·.path)
        chunks := acc.chunks ++ (segs.map (·.chunks)).flatten } := by
  induction segs generalizing acc with
  | nil => simp
  | cons seg segs ih =>
      rw [List.foldl_cons, ih]
      cases hvolume : seg.volume <;> cases hmd5 : seg.md5 <;>
        cases hsha1 : seg.sha1 <;>
        simp [SegmentFold.record, hvolume, hmd5, hsha1]

/-- `segs` as `process_segments` gets them: read, each with its index. -/
def readSegments (segs : List SegmentComponents) : List SegmentComponents :=
  segs.mapIdx fun i seg => setSegmentIndex i seg

theorem getElem?_readSegments {segs : List SegmentComponents} {i : ℕ}
    {seg : SegmentComponents} :
    (readSegments segs)[i]? = some seg ↔
      ∃ raw, segs[i]? = some raw ∧ setSegmentIndex i raw = seg := by
  unfold readSegments
  rw [List.getElem?_mapIdx, Option.map_eq_some_iff]

/-- The index changes nothing but the chunks. -/
theorem map_readSegments {β : Type} (f : SegmentComponents → β)
    (hf : ∀ i seg, f (setSegmentIndex i seg) = f seg)
    (segs : List SegmentComponents) :
    (readSegments segs).map f = segs.map f := by
  apply List.ext_getElem?
  intro i
  unfold readSegments
  rw [List.getElem?_map, List.getElem?_map, List.getElem?_mapIdx,
    Option.map_map]
  congr 1
  funext seg
  exact hf i seg

theorem findSome?_readSegments {β : Type} (f : SegmentComponents → Option β)
    (hf : ∀ i seg, f (setSegmentIndex i seg) = f seg)
    (segs : List SegmentComponents) :
    (readSegments segs).findSome? f = segs.findSome? f := by
  have hmap := congrArg (List.findSome? id) (map_readSegments f hf segs)
  simpa [List.findSome?_map] using hmap

/-- Segments numbered from one, the first of them with a volume section. -/
def WellNumbered (segs : List SegmentComponents) : Prop :=
  (∀ i seg, segs[i]? = some seg → seg.segmentNumber = i + 1) ∧
    ∃ seg volume, segs[0]? = some seg ∧ seg.volume = some volume

/-- What opening makes of the segments. -/
structure Assembled (segs : List SegmentComponents)
    (metadata : E01Metadata) : Prop where
  wellNumbered : WellNumbered segs
  chunks : metadata.chunks =
    (segs.mapIdx fun i seg => (setSegmentIndex i seg).chunks).flatten
  segment : ∀ i seg, segs[i]? = some seg →
    ∀ chunk ∈ (setSegmentIndex i seg).chunks, chunk.segment = i
  segment_lt : ∀ chunk ∈ metadata.chunks,
    chunk.segment < metadata.segmentPaths.length
  segmentPaths : metadata.segmentPaths = segs.map (·.path)
  volume : segs.findSome? (·.volume) = some metadata.volume
  md5 : metadata.md5 = segs.findSome? (·.md5)
  sha1 : metadata.sha1 = segs.findSome? (·.sha1)

theorem accepted_readSegments {segs : List SegmentComponents}
    (hlength : segs.length ≤ 65535) (hne : segs ≠ []) :
    Accepted 0 .new (readSegments segs) ↔ WellNumbered segs := by
  have hword : ∀ i seg, segs[i]? = some seg → (i + 1) % 2 ^ 16 = i + 1 := by
    intro i seg hi
    have := (List.getElem?_eq_some_iff.mp hi).1
    exact Nat.mod_eq_of_lt (by omega)
  constructor
  · rintro ⟨hnumber, hvolume⟩
    constructor
    · intro i seg hi
      have := hnumber i _ (getElem?_readSegments.mpr ⟨seg, hi, rfl⟩)
      rw [Nat.zero_add, hword i seg hi] at this
      exact this
    · cases segs with
      | nil => exact absurd rfl hne
      | cons seg segs =>
          have hsome : (SegmentFold.new.record
              (setSegmentIndex 0 seg)).volume.isSome = true := by
            apply hvolume
            exact getElem?_readSegments.mpr ⟨seg, rfl, rfl⟩
          obtain ⟨volume, hseg⟩ := Option.isSome_iff_exists.mp hsome
          exact ⟨seg, volume, rfl, hseg⟩
  · rintro ⟨hnumber, first, volume, hfirst, hseg⟩
    constructor
    · intro i seg hi
      obtain ⟨raw, hraw, rfl⟩ := getElem?_readSegments.mp hi
      rw [Nat.zero_add, hword i raw hraw]
      exact hnumber i raw hraw
    · intro seg hi
      obtain ⟨raw, hraw, rfl⟩ := getElem?_readSegments.mp hi
      obtain rfl : first = raw := by simpa [hfirst] using hraw
      change first.volume.isSome = true
      rw [hseg]
      rfl

theorem processSegments_of_wellNumbered {segs : List SegmentComponents}
    (hlength : segs.length ≤ 65535) (h : WellNumbered segs) :
    ∃ metadata, processSegments (readSegments segs) = .ok metadata ∧
      Assembled segs metadata := by
  obtain ⟨first, volume, hfirst, hvolume⟩ := h.2
  have hne : segs ≠ [] := by
    rintro rfl
    simp at hfirst
  have hfound : ∃ found, segs.findSome? (·.volume) = some found := by
    cases segs with
    | nil => exact absurd rfl hne
    | cons seg segs =>
        obtain rfl : seg = first := by simpa using hfirst
        exact ⟨volume, by simp [hvolume]⟩
  obtain ⟨found, hfound⟩ := hfound
  have hfold := processSegmentsFrom_eq_ok.mpr
    ⟨(accepted_readSegments hlength hne).mpr h, rfl⟩
  rw [foldl_record, findSome?_readSegments _ (fun _ _ => rfl),
    findSome?_readSegments _ (fun _ _ => rfl),
    findSome?_readSegments _ (fun _ _ => rfl),
    map_readSegments (·.path) (fun _ _ => rfl)] at hfold
  have hchunks : ((readSegments segs).map (·.chunks)).flatten =
      (segs.mapIdx fun i seg => (setSegmentIndex i seg).chunks).flatten := by
    congr 1
    apply List.ext_getElem?
    intro i
    unfold readSegments
    rw [List.getElem?_map, List.getElem?_mapIdx, List.getElem?_mapIdx,
      Option.map_map]
    rfl
  have hsegment : ∀ i seg, segs[i]? = some seg →
      ∀ chunk ∈ (setSegmentIndex i seg).chunks, chunk.segment = i :=
    fun i seg _ chunk hchunk => mem_chunks_setSegmentIndex hchunk
  unfold processSegments
  rw [hfold, Outcome.ok_bind]
  simp only [SegmentFold.new, hfound, Option.orElse_eq_orElse,
    Option.orElse_none, List.nil_append]
  refine ⟨_, rfl, h, hchunks, hsegment, ?_, rfl, hfound, rfl, rfl⟩
  intro chunk hchunk
  simp only [hchunks, List.mem_flatten, List.mem_mapIdx] at hchunk
  obtain ⟨_, ⟨i, hi, rfl⟩, hchunk⟩ := hchunk
  rw [hsegment i segs[i] (List.getElem?_eq_getElem hi) chunk hchunk]
  simpa using hi

theorem processSegments_of_not {segs : List SegmentComponents}
    (hlength : segs.length ≤ 65535) (hne : segs ≠ [])
    (h : ¬ WellNumbered segs) :
    ∃ e, processSegments (readSegments segs) = .error e := by
  rcases processSegmentsFrom_returns 0 .new (readSegments segs) with
    ⟨acc, hok⟩ | ⟨e, herror⟩
  · have haccepted := (processSegmentsFrom_eq_ok.mp hok).1
    exact absurd ((accepted_readSegments hlength hne).mp haccepted) h
  · unfold processSegments
    rw [herror]
    exact ⟨e, rfl⟩

/-- Segments are assembled when they are well numbered, and refused when they
are not. -/
theorem processSegments_cases {segs : List SegmentComponents}
    (hlength : segs.length ≤ 65535) (hne : segs ≠ []) :
    (WellNumbered segs ∧ ∃ metadata,
      processSegments (readSegments segs) = .ok metadata ∧
        Assembled segs metadata) ∨
    (¬ WellNumbered segs ∧
      ∃ e, processSegments (readSegments segs) = .error e) := by
  by_cases hwell : WellNumbered segs
  · exact Or.inl ⟨hwell, processSegments_of_wellNumbered hlength hwell⟩
  · exact Or.inr ⟨hwell, processSegments_of_not hlength hne hwell⟩

/-- The segments are put together into one list of chunks, or refused. -/
theorem processSegments_assembles {segs : List SegmentComponents}
    (hlength : segs.length ≤ 65535) :
    (∀ metadata, processSegments (readSegments segs) = .ok metadata →
      Assembled segs metadata) ∧
    (segs ≠ [] →
      (WellNumbered segs ∧
        ∃ metadata, processSegments (readSegments segs) = .ok metadata) ∨
      (¬ WellNumbered segs ∧
        ∃ e, processSegments (readSegments segs) = .error e)) ∧
    ∀ build options, openImpl build options segs ≠ .panic .assertionFailed := by
  refine ⟨?_, ?_, ?_⟩
  · intro metadata hok
    by_cases hne : segs = []
    · subst hne
      simp [processSegments, processSegmentsFrom, readSegments,
        SegmentFold.new] at hok
    · rcases processSegments_cases hlength hne with
        ⟨-, metadata', hok', hassembled⟩ | ⟨-, e, herror⟩
      · obtain rfl : metadata' = metadata := by simpa [hok'] using hok
        exact hassembled
      · simp [herror] at hok
  · intro hne
    rcases processSegments_cases hlength hne with
      ⟨hwell, metadata, hok, -⟩ | hrefused
    · exact Or.inl ⟨hwell, metadata, hok⟩
    · exact Or.inr hrefused
  · intro build options
    unfold openImpl
    split_ifs with hempty
    · simp
    · change (processSegments (readSegments segs) >>= _) ≠ _
      rcases processSegments_cases hlength hempty with
        ⟨-, metadata, hok, -⟩ | ⟨-, e, herror⟩
      · rw [hok, Outcome.ok_bind]
        intro hpanic
        apply checkVolume_ne_assertionFailed build metadata.volume
          metadata.chunks.length
        cases hcheck : checkVolume build metadata.volume
          metadata.chunks.length <;> simp_all
      · simp [herror]

theorem processSegments_assembles_two :
    let segs : List SegmentComponents :=
      [{ path := "image.E01", segmentNumber := 1, volume := some ⟨2, 1, 1, 2⟩
         md5 := none, sha1 := none, chunks := [⟨0, 0, 5, false⟩] },
       { path := "image.E02", segmentNumber := 2, volume := none
         md5 := none, sha1 := none, chunks := [⟨0, 0, 5, false⟩] }]
    (∀ metadata, processSegments (readSegments segs) = .ok metadata →
      Assembled segs metadata) ∧
    (segs ≠ [] →
      (WellNumbered segs ∧
        ∃ metadata, processSegments (readSegments segs) = .ok metadata) ∨
      (¬ WellNumbered segs ∧
        ∃ e, processSegments (readSegments segs) = .error e)) ∧
    ∀ build options, openImpl build options segs ≠ .panic .assertionFailed :=
  processSegments_assembles (by decide)

end E01
end ImageReader
