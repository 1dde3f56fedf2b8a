import ImageReader.VmdkReading

/-!
# A snapshot chain reads as its earliest extents

The extents of a chain are ordered: the opened image first, then its parent,
and so on, and within an image in the order of its descriptor.  The byte at an
offset is the byte of the first extent which has its sector, and zero where no
extent has it.

The walk may stop in the middle of a chain.  It does so only when nothing is
uncovered, so that the extents behind cannot be first anywhere.
-/

namespace ImageReader
namespace Vmdk

variable {δ : Type} {build : Build} {inflater : Inflater δ}
  {handleImage : HandleImage} {fuel : ℕ} {imagePath : String} {url : Url}
  {reader : VmdkReader}

/-! ## Tiling -/

/-- Every iteration of the copy loop moves the offset on. -/
theorem copy_progress (hwf : reader.WellFormed)
    {offset i : ℕ} {buf : Bytes} (hoffset : offset ≤ reader.imageSize)
    (hfirst : firstSpan reader offset = .ok i) {copy copy' : Copy}
    (hreach : Reaches
      (copyBody build inflater reader
        (offset + min buf.length (reader.imageSize - offset)))
      ⟨offset, i, [], Slice.window buf 0
        (min buf.length (reader.imageSize - offset))⟩ copy)
    (hbody : copyBody build inflater reader
      (offset + min buf.length (reader.imageSize - offset)) copy =
        .ok (.next copy')) :
    copy.offset < copy'.offset := by
  set count := min buf.length (reader.imageSize - offset)
  obtain ⟨i', hfirst', hspan⟩ := firstSpan_spec hwf offset
  obtain rfl : i = i' := by simpa [hfirst] using hfirst'
  have hspec (copy : Copy)
      (hcopy : Copying build inflater reader offset count copy) :=
    copyBody_spec hwf (by omega) hcopy
  have hcopying : Copying build inflater reader offset count copy := by
    refine hreach.invariant ?_ {
      offset_eq := rfl
      length_eq := by
        simpa using Slice.length_window_of_le (by omega)
      at_span := fun hlt => hspan (by simp only at hlt; omega)
      held := ⟨rfl, by simp⟩ }
    intro copy copy' hcopy hbody
    have hiter := hspec copy hcopy
    rw [hbody] at hiter
    exact hiter.1
  have hiter := hspec copy hcopying
  rw [hbody] at hiter
  obtain ⟨hcopying', hlt⟩ := hiter
  simp only at hlt
  have := hcopying.offset_eq
  have := hcopying'.offset_eq
  have := hcopying.length_eq
  have := hcopying'.length_eq
  omega

/-- An opened image is tiled by its spans, and a read of it stays on them. -/
theorem opened_image_tiled
    (hopen : openWithOptions build handleImage fuel imagePath url =
      .ok reader) :
    Contiguous reader.imageSize 0 (reader.spans.filter nonEmpty) ∧
    (∀ beg end_ x, (beg, (end_, x)) ∈ reader.spans → beg < end_ →
      ∃ ex, reader.extents[x]? = some ex ∧
        ex.startSector * SECTOR_SIZE ≤ beg ∧
        end_ ≤ (ex.startSector + ex.sectors) * SECTOR_SIZE ∧
        ∀ storage, ex.storage = .sparse storage →
          ∀ o, beg ≤ o → o < end_ →
            (o / SECTOR_SIZE - ex.startSector) / storage.grainSize ∈
              storage.grainTable.keys) ∧
    ∀ (inflater : Inflater δ) (offset : ℕ) (buf : Bytes),
      offset ≤ reader.imageSize → offset + buf.length < wordLimit →
      ReadsImage build inflater reader offset buf
        (readAtOffset build inflater reader offset buf) ∧
      ∀ i, firstSpan reader offset = .ok i → ∀ copy copy',
        Reaches
          (copyBody build inflater reader
            (offset + min buf.length (reader.imageSize - offset)))
          ⟨offset, i, [], Slice.window buf 0
            (min buf.length (reader.imageSize - offset))⟩ copy →
        copyBody build inflater reader
          (offset + min buf.length (reader.imageSize - offset)) copy =
            .ok (.next copy') →
        copy.offset < copy'.offset := by
  obtain ⟨n, walk, fill, spans, hopened⟩ := openWithOptions_spec hopen
  have hwf := hopened.wellFormed
  refine ⟨hwf.tiles.contiguous, ?_, ?_⟩
  · intro beg end_ x hspan hlt
    obtain ⟨ex, hget, _, _, hhas⟩ := hwf.owned beg end_ x hspan hlt
    have hfirst := (hhas beg le_rfl hlt).1
    have hlast := (hhas (end_ - 1) (by omega) (by omega)).2.1
    rw [Nat.le_div_iff_mul_le (by simp)] at hfirst
    rw [Nat.div_lt_iff_lt_mul (by simp)] at hlast
    refine ⟨ex, hget, hfirst, by omega, ?_⟩
    intro storage hstorage o hbeg hend
    exact (hhas o hbeg hend).2.2 storage hstorage
  · intro inflater offset buf hoffset hbuf
    refine ⟨readAtOffset_spec hwf hoffset hbuf, ?_⟩
    intro i hfirst copy copy' hreach hbody
    exact copy_progress hwf hoffset hfirst hreach hbody

def filledFile (len : ℕ) (byte : UInt8) : BackingFile :=
  ⟨List.replicate len byte, fun _ _ => none⟩

/-- One sparse extent of two sectors with its first grain only. -/
def childImage : ImageExtents where
  extents := [⟨0, 2, .sparse {
    source := filledFile 1024 7
    filename := "child-s001"
    grainTable := AList.singleton 0 1
    grainSize := 1
    hasCompressedGrain := false
    zeroedGrainTableEntry := false
    startSector := 0 }⟩]
  regular := by
    intro ex hex
    obtain rfl := List.mem_singleton.mp hex
    exact {
      flatStart := by simp
      sparseStart := by simp
      grainSize_pos := by simp
      grain_le := by simp [Extent.sparseSizeLimit] }
  laid := ⟨rfl, trivial⟩

/-- A flat extent and a zero extent of one sector each. -/
def baseImage : ImageExtents where
  extents := [⟨0, 1, .flat ⟨filledFile 512 5, 0, 0⟩⟩, ⟨1, 1, .zero⟩]
  regular := by
    intro ex hex
    rcases List.mem_cons.mp hex with rfl | hex
    · exact ⟨by simp, by simp, by simp, by simp⟩
    · obtain rfl := List.mem_singleton.mp hex
      exact ⟨by simp, by simp, by simp, by simp⟩
  laid := ⟨rfl, by simp [wordLimit], trivial⟩

def snapshotChain : HandleImage := fun url _ =>
  if url = "child" then .ok (childImage, some "base")
  else .ok (baseImage, none)

theorem openWithOptions_snapshotChain :
    ∃ reader, openWithOptions .release snapshotChain 3 "child" "child" =
      .ok reader ∧ reader.imageSize = 1024 :=
  ⟨_, rfl, rfl⟩

theorem opened_image_tiled_snapshotChain :
    ∃ reader,
      openWithOptions .release snapshotChain 3 "child" "child" =
        .ok reader ∧
      Contiguous reader.imageSize 0 (reader.spans.filter nonEmpty) ∧
      ReadsImage .release emptyInflater reader 500 (List.replicate 600 9)
        (readAtOffset .release emptyInflater reader 500
          (List.replicate 600 9)) := by
  obtain ⟨reader, hopen, hsize⟩ := openWithOptions_snapshotChain
  obtain ⟨hcontiguous, _, hread⟩ := opened_image_tiled (δ := Unit) hopen
  exact ⟨reader, hopen, hcontiguous,
    (hread emptyInflater 500 (List.replicate 600 9) (by omega)
      (by rw [List.length_replicate, wordLimit_eq]; omega)).1⟩

/-! ## The bytes of a chain -/

/-- Byte `o` of a chain: the byte of its earliest extent with a span there,
or zero. -/
def ChainByte (build : Build) (inflater : Inflater δ)
    (imgs : List ImageExtents) (o : ℕ) (b : UInt8) : Prop :=
  (∃ (i : ℕ) (ex : Extent), (chainExtents imgs)[i]? = some ex ∧
    ex.SpansSector build (o / SECTOR_SIZE) ∧
    (∀ j < i, ∀ ex' : Extent, (chainExtents imgs)[j]? = some ex' →
      ¬ ex'.SpansSector build (o / SECTOR_SIZE)) ∧
    ex.Delivers build inflater o b) ∨
  (∀ ex ∈ chainExtents imgs, ¬ ex.SpansSector build (o / SECTOR_SIZE)) ∧
    b = 0

/-- A read which delivers the bytes of the chain, or hands on a failed backing
read. -/
def ReadsChain (build : Build) (inflater : Inflater δ) (reader : VmdkReader)
    (imgs : List ImageExtents) (offset : ℕ) (buf : Bytes) :
    Outcome ReadError (ℕ × Bytes) → Prop
  | .ok (count, filled) =>
      count = min buf.length (reader.imageSize - offset) ∧
        ∃ bytes : Bytes, bytes.length = count ∧
          filled = bytes ++ buf.drop count ∧
          ∀ j b, bytes[j]? = some b →
            ChainByte build inflater imgs (offset + j) b
  | .error e => ∃ err, e = .ioError err ∧
      reader.BackingFailure build inflater offset
        (offset + min buf.length (reader.imageSize - offset)) err
  | .panic _ => False
  | .hang => False

section Opened

variable {n : ℕ} {walk : Walk} {fill : List Extent} {spans : SpanMap ℕ}

theorem Opened.spansSector_iff
    (h : Opened handleImage url reader n walk fill spans) {ex : Extent}
    (hex : ex ∈ reader.extents) (s : ℕ) :
    ex.SpansSector build s ↔ ex.HasSector s := by
  obtain ⟨hregular, hend⟩ := h.regular ex hex
  exact Extent.spansSector_iff hregular
    ((Nat.mul_le_mul_right _ hend).trans_lt h.walked.lt) s

theorem Opened.positionsExact
    (h : Opened handleImage url reader n walk fill spans)
    (hexact : ∀ ex ∈ walk.extents, ex.PositionsExact) :
    reader.PositionsExact := by
  intro ex hex
  rw [h.extents, List.mem_append] at hex
  rcases hex with hex | hex
  · exact hexact ex hex
  · intro offset _ _
    simp [(h.isFill ex hex).1]

/-- A byte held by a reader is the byte of every chain which the walk has seen
the front of, and has seen completely unless nothing was uncovered. -/
theorem Opened.chainByte
    (h : Opened handleImage url reader n walk fill spans)
    {imgs : List ImageExtents} (hinitial : walk.extents <+: chainExtents imgs)
    (hend : walk.uncovered.isEmpty = true ∨ walk.extents = chainExtents imgs)
    {o : ℕ} {b : UInt8} (hheld : reader.HeldByte build inflater o b) :
    ChainByte build inflater imgs o b := by
  obtain ⟨beg, end_, x, ex, hspan, hbeg, hlt, hget, hdelivers⟩ := hheld
  have hfirst := h.firstHas hspan hbeg hlt
  obtain ⟨⟨ex', hget', hhas⟩, hmin⟩ := hfirst
  obtain rfl : ex = ex' := by simpa [hget] using hget'
  obtain ⟨more, hmore⟩ := hinitial
  by_cases hwalk : x < walk.extents.length
  · -- the owner is an extent of the chain, and first there as well
    have hsame : ∀ j, j ≤ x →
        (chainExtents imgs)[j]? = reader.extents[j]? := by
      intro j hj
      rw [← hmore, h.extents, List.getElem?_append_left (by omega),
        List.getElem?_append_left (by omega)]
    refine Or.inl ⟨x, ex, by rw [hsame x le_rfl, hget],
      (h.spansSector_iff (List.mem_of_getElem? hget) _).mpr hhas, ?_,
      hdelivers⟩
    intro j hj ex' hex' hspans
    rw [hsame j hj.le] at hex'
    exact hmin j hj ex' hex'
      ((h.spansSector_iff (List.mem_of_getElem? hex') _).mp hspans)
  · -- the owner is a fill, so no extent of the walk has the sector
    have hfill : ex ∈ fill := by
      rw [h.extents, List.getElem?_append_right (by omega)] at hget
      exact List.mem_of_getElem? hget
    have hall : walk.extents = chainExtents imgs := by
      rcases hend with hempty | heq
      · rw [h.noFill hempty] at hfill
        simp at hfill
      · exact heq
    refine Or.inr ⟨?_, ?_⟩
    · intro ex' hex' hspans
      rw [← hall] at hex'
      have hmem : ex' ∈ reader.extents := by
        rw [h.extents]
        exact List.mem_append_left _ hex'
      obtain ⟨j, hj⟩ := List.mem_iff_getElem?.mp hex'
      have hjlt := (List.getElem?_eq_some_iff.mp hj).1
      refine hmin j (by omega) ex' ?_ ((h.spansSector_iff hmem _).mp hspans)
      rw [h.extents, List.getElem?_append_left hjlt, hj]
    · unfold Extent.Delivers at hdelivers
      simpa only [(h.isFill ex hfill).1] using hdelivers

end Opened

/-- Opening a chain follows it through some images, and from then on a read
delivers the bytes of the chain: of the images which were followed, and of the
chain as far as it may be continued behind them. -/
theorem readAtOffset_reads_chain
    (hopen : openWithOptions build handleImage fuel imagePath url =
      .ok reader) :
    ∃ followed, followed ≠ [] ∧ IsChain handleImage url 0 followed ∧
      ∀ imgs, followed <+: imgs → IsChain handleImage url 0 imgs →
      (∀ img ∈ imgs, ∀ ex ∈ img.extents, ex.PositionsExact) →
      ∀ (inflater : Inflater δ) (offset : ℕ) (buf : Bytes),
        offset ≤ reader.imageSize → offset + buf.length < wordLimit →
        ReadsChain build inflater reader imgs offset buf
          (readAtOffset build inflater reader offset buf) := by
  obtain ⟨n, walk, fill, spans, hopened⟩ := openWithOptions_spec hopen
  obtain ⟨followed, hne, hchain, hinitial, hend⟩ := hopened.walked.chain
  refine ⟨followed, hne, hchain, ?_⟩
  intro imgs hext himgs hexact inflater offset buf hoffset hbuf
  obtain ⟨more, rfl⟩ := hext
  have hinitial' : walk.extents <+: chainExtents (followed ++ more) := by
    unfold chainExtents
    rw [List.flatMap_append]
    exact hinitial.trans (List.prefix_append _ _)
  have hend' : walk.uncovered.isEmpty = true ∨
      walk.extents = chainExtents (followed ++ more) := by
    rcases hend with hempty | ⟨heq, hstop⟩
    · exact Or.inl hempty
    · rw [hstop more himgs, List.append_nil]
      exact Or.inr heq
  have hpositions : reader.PositionsExact := by
    apply hopened.positionsExact
    intro ex hex
    obtain ⟨img, himg, hin⟩ := List.mem_flatMap.mp (hinitial'.subset hex)
    exact hexact img himg ex hin
  have hreads : ReadsImage build inflater reader offset buf
      (readAtOffset build inflater reader offset buf) :=
    readAtOffset_spec hopened.wellFormed hoffset hbuf
  cases hcase : readAtOffset build inflater reader offset buf with
  | ok result =>
      obtain ⟨count, filled⟩ := result
      rw [hcase] at hreads
      obtain ⟨hcount, bytes, ⟨hlen, hheld⟩, hfilled⟩ := hreads
      refine ⟨hcount, bytes, hlen, hfilled, ?_⟩
      intro j b hj
      exact hopened.chainByte hinitial' hend' (hheld hpositions j b hj)
  | error e =>
      rw [hcase] at hreads
      exact hreads
  | panic fault =>
      rw [hcase] at hreads
      exact hreads.1 hpositions
  | hang =>
      rw [hcase] at hreads
      exact hreads

theorem prefix_of_snapshotChain {imgs : List ImageExtents}
    (hchain : IsChain snapshotChain "child" 0 imgs) :
    imgs <+: [childImage, baseImage] := by
  cases imgs with
  | nil => exact List.nil_prefix
  | cons img rest =>
      obtain ⟨parent, hhandle, hrest⟩ := hchain
      obtain ⟨rfl, rfl⟩ : childImage = img ∧ some "base" = parent := by
        simpa [snapshotChain] using hhandle
      refine (List.prefix_cons_inj _).mpr ?_
      rcases hrest with rfl | ⟨parentUrl, hparent, hchain⟩
      · exact List.nil_prefix
      · obtain rfl : "base" = parentUrl := by simpa using hparent
        cases rest with
        | nil => exact List.nil_prefix
        | cons img rest =>
            obtain ⟨parent, hhandle, hrest⟩ := hchain
            obtain ⟨rfl, rfl⟩ : baseImage = img ∧ none = parent := by
              simpa [snapshotChain] using hhandle
            obtain rfl : rest = [] := by simpa using hrest
            exact List.prefix_refl _

theorem readAtOffset_reads_snapshotChain :
    ∃ reader,
      openWithOptions .release snapshotChain 3 "child" "child" =
        .ok reader ∧
      ReadsChain .release emptyInflater reader [childImage, baseImage] 500
        (List.replicate 600 9)
        (readAtOffset .release emptyInflater reader 500
          (List.replicate 600 9)) := by
  obtain ⟨reader, hopen, hsize⟩ := openWithOptions_snapshotChain
  obtain ⟨followed, _, hfollowed, hreads⟩ :=
    readAtOffset_reads_chain (δ := Unit) hopen
  refine ⟨reader, hopen, ?_⟩
  apply hreads
  · exact prefix_of_snapshotChain hfollowed
  · exact ⟨_, rfl, Or.inr ⟨"base", rfl, _, rfl, Or.inl rfl⟩⟩
  · intro img himg ex hex offset _ hlt
    simp only [List.mem_cons, List.not_mem_nil, or_false] at himg
    rcases himg with rfl | rfl
    · obtain rfl := List.mem_singleton.mp hex
      intro offsetInExtent sectorNum hlookup
      have hentry := AList.mem_lookup_iff.mp (Option.mem_def.mpr hlookup)
      obtain ⟨_, rfl⟩ : offsetInExtent / (1 * SECTOR_SIZE) = 0 ∧
          sectorNum = 1 := by
        have hentries : (AList.singleton 0 1 : AList fun _ : ℕ => ℕ).entries =
            [⟨0, 1⟩] := rfl
        simpa [hentries] using hentry
      have hmod := Nat.mod_lt offsetInExtent
        (show 0 < 1 * SECTOR_SIZE by decide)
      simp only [sectorSize_eq] at hmod ⊢
      rw [wordLimit_eq]
      omega
    · simp only [baseImage, List.mem_cons, List.not_mem_nil, or_false] at hex
      rcases hex with rfl | rfl
      · intro offsetInExtent
        simp only [sectorSize_eq] at hlt
        simp only [offsetInExtent, sectorSize_eq, wordLimit_eq]
        omega
      · trivial
  · omega
  · rw [List.length_replicate, wordLimit_eq]
    omega

end Vmdk
end ImageReader
