import ImageReader.VmdkSectors

/-!
# The spans of a sparse extent and the grains behind them

The spans are computed in sectors and cut at the end of the extent; a read
computes its grain in bytes from the start of the extent.  Both select the same
grain: a buffer inside a span lies inside one grain of the table.
-/

namespace ImageReader
namespace Vmdk

/-! ## Spans -/

namespace Extent

variable {startSector extentEnd grainSize g g' : ℕ} {span span' : ℕ × ℕ}

/-- No sector lies in both spans. -/
def Apart (span span' : ℕ × ℕ) : Prop :=
  span.2 ≤ span'.1 ∨ span'.2 ≤ span.1

theorem apart_of_clampedGrain (hpos : 0 < grainSize) (hne : g ≠ g')
    (h : clampedGrain startSector extentEnd grainSize g = some span)
    (h' : clampedGrain startSector extentEnd grainSize g' = some span') :
    Apart span span' := by
  obtain ⟨hbeg, -, hend, -⟩ := bounds_of_clampedGrain hpos h
  obtain ⟨hbeg', -, hend', -⟩ := bounds_of_clampedGrain hpos h'
  unfold Apart
  rcases Nat.lt_or_gt_of_ne hne with hlt | hlt
  · have hgrains := Nat.mul_le_mul_right grainSize (Nat.succ_le_of_lt hlt)
    rw [Nat.succ_mul] at hgrains
    omega
  · have hgrains := Nat.mul_le_mul_right grainSize (Nat.succ_le_of_lt hlt)
    rw [Nat.succ_mul] at hgrains
    omega

theorem clampedGrains_apart (hpos : 0 < grainSize) {goffs : List ℕ}
    (hnodup : goffs.Nodup) :
    (goffs.filterMap (clampedGrain startSector extentEnd grainSize)).Pairwise
      Apart :=
  List.Pairwise.filterMap (clampedGrain startSector extentEnd grainSize)
    (fun _ _ hne _ h _ h' => apart_of_clampedGrain hpos hne h h') hnodup

end Extent

/-! ## Reads -/

variable {δ : Type} {build : Build} {inflater : Inflater δ}

namespace SparseStorage

/-- The grain a byte offset of the image is looked up under. -/
def grainIndex (storage : SparseStorage) (offset : ℕ) : ℕ :=
  storage.offsetInExtent offset / storage.grainBytes

/-- The position of the byte within its grain. -/
def grainPos (storage : SparseStorage) (offset : ℕ) : ℕ :=
  storage.offsetInExtent offset % storage.grainBytes

/-- The entry of the table stands for a grain of zeros. -/
def Zeroed (storage : SparseStorage) (sectorNum : ℕ) : Prop :=
  storage.zeroedGrainTableEntry = true ∧ sectorNum = 1

/-- The words computed for a read of the grain at `sectorNum` do not
overflow. -/
structure ReadInWords (storage : SparseStorage) (offset sectorNum : ℕ) :
    Prop where
  offset_lt : offset < wordLimit
  grainBytes_lt : storage.grainBytes < wordLimit
  position : ¬ storage.Zeroed sectorNum →
    storage.positionIn offset sectorNum < wordLimit
  doubled : ¬ storage.Zeroed sectorNum →
    storage.hasCompressedGrain = true → 2 * storage.grainBytes < wordLimit

/-- What a read of `r` bytes at position `at_` of a grain does: it fills the
buffer or reports a failure of the file, and the bytes of a stored grain are
those of the file. -/
structure GrainRead (storage : SparseStorage) (sectorNum at_ r : ℕ)
    (outcome : Outcome IoError Bytes) : Prop where
  settles : (∃ out, outcome = .ok out ∧ out.length = r) ∨
    ∃ e, outcome = .error e ∧ e.FromBacking
  zeroed : storage.Zeroed sectorNum → outcome = .ok (List.replicate r 0)
  stored : ¬ storage.Zeroed sectorNum → storage.hasCompressedGrain = false →
    outcome = readFileAt storage.source (sectorNum * SECTOR_SIZE + at_) r
  bytes : ¬ storage.Zeroed sectorNum → storage.hasCompressedGrain = false →
    ∀ out, outcome = .ok out → out = Slice.window storage.source.content
      (sectorNum * SECTOR_SIZE + at_) r

end SparseStorage

theorem readFileAt_settles (file : BackingFile) (pos r : ℕ) :
    (∃ out, readFileAt file pos r = .ok out ∧ out.length = r ∧
        out = Slice.window file.content pos r) ∨
      ∃ e, readFileAt file pos r = .error e ∧ e.FromBacking := by
  unfold readFileAt
  rcases ioResult_cases (file.seek pos) with ⟨u, -, hseek⟩ | ⟨e, hseek, he⟩
  · rw [hseek, Outcome.ok_bind]
    rcases ioResult_cases (file.readExact pos r) with
      ⟨out, hread, hout⟩ | ⟨e, hout, he⟩
    · exact Or.inl ⟨out, hout, (BackingFile.readExact_eq_ok hread).1,
        BackingFile.eq_window_of_readExact hread⟩
    · exact Or.inr ⟨e, hout, he⟩
  · rw [hseek]
    exact Or.inr ⟨e, rfl, he⟩

variable {storage : SparseStorage} {sectorNum grainIndex grainSize at_ r : ℕ}

theorem readGrain_of_zeroed (hzeroed : storage.Zeroed sectorNum) :
    readGrain build inflater storage sectorNum grainIndex grainSize at_ r =
      .ok (List.replicate r 0) :=
  if_pos hzeroed

theorem readGrain_of_stored (hzeroed : ¬ storage.Zeroed sectorNum)
    (hstored : storage.hasCompressedGrain = false)
    (hword : sectorNum * SECTOR_SIZE + at_ < wordLimit) :
    readGrain build inflater storage sectorNum grainIndex grainSize at_ r =
      readFileAt storage.source (sectorNum * SECTOR_SIZE + at_) r := by
  unfold readGrain readFileAt
  unfold SparseStorage.Zeroed at hzeroed
  rw [if_neg hzeroed, Build.mul_of_lt (by omega), Outcome.ok_bind, hstored,
    if_neg Bool.false_ne_true, Build.add_of_lt hword, Outcome.ok_bind]

/-- A compressed grain is decompressed as a whole, and the read is a slice of
it. -/
theorem readGrain_of_compressed (hzeroed : ¬ storage.Zeroed sectorNum)
    (hcompressed : storage.hasCompressedGrain = true)
    (hword : sectorNum * SECTOR_SIZE < wordLimit)
    (hsize : 2 * grainSize < wordLimit) (hr : at_ + r ≤ grainSize) :
    (∃ out, readGrain build inflater storage sectorNum grainIndex grainSize
        at_ r = .ok out ∧ out.length = r) ∨
      ∃ e, readGrain build inflater storage sectorNum grainIndex grainSize
        at_ r = .error e ∧ e.FromBacking := by
  unfold readGrain
  unfold SparseStorage.Zeroed at hzeroed
  rw [if_neg hzeroed, Build.mul_of_lt hword, Outcome.ok_bind, hcompressed,
    if_pos rfl]
  rcases ioResult_cases (storage.source.seek (sectorNum * SECTOR_SIZE)) with
    ⟨u, -, hseek⟩ | ⟨e, hseek, he⟩
  swap
  · rw [hseek]
    exact Or.inr ⟨e, rfl, he⟩
  rw [hseek, Outcome.ok_bind]
  rcases readAndDecompressGrain_spec build inflater storage.source
      (sectorNum * SECTOR_SIZE) grainIndex grainSize hsize with
    ⟨grain, hgrain, hlength⟩ | ⟨e, hgrain, he⟩
  · rw [hgrain, Outcome.ok_bind, Slice.range_of_le (by omega) (by omega),
      Nat.add_sub_cancel_left]
    exact Or.inl ⟨_, rfl, Slice.length_window_of_le (by omega)⟩
  · rw [hgrain]
    exact Or.inr ⟨e, rfl, he⟩

namespace SparseStorage

variable {offset want : ℕ}

theorem grainRead_readGrain (hwords : storage.ReadInWords offset sectorNum)
    (hr : storage.grainPos offset + r ≤ storage.grainBytes) :
    storage.GrainRead sectorNum (storage.grainPos offset) r
      (readGrain build inflater storage sectorNum grainIndex
        storage.grainBytes (storage.grainPos offset) r) := by
  by_cases hzeroed : storage.Zeroed sectorNum
  · rw [readGrain_of_zeroed hzeroed]
    exact ⟨Or.inl ⟨_, rfl, List.length_replicate⟩, fun _ => rfl,
      fun h => absurd hzeroed h, fun h => absurd hzeroed h⟩
  have hposition := hwords.position hzeroed
  unfold positionIn at hposition
  cases hcase : storage.hasCompressedGrain with
  | true =>
      rw [hcase, if_pos rfl] at hposition
      refine ⟨readGrain_of_compressed hzeroed hcase hposition
        (hwords.doubled hzeroed hcase) hr, fun h => absurd h hzeroed, ?_, ?_⟩
      · simp [hcase]
      · simp [hcase]
  | false =>
      rw [hcase, if_neg Bool.false_ne_true, ← grainPos] at hposition
      rw [readGrain_of_stored hzeroed hcase hposition]
      have hsettles := readFileAt_settles storage.source
        (sectorNum * SECTOR_SIZE + storage.grainPos offset) r
      refine ⟨?_, fun h => absurd h hzeroed, fun _ _ => rfl, ?_⟩
      · rcases hsettles with ⟨out, hout, hlength, -⟩ | herror
        · exact Or.inl ⟨out, hout, hlength⟩
        · exact Or.inr herror
      · intro _ _ out hout
        rcases hsettles with ⟨out', hout', -, hbytes⟩ | ⟨e, herror, -⟩
        · rw [hout] at hout'
          exact (Outcome.ok.inj hout').trans hbytes
        · exact absurd (hout.symm.trans herror) (by simp)

/-- Offset `offset` lies in grain `g`, at least `want` bytes in front of its
end. -/
structure InGrain (storage : SparseStorage) (g offset want : ℕ) : Prop where
  start_le : storage.startSector * SECTOR_SIZE ≤ offset
  index : storage.grainIndex offset = g
  room : storage.grainPos offset + want ≤ storage.grainBytes

/-- A buffer inside the span of a grain lies inside that grain. -/
theorem inGrain_of_span {span : ℕ × ℕ} {g extentEnd : ℕ}
    (hpos : 0 < storage.grainSize) (hwant : 0 < want)
    (hspan : Extent.clampedGrain storage.startSector extentEnd
      storage.grainSize g = some span)
    (hbeg : span.1 * SECTOR_SIZE ≤ offset)
    (hend : offset + want ≤ span.2 * SECTOR_SIZE) :
    storage.InGrain g offset want := by
  obtain ⟨hfirst, -, hlast, -⟩ := Extent.bounds_of_clampedGrain hpos hspan
  have hbytes : 0 < storage.grainBytes :=
    Nat.mul_pos hpos (by rw [sectorSize_eq]; omega)
  -- the bytes of grain `g`, counted from the start of the extent
  have hgrain : g * storage.grainSize * SECTOR_SIZE =
      g * storage.grainBytes := by
    rw [grainBytes, Nat.mul_assoc]
  have hlow : storage.startSector * SECTOR_SIZE + g * storage.grainBytes ≤
      offset := by
    rw [← hgrain, ← Nat.add_mul, ← hfirst]
    exact hbeg
  have hhigh : offset + want ≤ storage.startSector * SECTOR_SIZE +
      g * storage.grainBytes + storage.grainBytes := by
    rw [← hgrain, grainBytes, ← Nat.add_mul, ← Nat.add_mul]
    exact hend.trans (Nat.mul_le_mul_right _ hlast)
  have hindex : storage.grainIndex offset = g := by
    unfold grainIndex offsetInExtent
    rw [Nat.div_eq_iff hbytes]
    omega
  refine ⟨by omega, hindex, ?_⟩
  have hsplit := Nat.div_add_mod (storage.offsetInExtent offset)
    storage.grainBytes
  unfold grainIndex at hindex
  rw [hindex, Nat.mul_comm] at hsplit
  unfold grainPos offsetInExtent at *
  omega

theorem InGrain.read (h : storage.InGrain (storage.grainIndex offset) offset want)
    (hpos : 0 < storage.grainSize) (hwords : storage.ReadInWords offset sectorNum)
    (hlookup : storage.grainTable.lookup (storage.grainIndex offset) =
      some sectorNum) :
    storage.GrainRead sectorNum (storage.grainPos offset) want
      (storage.read build inflater offset want) := by
  have hread : storage.read build inflater offset want =
      readGrain build inflater storage sectorNum (storage.grainIndex offset)
        storage.grainBytes (storage.grainPos offset)
        (min (storage.grainBytes - storage.grainPos offset) want) :=
    SparseStorage.read_of_lookup build inflater storage offset want hpos
      hwords.grainBytes_lt h.start_le hwords.offset_lt hlookup
  have hcount : min (storage.grainBytes - storage.grainPos offset) want =
      want := by
    have := h.room
    omega
  rw [hread, hcount]
  exact grainRead_readGrain hwords h.room

/-- The spans of a sparse extent are the sectors of its grains in front of its
end, and a buffer inside a span is read from the grain of that span. -/
theorem sparse_spans_agree {ε : Type} (build : Build) (inflater : Inflater δ)
    (storage : SparseStorage) (sectors : ℕ) (hpos : 0 < storage.grainSize)
    (hend : storage.startSector + sectors < wordLimit)
    (hwords : ∀ g ∈ storage.grainTable.keys,
      Extent.GrainInWords storage.startSector (storage.startSector + sectors)
        storage.grainSize g) :
    ∃ list, (Extent.spans build
        ⟨storage.startSector, sectors, .sparse storage⟩ :
          Outcome ε (List (ℕ × ℕ))) = .ok list ∧
      list.Pairwise Extent.Apart ∧
      (∀ span ∈ list, storage.startSector ≤ span.1 ∧ span.1 < span.2 ∧
        span.2 ≤ storage.startSector + sectors) ∧
      (∀ s, (∃ span ∈ list, span.1 ≤ s ∧ s < span.2) ↔
        storage.startSector ≤ s ∧ s < storage.startSector + sectors ∧
          (s - storage.startSector) / storage.grainSize ∈
            storage.grainTable.keys) ∧
      ∀ span ∈ list, ∀ offset want, span.1 * SECTOR_SIZE ≤ offset →
        0 < want → offset + want ≤ span.2 * SECTOR_SIZE →
        ∃ sectorNum,
          storage.grainTable.lookup (storage.grainIndex offset) =
            some sectorNum ∧
          storage.grainPos offset + want ≤ storage.grainBytes ∧
          (storage.ReadInWords offset sectorNum →
            storage.GrainRead sectorNum (storage.grainPos offset) want
              (storage.read build inflater offset want)) := by
  have hspans : (Extent.spans build
      ⟨storage.startSector, sectors, .sparse storage⟩ :
        Outcome ε (List (ℕ × ℕ))) =
      .ok (storage.grainTable.keys.filterMap
        (Extent.clampedGrain storage.startSector
          (storage.startSector + sectors) storage.grainSize)) := by
    unfold Extent.spans
    simp only
    rw [Build.add_of_lt hend, Outcome.ok_bind]
    exact Extent.grainSpans_eq build _ hwords
  refine ⟨_, hspans, Extent.clampedGrains_apart hpos
    storage.grainTable.keys_nodup, ?_,
    Extent.in_clampedGrains_iff hpos storage.grainTable.keys, ?_⟩
  · intro span hspan
    obtain ⟨g, -, hg⟩ := List.mem_filterMap.mp hspan
    obtain ⟨hbeg, hlt, -, hle⟩ := Extent.bounds_of_clampedGrain hpos hg
    exact ⟨by omega, hlt, hle⟩
  · intro span hspan offset want hbeg hwant hlast
    obtain ⟨g, hkey, hg⟩ := List.mem_filterMap.mp hspan
    have hin := inGrain_of_span hpos hwant hg hbeg hlast
    obtain rfl := hin.index
    obtain ⟨sectorNum, hlookup⟩ := Option.isSome_iff_exists.mp
      (AList.lookup_isSome.mpr (AList.mem_keys.mpr hkey))
    exact ⟨sectorNum, hlookup, hin.room,
      fun hread => hin.read hpos hread hlookup⟩

/-- One grain of a file, which overhangs the extent. -/
def overhangingStorage : SparseStorage where
  source := ⟨List.replicate 4096 7, fun _ _ => none⟩
  filename := "disk.vmdk"
  grainTable := AList.singleton 0 2
  grainSize := 4
  hasCompressedGrain := false
  zeroedGrainTableEntry := true
  startSector := 3

theorem overhangingStorage_inWords :
    ∀ g ∈ overhangingStorage.grainTable.keys,
      Extent.GrainInWords overhangingStorage.startSector
        (overhangingStorage.startSector + 2) overhangingStorage.grainSize g := by
  intro g hg
  have hkeys : overhangingStorage.grainTable.keys = [0] := rfl
  rw [hkeys] at hg
  obtain rfl := List.mem_singleton.mp hg
  exact ⟨by decide, fun _ => by decide⟩

theorem sparse_spans_agree_overhanging :
    ∃ list, (Extent.spans .dev
        ⟨overhangingStorage.startSector, 2, .sparse overhangingStorage⟩ :
          Outcome Empty (List (ℕ × ℕ))) = .ok list ∧
      list.Pairwise Extent.Apart ∧
      (∀ span ∈ list, overhangingStorage.startSector ≤ span.1 ∧
        span.1 < span.2 ∧ span.2 ≤ overhangingStorage.startSector + 2) ∧
      (∀ s, (∃ span ∈ list, span.1 ≤ s ∧ s < span.2) ↔
        overhangingStorage.startSector ≤ s ∧
          s < overhangingStorage.startSector + 2 ∧
          (s - overhangingStorage.startSector) /
            overhangingStorage.grainSize ∈
              overhangingStorage.grainTable.keys) ∧
      ∀ span ∈ list, ∀ offset want, span.1 * SECTOR_SIZE ≤ offset →
        0 < want → offset + want ≤ span.2 * SECTOR_SIZE →
        ∃ sectorNum,
          overhangingStorage.grainTable.lookup
            (overhangingStorage.grainIndex offset) = some sectorNum ∧
          overhangingStorage.grainPos offset + want ≤
            overhangingStorage.grainBytes ∧
          (overhangingStorage.ReadInWords offset sectorNum →
            overhangingStorage.GrainRead sectorNum
              (overhangingStorage.grainPos offset) want
              (overhangingStorage.read .dev emptyInflater offset want)) :=
  sparse_spans_agree .dev emptyInflater overhangingStorage 2 (by decide)
    (by decide) overhangingStorage_inWords

end SparseStorage

end Vmdk
end ImageReader
