import ImageReader.VmdkStorage

/-!
# Extents

An extent is a run of sectors of the image together with its storage.  The
sectors it really has are the ones `Extent.spans` lists: all of them for flat
and zero storage, and the sectors of the grains in the table, cut at the
extent's end, for sparse storage.

An `ImageExtents` is the list which one image of a chain contributes.  Its
fields say what every such list satisfies by construction: the extents are
laid end to end, a storage knows where its extent starts, and a grain table
describes at most as many bytes as its header check admits.
-/

namespace ImageReader
namespace Vmdk

variable {ε : Type}

structure Extent where
  startSector : ℕ
  sectors : ℕ
  storage : ExtentStorage

namespace Extent

/-- The span of one grain, unless it lies past the extent. -/
def grainSpan (build : Build) (startSector extentEnd grainSize goff : ℕ) :
    Outcome ε (Option (ℕ × ℕ)) := do
  let rel ← build.mul goff grainSize
  let beg ← build.add startSector rel
  if extentEnd ≤ beg then pure none
  else
    let grainEnd ← build.add beg grainSize
    pure (some (beg, min grainEnd extentEnd))

def grainSpans (build : Build) (startSector extentEnd grainSize : ℕ) :
    List ℕ → Outcome ε (List (ℕ × ℕ))
  | [] => .ok []
  | goff :: rest => do
      let span ← grainSpan build startSector extentEnd grainSize goff
      let spans ← grainSpans build startSector extentEnd grainSize rest
      pure (span.toList ++ spans)

def spans (build : Build) (ex : Extent) : Outcome ε (List (ℕ × ℕ)) :=
  match ex.storage with
  | .sparse storage => do
      let extentEnd ← build.add ex.startSector ex.sectors
      grainSpans build ex.startSector extentEnd storage.grainSize
        storage.grainTable.keys
  | .flat _ | .zero => do
      let extentEnd ← build.add ex.startSector ex.sectors
      pure [(ex.startSector, extentEnd)]

def hasFile (ex : Extent) : Bool :=
  match ex.storage with
  | .zero => false
  | .sparse _ | .flat _ => true

/-- Sector `s` lies in one of the extent's spans. -/
def SpansSector (build : Build) (ex : Extent) (s : ℕ) : Prop :=
  ∃ list, (ex.spans build : Outcome Empty (List (ℕ × ℕ))) = .ok list ∧
    ∃ span ∈ list, span.1 ≤ s ∧ s < span.2

/-- The byte which the extent holds at byte `offset` of the image. -/
def Delivers {δ : Type} (build : Build) (inflater : Inflater δ) (ex : Extent)
    (offset : ℕ) (b : UInt8) : Prop :=
  let offsetInExtent := offset - ex.startSector * SECTOR_SIZE
  match ex.storage with
  | .sparse storage =>
      let grainSize := storage.grainSize * SECTOR_SIZE
      ∃ sectorNum,
        storage.grainTable.lookup (offsetInExtent / grainSize) =
          some sectorNum ∧
        GrainByte build inflater storage sectorNum
          (offsetInExtent / grainSize) grainSize
          (offsetInExtent % grainSize) b
  | .flat storage =>
      storage.source.content[offsetInExtent +
        storage.offset * SECTOR_SIZE]? = some b
  | .zero => b = 0

/-- The file position of every byte of the extent is a word. -/
def PositionsExact (ex : Extent) : Prop :=
  ∀ offset, ex.startSector * SECTOR_SIZE ≤ offset →
    offset < (ex.startSector + ex.sectors) * SECTOR_SIZE →
    let offsetInExtent := offset - ex.startSector * SECTOR_SIZE
    match ex.storage with
    | .sparse storage =>
        let grainSize := storage.grainSize * SECTOR_SIZE
        ∀ sectorNum,
          storage.grainTable.lookup (offsetInExtent / grainSize) =
            some sectorNum →
          sectorNum * SECTOR_SIZE + offsetInExtent % grainSize < wordLimit
    | .flat storage =>
        offsetInExtent + storage.offset * SECTOR_SIZE < wordLimit
    | .zero => True

/-! ## Extents as the open code builds them -/

/-- The largest image a sparse header may describe, in bytes. -/
def sparseSizeLimit : ℕ := 2 ^ 46

theorem sparseSizeLimit_eq : sparseSizeLimit = 70368744177664 := rfl

/-- What holds of every extent that has been read: its storage is rebased to
its own start, grains are not empty, and the grains of its table fit under the
size limit of the sparse headers. -/
structure Regular (ex : Extent) : Prop where
  flatStart : ∀ storage, ex.storage = .flat storage →
    storage.startSector = ex.startSector
  sparseStart : ∀ storage, ex.storage = .sparse storage →
    storage.startSector = ex.startSector
  grainSize_pos : ∀ storage, ex.storage = .sparse storage →
    0 < storage.grainSize
  grain_le : ∀ storage, ex.storage = .sparse storage →
    ∀ g ∈ storage.grainTable.keys,
      (g + 1) * storage.grainSize * SECTOR_SIZE ≤ sparseSizeLimit

/-- The sectors an extent has, without reference to its span list. -/
def HasSector (ex : Extent) (s : ℕ) : Prop :=
  ex.startSector ≤ s ∧ s < ex.startSector + ex.sectors ∧
    ∀ storage, ex.storage = .sparse storage →
      (s - ex.startSector) / storage.grainSize ∈ storage.grainTable.keys

/-- What `spans` returns: intervals inside the extent which hold exactly its
sectors. -/
structure SpanList (ex : Extent) (list : List (ℕ × ℕ)) : Prop where
  ordered : ∀ span ∈ list, span.1 ≤ span.2
  within : ∀ span ∈ list, span.2 ≤ ex.startSector + ex.sectors
  mem_iff : ∀ s, (∃ span ∈ list, span.1 ≤ s ∧ s < span.2) ↔ ex.HasSector s

section Spans

variable {build : Build} {ex : Extent}

/-- The words computed for the span of grain `g` do not overflow. -/
def GrainInWords (startSector extentEnd grainSize g : ℕ) : Prop :=
  startSector + g * grainSize < wordLimit ∧
    (startSector + g * grainSize < extentEnd →
      startSector + g * grainSize + grainSize < wordLimit)

/-- The sectors of grain `g` in front of the extent's end, if there are
any. -/
def clampedGrain (startSector extentEnd grainSize g : ℕ) : Option (ℕ × ℕ) :=
  if extentEnd ≤ startSector + g * grainSize then none
  else some (startSector + g * grainSize,
    min (startSector + g * grainSize + grainSize) extentEnd)

theorem grainSpan_eq (build : Build) {startSector extentEnd grainSize g : ℕ}
    (hwords : GrainInWords startSector extentEnd grainSize g) :
    (grainSpan build startSector extentEnd grainSize g :
        Outcome ε (Option (ℕ × ℕ))) =
      .ok (clampedGrain startSector extentEnd grainSize g) := by
  obtain ⟨hbeg, hgrain⟩ := hwords
  unfold grainSpan clampedGrain
  rw [Build.mul_of_lt (by omega), Outcome.ok_bind, Build.add_of_lt hbeg,
    Outcome.ok_bind]
  split_ifs with hpast
  · rfl
  · rw [Build.add_of_lt (hgrain (by omega))]
    rfl

theorem grainSpans_eq (build : Build) {startSector extentEnd grainSize : ℕ}
    (goffs : List ℕ)
    (hwords : ∀ g ∈ goffs,
      GrainInWords startSector extentEnd grainSize g) :
    (grainSpans build startSector extentEnd grainSize goffs :
        Outcome ε (List (ℕ × ℕ))) =
      .ok (goffs.filterMap (clampedGrain startSector extentEnd grainSize)) := by
  induction goffs with
  | nil => rfl
  | cons g rest ih =>
      unfold grainSpans
      rw [grainSpan_eq build (hwords g List.mem_cons_self), Outcome.ok_bind,
        ih fun g' hg' => hwords g' (List.mem_cons_of_mem _ hg'),
        Outcome.ok_bind, List.filterMap_cons]
      cases clampedGrain startSector extentEnd grainSize g <;> rfl

theorem bounds_of_clampedGrain {startSector extentEnd grainSize g : ℕ}
    {span : ℕ × ℕ} (hpos : 0 < grainSize)
    (h : clampedGrain startSector extentEnd grainSize g = some span) :
    span.1 = startSector + g * grainSize ∧ span.1 < span.2 ∧
      span.2 ≤ startSector + g * grainSize + grainSize ∧
      span.2 ≤ extentEnd := by
  unfold clampedGrain at h
  split_ifs at h
  obtain rfl := Option.some.inj h
  refine ⟨rfl, ?_, Nat.min_le_left _ _, Nat.min_le_right _ _⟩
  simp only
  omega

theorem in_clampedGrain_iff {startSector extentEnd grainSize g : ℕ}
    (hpos : 0 < grainSize) (s : ℕ) :
    (∃ span, clampedGrain startSector extentEnd grainSize g = some span ∧
        span.1 ≤ s ∧ s < span.2) ↔
      startSector ≤ s ∧ s < extentEnd ∧ (s - startSector) / grainSize = g := by
  constructor
  · rintro ⟨span, hspan, hlow, hhigh⟩
    obtain ⟨hbeg, -, hgrain, hend⟩ := bounds_of_clampedGrain hpos hspan
    refine ⟨by omega, by omega, ?_⟩
    rw [Nat.div_eq_iff hpos]
    omega
  · rintro ⟨hstart, hend, hgrain⟩
    rw [Nat.div_eq_iff hpos] at hgrain
    refine ⟨_, if_neg (by omega), ?_⟩
    simp only
    omega

/-- The clamped grains hold the sectors whose grain index is listed. -/
theorem in_clampedGrains_iff {startSector extentEnd grainSize : ℕ}
    (hpos : 0 < grainSize) (goffs : List ℕ) (s : ℕ) :
    (∃ span ∈ goffs.filterMap (clampedGrain startSector extentEnd grainSize),
        span.1 ≤ s ∧ s < span.2) ↔
      startSector ≤ s ∧ s < extentEnd ∧
        (s - startSector) / grainSize ∈ goffs := by
  simp only [List.mem_filterMap]
  constructor
  · rintro ⟨span, ⟨g, hg, hspan⟩, hin⟩
    obtain ⟨hstart, hend, rfl⟩ :=
      (in_clampedGrain_iff hpos s).mp ⟨span, hspan, hin⟩
    exact ⟨hstart, hend, hg⟩
  · rintro ⟨hstart, hend, hg⟩
    obtain ⟨span, hspan, hin⟩ :=
      (in_clampedGrain_iff hpos s).mpr ⟨hstart, hend, rfl⟩
    exact ⟨span, ⟨_, hg, hspan⟩, hin⟩

theorem grainSpans_spec (build : Build) {startSector : ℕ} (extentEnd : ℕ)
    {grainSize : ℕ}
    (hpos : 0 < grainSize) (goffs : List ℕ)
    (hexact : ∀ g ∈ goffs, startSector + (g + 1) * grainSize < wordLimit) :
    ∃ list, (grainSpans build startSector extentEnd grainSize goffs :
        Outcome ε (List (ℕ × ℕ))) = .ok list ∧
      (∀ span ∈ list, span.1 < span.2 ∧ span.2 ≤ extentEnd) ∧
      ∀ s, (∃ span ∈ list, span.1 ≤ s ∧ s < span.2) ↔
        startSector ≤ s ∧ s < extentEnd ∧
          (s - startSector) / grainSize ∈ goffs := by
  have hwords : ∀ g ∈ goffs,
      GrainInWords startSector extentEnd grainSize g := by
    intro g hg
    have hlt := hexact g hg
    rw [Nat.add_mul, Nat.one_mul] at hlt
    exact ⟨by omega, fun _ => by omega⟩
  refine ⟨_, grainSpans_eq build goffs hwords, ?_,
    in_clampedGrains_iff hpos goffs⟩
  intro span hspan
  obtain ⟨g, -, hg⟩ := List.mem_filterMap.mp hspan
  obtain ⟨-, hlt, -, hle⟩ := bounds_of_clampedGrain hpos hg
  exact ⟨hlt, hle⟩

/-- The grains of an extent end below the largest word. -/
theorem Regular.grain_lt (hregular : ex.Regular)
    (hend : (ex.startSector + ex.sectors) * 512 < wordLimit)
    {storage : SparseStorage} (hstorage : ex.storage = .sparse storage) :
    ∀ g ∈ storage.grainTable.keys,
      ex.startSector + (g + 1) * storage.grainSize < wordLimit := by
  intro g hg
  have hle := hregular.grain_le storage hstorage g hg
  rw [sectorSize_eq, sparseSizeLimit_eq] at hle
  rw [wordLimit_eq] at hend ⊢
  omega

theorem spans_spec (build : Build) (hregular : ex.Regular)
    (hend : (ex.startSector + ex.sectors) * SECTOR_SIZE < wordLimit) :
    ∃ list, (ex.spans build : Outcome ε (List (ℕ × ℕ))) = .ok list ∧
      ex.SpanList list := by
  rw [sectorSize_eq] at hend
  have hadd : (build.add ex.startSector ex.sectors : Outcome ε ℕ) =
      .ok (ex.startSector + ex.sectors) := Build.add_of_lt (by omega)
  unfold spans
  cases hstorage : ex.storage with
  | sparse storage =>
      simp only
      rw [hadd, Outcome.ok_bind]
      have hpos := hregular.grainSize_pos storage hstorage
      obtain ⟨list, hlist, hbounds, hmem⟩ :=
        grainSpans_spec (ε := ε) build (ex.startSector + ex.sectors) hpos
          storage.grainTable.keys (hregular.grain_lt hend hstorage)
      refine ⟨list, hlist, {
        ordered := fun span hspan => (hbounds span hspan).1.le
        within := fun span hspan => (hbounds span hspan).2
        mem_iff := ?_ }⟩
      intro s
      rw [hmem s]
      unfold HasSector
      simp [hstorage]
  | flat storage =>
      simp only
      rw [hadd, Outcome.ok_bind]
      exact ⟨_, rfl, by simp, by simp, by simp [HasSector, hstorage]⟩
  | zero =>
      simp only
      rw [hadd, Outcome.ok_bind]
      exact ⟨_, rfl, by simp, by simp, by simp [HasSector, hstorage]⟩

theorem spansSector_iff (hregular : ex.Regular)
    (hend : (ex.startSector + ex.sectors) * SECTOR_SIZE < wordLimit) (s : ℕ) :
    ex.SpansSector build s ↔ ex.HasSector s := by
  obtain ⟨list, hlist, hspans⟩ :=
    spans_spec (ε := Empty) build hregular hend
  rw [← hspans.mem_iff s]
  unfold SpansSector
  rw [hlist]
  simp

end Spans

/-! ## Reading inside an extent -/

/-- The outcome of reading an extent at byte `offset`, where at least one and
at most `want` bytes are delivered. -/
def ReadsAt {δ : Type} (build : Build) (inflater : Inflater δ) (ex : Extent)
    (offset want : ℕ) : Outcome ReadError Bytes → Prop
  | .ok out => 0 < out.length ∧ out.length ≤ want ∧
      (ex.PositionsExact → ∀ i b, out[i]? = some b →
        ex.Delivers build inflater (offset + i) b)
  | .error e => ∃ err, e = .ioError err ∧ err.FromBacking
  | .panic fault => ¬ ex.PositionsExact ∧
      (fault = .addOverflow ∨ fault = .mulOverflow)
  | .hang => False

section Reading

variable {δ : Type} {build : Build} {inflater : Inflater δ} {ex : Extent}
  {offset want : ℕ}

theorem readsAt_of_reads {r : ℕ} {exact : Prop} {good : ℕ → UInt8 → Prop}
    {outcome : Outcome IoError Bytes} (h : Reads r exact good outcome)
    (hpos : 0 < r) (hle : r ≤ want) (hexact : ex.PositionsExact → exact)
    (hgood : ∀ i b, i < r → good i b →
      ex.Delivers build inflater (offset + i) b) :
    ex.ReadsAt build inflater offset want (outcome.mapError .ioError) := by
  cases outcome with
  | ok out =>
      obtain ⟨hlen, hbytes⟩ := h
      refine ⟨by omega, by omega, ?_⟩
      intro hpositions i b hb
      have hi := (List.getElem?_eq_some_iff.mp hb).1
      exact hgood i b (by omega) (hbytes (hexact hpositions) i b hb)
  | error e => exact ⟨e, rfl, h⟩
  | panic fault => exact ⟨fun hpositions => h.1 (hexact hpositions), h.2⟩
  | hang => exact h

/-- A position and its distance to the next multiple of `size`: moving on by
less than that distance stays in the same multiple. -/
theorem div_mod_add (a i size : ℕ) (hi : i < size - a % size) :
    (a + i) / size = a / size ∧ (a + i) % size = a % size + i := by
  have hsum : a + i = a % size + i + a / size * size := by
    have := Nat.mod_add_div a size
    rw [Nat.mul_comm] at this
    omega
  constructor
  · rw [hsum, Nat.add_mul_div_right _ _ (by omega),
      Nat.div_eq_of_lt (by omega)]
    simp
  · rw [hsum, Nat.add_mul_mod_self_right, Nat.mod_eq_of_lt (by omega)]

theorem sparse_read_spec {storage : SparseStorage} (hregular : ex.Regular)
    (hstorage : ex.storage = .sparse storage)
    (hbeg : ex.startSector * SECTOR_SIZE ≤ offset)
    (hlt : offset < (ex.startSector + ex.sectors) * SECTOR_SIZE)
    (hoffset : offset < wordLimit) (hwant : 0 < want)
    (hkey : (offset / SECTOR_SIZE - ex.startSector) / storage.grainSize ∈
      storage.grainTable.keys) :
    ex.ReadsAt build inflater offset want
      ((storage.read build inflater offset want).mapError .ioError) := by
  have hrebased := hregular.sparseStart storage hstorage
  have hpos := hregular.grainSize_pos storage hstorage
  -- the grain of the sector is the grain of the byte
  have hindex : (offset - ex.startSector * SECTOR_SIZE) /
      (storage.grainSize * SECTOR_SIZE) =
        (offset / SECTOR_SIZE - ex.startSector) / storage.grainSize := by
    rw [Nat.mul_comm storage.grainSize, ← Nat.div_div_eq_div_mul,
      sectorSize_eq]
    congr 1
    omega
  rw [← hindex] at hkey
  have hcap := hregular.grain_le storage hstorage _ hkey
  obtain ⟨sectorNum, hlookup⟩ : ∃ sectorNum,
      storage.grainTable.lookup ((offset - ex.startSector * SECTOR_SIZE) /
        (storage.grainSize * SECTOR_SIZE)) = some sectorNum :=
    Option.isSome_iff_exists.mp
      (AList.lookup_isSome.mpr (AList.mem_keys.mpr hkey))
  have hsize : 2 * (storage.grainSize * SECTOR_SIZE) < wordLimit := by
    rw [Nat.mul_assoc, sparseSizeLimit_eq] at hcap
    have hone := Nat.le_mul_of_pos_left (storage.grainSize * SECTOR_SIZE)
      (Nat.succ_pos ((offset - ex.startSector * SECTOR_SIZE) /
        (storage.grainSize * SECTOR_SIZE)))
    have hle := hone.trans hcap
    rw [wordLimit_eq]
    omega
  have hbytes : 0 < storage.grainSize * SECTOR_SIZE := by
    rw [sectorSize_eq]
    omega
  have hmod := Nat.mod_lt (offset - ex.startSector * SECTOR_SIZE) hbytes
  have hspec := SparseStorage.read_spec build inflater storage
    offset want hpos hsize (by rw [hrebased]; exact hbeg) hoffset
    (by rw [hrebased]; exact hlookup)
  rw [hrebased] at hspec
  refine readsAt_of_reads hspec (by omega) (Nat.min_le_right _ _) ?_ ?_
  · intro hpositions
    have := hpositions offset hbeg hlt
    simp only [hstorage] at this
    exact this sectorNum hlookup
  · intro i b hi hb
    obtain ⟨hdiv, hmodi⟩ := div_mod_add
      (offset - ex.startSector * SECTOR_SIZE) i
      (storage.grainSize * SECTOR_SIZE) (by omega)
    have hmove : offset + i - ex.startSector * SECTOR_SIZE =
        offset - ex.startSector * SECTOR_SIZE + i := by omega
    unfold Delivers
    simp only [hstorage]
    rw [hmove, hdiv, hmodi]
    exact ⟨sectorNum, hlookup, hb⟩

theorem flat_read_spec {storage : FlatStorage} (hregular : ex.Regular)
    (hstorage : ex.storage = .flat storage)
    (hbeg : ex.startSector * SECTOR_SIZE ≤ offset)
    (hlt : offset < (ex.startSector + ex.sectors) * SECTOR_SIZE)
    (hoffset : offset < wordLimit) (hwant : 0 < want) :
    ex.ReadsAt build inflater offset want
      ((storage.read build offset want).mapError .ioError) := by
  have hrebased := hregular.flatStart storage hstorage
  have hspec := FlatStorage.read_spec build storage offset want
    (by rw [hrebased]; exact hbeg) hoffset
  rw [hrebased] at hspec
  refine readsAt_of_reads hspec hwant le_rfl ?_ ?_
  · intro hpositions
    have := hpositions offset hbeg hlt
    simpa only [hstorage] using this
  · intro i b _ hb
    unfold Delivers
    simp only [hstorage]
    rw [← hb]
    congr 1
    omega

theorem read_spec (hregular : ex.Regular)
    (hend : (ex.startSector + ex.sectors) * SECTOR_SIZE < wordLimit)
    (hsector : ex.HasSector (offset / SECTOR_SIZE)) (hwant : 0 < want)
    (hfits : offset + want ≤ (ex.startSector + ex.sectors) * SECTOR_SIZE) :
    ex.ReadsAt build inflater offset want
      (ex.storage.read build inflater offset want) := by
  obtain ⟨hstart, hstop, hgrain⟩ := hsector
  have hbeg : ex.startSector * SECTOR_SIZE ≤ offset := by
    rw [sectorSize_eq] at *
    omega
  have hlt : offset < (ex.startSector + ex.sectors) * SECTOR_SIZE := by omega
  unfold ExtentStorage.read
  cases hstorage : ex.storage with
  | sparse storage =>
      exact sparse_read_spec hregular hstorage hbeg hlt (by omega) hwant
        (hgrain storage hstorage)
  | flat storage =>
      exact flat_read_spec hregular hstorage hbeg hlt (by omega) hwant
  | zero =>
      refine ⟨by simpa using hwant, by simp, ?_⟩
      intro _ i b hb
      unfold Delivers
      simp only [hstorage]
      exact List.eq_of_mem_replicate (List.mem_of_getElem? hb)

end Reading

end Extent

end Vmdk
end ImageReader
