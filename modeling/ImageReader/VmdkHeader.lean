import ImageReader.FileCursor
import ImageReader.VmdkErrors
import ImageReader.VmdkStorage

/-!
# Headers of sparse extent files

A sparse extent is one of three kinds of file: COWD (`Vmdk3Header`), VMDK4
with an optional secondary header near its end, and SESPARSE.  A header is
read field by field and then converted to the numbers which the grain tables
are read with; the conversion refuses headers which describe more than the
kind supports.
-/

namespace ImageReader
namespace Vmdk

/-- `checked_product(vals)` -/
def checkedProduct (vals : List ℕ) : Option ℕ := vals.foldlM checkedMul 1

/-- `checked_product(vals).is_none_or(|size| size > limit)` -/
def productExceeds (vals : List ℕ) (limit : ℕ) : Bool :=
  match checkedProduct vals with
  | none => true
  | some size => decide (limit < size)

/-! ## The fields of the headers -/

structure Vmdk3Header where
  magic : Bytes
  version : UInt32
  flags : UInt32
  diskSectors : UInt32
  granularity : UInt32
  l1dirOffset : UInt32
  l1dirSize : UInt32
  fileSectors : UInt32
  cylinders : UInt32
  heads : UInt32
  sectorsPerTrack : UInt32

def Vmdk3Header.fromReader : CursorM Vmdk3Header := do
  let magic ← .bytes 4
  let version ← .u32
  let flags ← .u32
  let diskSectors ← .u32
  let granularity ← .u32
  let l1dirOffset ← .u32
  let l1dirSize ← .u32
  let fileSectors ← .u32
  let cylinders ← .u32
  let heads ← .u32
  let sectorsPerTrack ← .u32
  return { magic, version, flags, diskSectors, granularity, l1dirOffset,
           l1dirSize, fileSectors, cylinders, heads, sectorsPerTrack }

structure Vmdk4Header where
  magic : Bytes
  version : UInt32
  flags : UInt32
  capacity : UInt64
  granularity : UInt64
  descOffset : UInt64
  descSize : UInt64
  numGtesPerGt : UInt32
  rgdOffset : UInt64
  gdOffset : UInt64
  grainOffset : UInt64
  filler : UInt8
  checkBytes : Bytes
  compressAlgorithm : UInt16

def Vmdk4Header.fromReader : CursorM Vmdk4Header := do
  let magic ← .bytes 4
  let version ← .u32
  let flags ← .u32
  let capacity ← .u64
  let granularity ← .u64
  let descOffset ← .u64
  let descSize ← .u64
  let numGtesPerGt ← .u32
  let rgdOffset ← .u64
  let gdOffset ← .u64
  let grainOffset ← .u64
  let filler ← .u8
  let checkBytes ← .bytes 4
  let compressAlgorithm ← .u16
  return { magic, version, flags, capacity, granularity, descOffset, descSize,
           numGtesPerGt, rgdOffset, gdOffset, grainOffset, filler, checkBytes,
           compressAlgorithm }

theorem Vmdk4Header.takes_fromReader : Vmdk4Header.fromReader.Takes 79 :=
  (CursorM.takes_bytes 4).bind fun _ => CursorM.takes_u32.bind fun _ =>
    CursorM.takes_u32.bind fun _ => CursorM.takes_u64.bind fun _ =>
    CursorM.takes_u64.bind fun _ => CursorM.takes_u64.bind fun _ =>
    CursorM.takes_u64.bind fun _ => CursorM.takes_u32.bind fun _ =>
    CursorM.takes_u64.bind fun _ => CursorM.takes_u64.bind fun _ =>
    CursorM.takes_u64.bind fun _ => CursorM.takes_u8.bind fun _ =>
    (CursorM.takes_bytes 4).bind fun _ => CursorM.takes_u16.bind fun _ =>
    CursorM.takes_pure _

/-- `desc_offset` is the eight bytes from the 28th on. -/
theorem Vmdk4Header.descOffset_eq {file : BackingFile} {pos : ℕ}
    {h : Vmdk4Header} (hread : Vmdk4Header.fromReader.readAt file pos = .ok h) :
    h.descOffset.toNat = fromLE (Slice.window file.content (pos + 28) 8) := by
  obtain ⟨_, hread⟩ := CursorM.readAt_eq_ok.mp hread
  unfold Vmdk4Header.fromReader at hread
  obtain ⟨_, _, hmagic, hread⟩ := CursorM.bind_eq_ok.mp hread
  obtain ⟨_, _, hversion, hread⟩ := CursorM.bind_eq_ok.mp hread
  obtain ⟨_, _, hflags, hread⟩ := CursorM.bind_eq_ok.mp hread
  obtain ⟨_, _, hcapacity, hread⟩ := CursorM.bind_eq_ok.mp hread
  obtain ⟨_, _, hgranularity, hread⟩ := CursorM.bind_eq_ok.mp hread
  obtain ⟨descOffset, _, hdesc, hread⟩ := CursorM.bind_eq_ok.mp hread
  have hkept : h.descOffset = descOffset := by
    repeat obtain ⟨_, _, _, hread⟩ := CursorM.bind_eq_ok.mp hread
    obtain ⟨rfl, _⟩ := Prod.mk.inj (Except.ok.inj hread)
    rfl
  obtain rfl := (CursorM.takes_bytes 4).moves hmagic
  obtain rfl := CursorM.takes_u32.moves hversion
  obtain rfl := CursorM.takes_u32.moves hflags
  obtain rfl := CursorM.takes_u64.moves hcapacity
  obtain rfl := CursorM.takes_u64.moves hgranularity
  rw [hkept, CursorM.u64_eq_ok hdesc]

/-- The grain directory is said to be at the end of a compressed file, where a
secondary header has its offset. -/
def Vmdk4Header.useSecondary (h : Vmdk4Header) : Bool :=
  h.gdOffset == 0xFFFFFFFFFFFFFFFF && h.compressAlgorithm == 1

structure VmdkSeSparseConstHeader where
  magic : Bytes
  version : UInt64
  capacity : UInt64
  grainSize : UInt64
  grainTableSize : UInt64
  flags : UInt64
  reserved1 : UInt64
  reserved2 : UInt64
  reserved3 : UInt64
  reserved4 : UInt64
  volatileHeaderOffset : UInt64
  volatileHeaderSize : UInt64
  journalHeaderOffset : UInt64
  journalHeaderSize : UInt64
  journalOffset : UInt64
  journalSize : UInt64
  grainDirOffset : UInt64
  grainDirSize : UInt64
  grainTablesOffset : UInt64
  grainTablesSize : UInt64
  freeBitmapOffset : UInt64
  freeBitmapSize : UInt64
  backmapOffset : UInt64
  backmapSize : UInt64
  grainsOffset : UInt64
  grainsSize : UInt64

def VmdkSeSparseConstHeader.fromReader : CursorM VmdkSeSparseConstHeader := do
  let magic ← .bytes 8
  let version ← .u64
  let capacity ← .u64
  let grainSize ← .u64
  let grainTableSize ← .u64
  let flags ← .u64
  let reserved1 ← .u64
  let reserved2 ← .u64
  let reserved3 ← .u64
  let reserved4 ← .u64
  let volatileHeaderOffset ← .u64
  let volatileHeaderSize ← .u64
  let journalHeaderOffset ← .u64
  let journalHeaderSize ← .u64
  let journalOffset ← .u64
  let journalSize ← .u64
  let grainDirOffset ← .u64
  let grainDirSize ← .u64
  let grainTablesOffset ← .u64
  let grainTablesSize ← .u64
  let freeBitmapOffset ← .u64
  let freeBitmapSize ← .u64
  let backmapOffset ← .u64
  let backmapSize ← .u64
  let grainsOffset ← .u64
  let grainsSize ← .u64
  return { magic, version, capacity, grainSize, grainTableSize, flags,
           reserved1, reserved2, reserved3, reserved4, volatileHeaderOffset,
           volatileHeaderSize, journalHeaderOffset, journalHeaderSize,
           journalOffset, journalSize, grainDirOffset, grainDirSize,
           grainTablesOffset, grainTablesSize, freeBitmapOffset,
           freeBitmapSize, backmapOffset, backmapSize, grainsOffset,
           grainsSize }

/-! ## Conversion -/

structure VmdkSparseMeta where
  compressed : Bool
  hasZeroGrain : Bool
  /-- total number of sectors -/
  sectors : ℕ
  /-- offset of level 1 in bytes -/
  l1Offset : ℕ
  /-- number of level 1 entries -/
  l1Len : ℕ
  /-- number of entries of a level 2 table -/
  l2Len : ℕ
  /-- number of sectors of a level 2 entry -/
  clusterSectors : ℕ
  deriving DecidableEq, Repr

/-- The size of what the tables can describe, in four factors. -/
def VmdkSparseMeta.sizeFactors (m : VmdkSparseMeta) : List ℕ :=
  [m.l1Len, m.l2Len, m.clusterSectors, SECTOR_SIZE]

def Vmdk3Header.toMeta (build : Build) (h : Vmdk3Header) :
    Outcome OpenErrorKind VmdkSparseMeta := do
  let l1Offset ← build.mul h.l1dirOffset.toNat SECTOR_SIZE
  let m : VmdkSparseMeta := {
    compressed := false
    hasZeroGrain := false
    sectors := h.diskSectors.toNat
    l1Offset
    l1Len := h.l1dirSize.toNat
    l2Len := 4096
    clusterSectors := h.granularity.toNat }
  if productExceeds m.sizeFactors (2 ^ 41) then .error .invalidFileHeader
  else pure m

/-- The grain directory which the flags select, in sectors. -/
def Vmdk4Header.directory (h : Vmdk4Header) : UInt64 :=
  if h.flags &&& 0x02 ≠ 0 then h.rgdOffset else h.gdOffset

/-- The fields a VMDK4 header is refused for before anything is computed. -/
def Vmdk4Header.fieldsOk (h : Vmdk4Header) : Bool :=
  !(3 < h.version || h.numGtesPerGt == 0 || 512 < h.numGtesPerGt ||
    h.granularity == 0)

def Vmdk4Header.toMeta (build : Build) (h : Vmdk4Header) :
    Outcome OpenErrorKind VmdkSparseMeta :=
  if h.fieldsOk = false then .error .invalidFileHeader
  else do
    let l1Offset ← build.mul h.directory.toNat SECTOR_SIZE
    match checkedMul h.numGtesPerGt.toNat h.granularity.toNat with
    | none => .error .invalidFileHeader
    | some sectorsPerL1Entry =>
        let l1Len ← Build.divCeil h.capacity.toNat sectorsPerL1Entry
        let m : VmdkSparseMeta := {
          compressed := h.flags &&& 0x10000 ≠ 0
          hasZeroGrain := h.flags &&& 0x04 ≠ 0
          sectors := h.capacity.toNat
          l1Offset
          l1Len
          l2Len := h.numGtesPerGt.toNat
          clusterSectors := h.granularity.toNat }
        if productExceeds m.sizeFactors (2 ^ 41) then
          .error .invalidFileHeader
        else pure m

structure VmdkSeSparseMeta where
  /-- total number of sectors -/
  sectors : ℕ
  /-- offset of level 1 in bytes -/
  l1Offset : ℕ
  /-- number of level 1 entries -/
  l1Len : ℕ
  /-- offset of the level 2 tables in bytes -/
  l2TablesOffset : ℕ
  /-- number of entries of a level 2 table -/
  l2Len : ℕ
  /-- number of sectors of a level 2 entry -/
  clusterSectors : ℕ
  /-- offset of the grains in sectors -/
  clustersOffset : ℕ
  deriving DecidableEq, Repr

def VmdkSeSparseMeta.sizeFactors (m : VmdkSeSparseMeta) : List ℕ :=
  [m.l1Len, m.l2Len, m.clusterSectors, SECTOR_SIZE]

/-- The fields of a SESPARSE header which have one supported value. -/
def VmdkSeSparseConstHeader.fieldsOk (h : VmdkSeSparseConstHeader) : Bool :=
  h.version == 0x0000000200000001 && h.grainSize == 8 &&
    h.grainTableSize == 64 && h.flags == 0 && h.reserved1 == 0 &&
    h.reserved2 == 0 && h.reserved3 == 0 && h.reserved4 == 0

def VmdkSeSparseConstHeader.toMeta (build : Build)
    (h : VmdkSeSparseConstHeader) : Outcome OpenErrorKind VmdkSeSparseMeta :=
  if h.fieldsOk = false then .error .invalidFileHeader
  else
    match checkedMul h.grainDirSize.toNat SECTOR_SIZE with
    | none => .error .invalidFileHeader
    | some l1Size => do
        let l1Len ← Build.div l1Size 8
        let l1Offset ← build.mul h.grainDirOffset.toNat SECTOR_SIZE
        let l2TablesOffset ← build.mul h.grainTablesOffset.toNat SECTOR_SIZE
        let l2Size ← build.mul h.grainTableSize.toNat SECTOR_SIZE
        let l2Len ← Build.div l2Size 8
        let m : VmdkSeSparseMeta := {
          sectors := h.capacity.toNat
          l1Offset
          l1Len
          l2TablesOffset
          l2Len
          clusterSectors := h.grainSize.toNat
          clustersOffset := h.grainsOffset.toNat }
        if productExceeds m.sizeFactors (2 ^ 46) then
          .error .invalidFileHeader
        else pure m

/-! ## Reading a header -/

def VMDK3_MAGIC : Bytes := [0x43, 0x4F, 0x57, 0x44]
def VMDK4_MAGIC : Bytes := [0x4B, 0x44, 0x4D, 0x56]
def VMDK_SESPARSE_MAGIC : Bytes :=
  [0xBE, 0xBA, 0xFE, 0xCA, 0x00, 0x00, 0x00, 0x00]

def signatureToFileType (sig : Bytes) : Option FileType :=
  if VMDK3_MAGIC <+: sig then some .vmdk3
  else if VMDK4_MAGIC <+: sig then some .vmdk4
  else if sig = VMDK_SESPARSE_MAGIC then some .vmdkSeSparse
  else none

/-- `check_signature(src)?` with the cursor at `pos` -/
def checkSignature (file : BackingFile) (pos : ℕ) :
    Outcome OpenErrorKind (Option FileType) :=
  (openIo ((file.readExact pos 8).map signatureToFileType)).mapError .ioError

/-- A header read at `pos`; an error names the header. -/
def deserialize {α : Type} (name : String) (header : CursorM α)
    (file : BackingFile) (pos : ℕ) : Outcome OpenErrorKind α :=
  (Outcome.ofExcept (header.readAt file pos)).mapError
    (.deserializationFailed name)

theorem deserialize_eq_ok {α : Type} {name : String} {header : CursorM α}
    {file : BackingFile} {pos : ℕ} {h : α} :
    deserialize name header file pos = .ok h ↔
      header.readAt file pos = .ok h := by
  unfold deserialize
  rw [Outcome.mapError_eq_ok, Outcome.ofExcept_eq_ok]

def readHeaderSparse (build : Build) (file : BackingFile) :
    Outcome OpenErrorKind VmdkSparseMeta := do
  match ← checkSignature file 0 with
  | some .vmdk3 =>
      let h ← deserialize "Vmdk3Header" Vmdk3Header.fromReader file 0
      h.toMeta build
  | some .vmdk4 =>
      let h ← deserialize "Vmdk4Header" Vmdk4Header.fromReader file 0
      if h.useSecondary then
        let pos ← (openIo (file.seekEnd 1024)).mapError .ioError
        let fileType ← checkSignature file pos
        if fileType ≠ some .vmdk4 then .error .invalidFileHeader
        else
          let h ← deserialize "Vmdk4Header" Vmdk4Header.fromReader file pos
          h.toMeta build
      else h.toMeta build
  | _ => .error .invalidFileHeader

def readHeaderSeSparse (build : Build) (file : BackingFile) :
    Outcome OpenErrorKind VmdkSeSparseMeta := do
  match ← checkSignature file 0 with
  | some .vmdkSeSparse =>
      let h ← deserialize "VmdkSeSparseConstHeader"
        VmdkSeSparseConstHeader.fromReader file 0
      h.toMeta build
  | _ => .error .invalidFileHeader

/-! ## What an accepted header says -/

theorem foldlM_checkedMul {vals : List ℕ} {acc p : ℕ}
    (h : vals.foldlM checkedMul acc = some p) : p = acc * vals.prod := by
  induction vals generalizing acc with
  | nil =>
      obtain rfl : acc = p := by simpa using h
      simp
  | cons v vals ih =>
      rw [List.foldlM_cons, Option.bind_eq_bind, Option.bind_eq_some_iff] at h
      obtain ⟨acc', hmul, hrest⟩ := h
      obtain ⟨_, rfl⟩ := checkedMul_eq_some.mp hmul
      rw [ih hrest, List.prod_cons, Nat.mul_assoc]

theorem prod_le_of_productExceeds {vals : List ℕ} {limit : ℕ}
    (h : productExceeds vals limit = false) : vals.prod ≤ limit := by
  unfold productExceeds checkedProduct at h
  cases hprod : vals.foldlM checkedMul 1 with
  | none => simp [hprod] at h
  | some p =>
      have hp := foldlM_checkedMul hprod
      rw [Nat.one_mul] at hp
      simpa [hprod, hp] using h

/-- The bounds which the conversions of the COWD and the VMDK4 header
leave. -/
structure VmdkSparseMeta.Bounded (m : VmdkSparseMeta) : Prop where
  size_le : m.l1Len * m.l2Len * m.clusterSectors * SECTOR_SIZE ≤ 2 ^ 41
  l2Len_pos : 0 < m.l2Len
  sectors_lt : m.sectors < wordLimit
  l1Offset_lt : m.l1Offset < wordLimit

theorem VmdkSparseMeta.size_le_of_factors {m : VmdkSparseMeta} {limit : ℕ}
    (h : productExceeds m.sizeFactors limit = false) :
    m.l1Len * m.l2Len * m.clusterSectors * SECTOR_SIZE ≤ limit := by
  have := prod_le_of_productExceeds h
  simpa [sizeFactors, Nat.mul_assoc] using this

section Conversion

variable {build : Build} {m : VmdkSparseMeta}

/-- The numbers a COWD header is converted to. -/
def Vmdk3Header.converted (h : Vmdk3Header) : VmdkSparseMeta where
  compressed := false
  hasZeroGrain := false
  sectors := h.diskSectors.toNat
  l1Offset := h.l1dirOffset.toNat * SECTOR_SIZE
  l1Len := h.l1dirSize.toNat
  l2Len := 4096
  clusterSectors := h.granularity.toNat

theorem Vmdk3Header.l1Offset_lt (h : Vmdk3Header) :
    h.l1dirOffset.toNat * SECTOR_SIZE < wordLimit := by
  have := h.l1dirOffset.toNat_lt
  rw [sectorSize_eq, wordLimit_eq]
  omega

/-- Nothing overflows in the conversion of a COWD header. -/
theorem Vmdk3Header.toMeta_eq (build : Build) (h : Vmdk3Header) :
    h.toMeta build =
      if productExceeds h.converted.sizeFactors (2 ^ 41) then
        .error .invalidFileHeader
      else .ok h.converted := by
  unfold Vmdk3Header.toMeta
  rw [Build.mul_of_lt h.l1Offset_lt, Outcome.ok_bind]
  rfl

theorem Vmdk3Header.toMeta_ok {h : Vmdk3Header} (hmeta : h.toMeta build = .ok m) :
    m.Bounded ∧ m = h.converted := by
  rw [h.toMeta_eq] at hmeta
  split_ifs at hmeta with hsize
  rw [Bool.not_eq_true] at hsize
  obtain rfl := Outcome.ok.inj hmeta
  have hsectors : h.converted.sectors < wordLimit := by
    have := h.diskSectors.toNat_lt
    rw [wordLimit_eq]
    simp only [converted]
    omega
  exact ⟨{
    size_le := VmdkSparseMeta.size_le_of_factors hsize
    l2Len_pos := by simp [converted]
    sectors_lt := hsectors
    l1Offset_lt := h.l1Offset_lt }, rfl⟩

/-- The numbers a VMDK4 header is converted to. -/
def Vmdk4Header.metaAt (h : Vmdk4Header) (l1Offset : ℕ) : VmdkSparseMeta where
  compressed := h.flags &&& 0x10000 ≠ 0
  hasZeroGrain := h.flags &&& 0x04 ≠ 0
  sectors := h.capacity.toNat
  l1Offset := l1Offset
  l1Len := (h.capacity.toNat +
    (h.numGtesPerGt.toNat * h.granularity.toNat - 1)) /
      (h.numGtesPerGt.toNat * h.granularity.toNat)
  l2Len := h.numGtesPerGt.toNat
  clusterSectors := h.granularity.toNat

theorem Vmdk4Header.pos_of_fieldsOk {h : Vmdk4Header} (hok : h.fieldsOk = true) :
    0 < h.numGtesPerGt.toNat ∧ 0 < h.granularity.toNat := by
  simp only [fieldsOk, Bool.not_eq_true', Bool.or_eq_false_iff,
    beq_eq_false_iff_ne, ne_eq] at hok
  have hgtes : h.numGtesPerGt.toNat ≠ 0 := by
    intro hzero
    exact hok.1.1.2 (UInt32.toNat_inj.mp hzero)
  have hgranularity : h.granularity.toNat ≠ 0 := by
    intro hzero
    exact hok.2 (UInt64.toNat_inj.mp hzero)
  omega

/-- The checks on the size of the disk, which does not depend on where the
directory is. -/
def Vmdk4Header.sizeOk (h : Vmdk4Header) : Bool :=
  (checkedMul h.numGtesPerGt.toNat h.granularity.toNat).isSome &&
    !productExceeds (h.metaAt 0).sizeFactors (2 ^ 41)

/-- Nothing is divided by zero in the conversion of a VMDK4 header, and only
the byte offset of the directory is computed unchecked. -/
theorem Vmdk4Header.toMeta_eq (build : Build) {h : Vmdk4Header}
    (hok : h.fieldsOk = true) :
    h.toMeta build = build.mul h.directory.toNat SECTOR_SIZE >>=
      fun l1Offset =>
        if h.sizeOk then .ok (h.metaAt l1Offset)
        else .error .invalidFileHeader := by
  obtain ⟨hgtes, hgranularity⟩ := pos_of_fieldsOk hok
  unfold Vmdk4Header.toMeta
  rw [if_neg (by simpa using hok)]
  congr 1
  funext l1Offset
  unfold sizeOk
  cases hprod : checkedMul h.numGtesPerGt.toNat h.granularity.toNat with
  | none => rfl
  | some sectorsPerL1Entry =>
      obtain ⟨_, rfl⟩ := checkedMul_eq_some.mp hprod
      simp only
      rw [Build.divCeil_of_pos (Nat.mul_pos hgtes hgranularity),
        Outcome.ok_bind]
      change (if productExceeds (h.metaAt 0).sizeFactors (2 ^ 41) = true then
        Outcome.error OpenErrorKind.invalidFileHeader
        else .ok (h.metaAt l1Offset)) = _
      cases productExceeds (h.metaAt 0).sizeFactors (2 ^ 41) with
      | true => rfl
      | false => rfl

/-- How the conversion of a VMDK4 header ends. -/
theorem Vmdk4Header.toMeta_cases (build : Build) (h : Vmdk4Header) :
    h.toMeta build = .error .invalidFileHeader ∨
      h.fieldsOk = true ∧
        ((build.mul h.directory.toNat SECTOR_SIZE : Outcome OpenErrorKind ℕ) =
            .panic .mulOverflow ∧
          h.toMeta build = .panic .mulOverflow ∨
        ∃ l1Offset, build.mul h.directory.toNat SECTOR_SIZE =
            (.ok l1Offset : Outcome OpenErrorKind ℕ) ∧
          productExceeds (h.metaAt l1Offset).sizeFactors (2 ^ 41) = false ∧
          h.toMeta build = .ok (h.metaAt l1Offset)) := by
  by_cases hok : h.fieldsOk = true
  · rw [h.toMeta_eq build hok]
    rcases Build.mul_cases (ε := OpenErrorKind) build h.directory.toNat
      SECTOR_SIZE with ⟨l1Offset, hmul, _⟩ | ⟨hmul, _⟩
    · rw [hmul, Outcome.ok_bind]
      by_cases hsize : h.sizeOk = true
      · rw [if_pos hsize]
        simp only [sizeOk, Bool.and_eq_true, Bool.not_eq_true'] at hsize
        exact Or.inr ⟨hok, Or.inr ⟨l1Offset, rfl, hsize.2, rfl⟩⟩
      · exact Or.inl (if_neg hsize)
    · rw [hmul]
      exact Or.inr ⟨hok, Or.inl ⟨rfl, rfl⟩⟩
  · left
    unfold Vmdk4Header.toMeta
    rw [if_pos (by simpa using hok)]

theorem Vmdk4Header.toMeta_ok {h : Vmdk4Header} (hmeta : h.toMeta build = .ok m) :
    m.Bounded ∧ 0 < m.clusterSectors := by
  rcases h.toMeta_cases build with herror | ⟨hok, ⟨_, hpanic⟩ |
    ⟨l1Offset, hmul, hsize, hmeta'⟩⟩
  · rw [herror] at hmeta
    simp at hmeta
  · rw [hpanic] at hmeta
    simp at hmeta
  · rw [hmeta'] at hmeta
    obtain rfl := Outcome.ok.inj hmeta
    obtain ⟨hgtes, hgranularity⟩ := pos_of_fieldsOk hok
    refine ⟨{
      size_le := VmdkSparseMeta.size_le_of_factors hsize
      l2Len_pos := hgtes
      sectors_lt := h.capacity.toNat_lt
      l1Offset_lt := Build.mul_lt hmul }, hgranularity⟩

end Conversion

/-- The header of a sparse extent is a COWD header, or its grains are not
empty. -/
theorem readHeaderSparse_ok {build : Build} {file : BackingFile} {m : VmdkSparseMeta}
    (hread : readHeaderSparse build file = .ok m) :
    (checkSignature file 0 = .ok (some .vmdk3) ∧
      ∃ h, Vmdk3Header.fromReader.readAt file 0 = .ok h ∧
        h.toMeta build = .ok m) ∨
    0 < m.clusterSectors ∧ ∃ h : Vmdk4Header, h.toMeta build = .ok m := by
  unfold readHeaderSparse at hread
  obtain ⟨fileType, hsignature, hread⟩ := Outcome.bind_eq_ok.mp hread
  cases fileType with
  | none => simp at hread
  | some fileType =>
      cases fileType with
      | vmdk3 =>
          obtain ⟨h, hheader, hmeta⟩ := Outcome.bind_eq_ok.mp hread
          exact Or.inl ⟨hsignature, h, deserialize_eq_ok.mp hheader, hmeta⟩
      | vmdk4 =>
          right
          obtain ⟨h, _, hread⟩ := Outcome.bind_eq_ok.mp hread
          split_ifs at hread with hsecondary
          · obtain ⟨pos, _, hread⟩ := Outcome.bind_eq_ok.mp hread
            obtain ⟨fileType, _, hread⟩ := Outcome.bind_eq_ok.mp hread
            split_ifs at hread
            obtain ⟨h', _, hmeta⟩ := Outcome.bind_eq_ok.mp hread
            exact ⟨(h'.toMeta_ok hmeta).2, h', hmeta⟩
          · exact ⟨(h.toMeta_ok hread).2, h, hread⟩
      | vmdkSeSparse => simp at hread

theorem readHeaderSparse_bounded {build : Build} {file : BackingFile}
    {m : VmdkSparseMeta} (hread : readHeaderSparse build file = .ok m) :
    m.Bounded := by
  rcases readHeaderSparse_ok hread with ⟨_, h, _, hmeta⟩ | ⟨_, h, hmeta⟩
  · exact (h.toMeta_ok hmeta).1
  · exact (h.toMeta_ok hmeta).1

section SeSparse

/-- The numbers a SESPARSE header is converted to. -/
def VmdkSeSparseConstHeader.metaAt (h : VmdkSeSparseConstHeader)
    (l1Offset l2TablesOffset : ℕ) : VmdkSeSparseMeta where
  sectors := h.capacity.toNat
  l1Offset := l1Offset
  l1Len := h.grainDirSize.toNat * SECTOR_SIZE / 8
  l2TablesOffset := l2TablesOffset
  l2Len := 4096
  clusterSectors := 8
  clustersOffset := h.grainsOffset.toNat

/-- The check on the size of what the tables describe. -/
def VmdkSeSparseConstHeader.sizeOk (h : VmdkSeSparseConstHeader) : Bool :=
  !productExceeds (h.metaAt 0 0).sizeFactors (2 ^ 46)

theorem VmdkSeSparseConstHeader.grainSize_of_fieldsOk
    {h : VmdkSeSparseConstHeader} (hok : h.fieldsOk = true) :
    h.grainSize = 8 ∧ h.grainTableSize = 64 := by
  simp only [fieldsOk, Bool.and_eq_true, beq_iff_eq] at hok
  exact ⟨hok.1.1.1.1.1.1.2, hok.1.1.1.1.1.2⟩

/-- In the conversion of a SESPARSE header the offsets of the two levels are
computed unchecked. -/
theorem VmdkSeSparseConstHeader.toMeta_eq (build : Build)
    {h : VmdkSeSparseConstHeader} (hok : h.fieldsOk = true)
    (hdir : h.grainDirSize.toNat * SECTOR_SIZE < wordLimit) :
    h.toMeta build = (do
      let l1Offset ← build.mul h.grainDirOffset.toNat SECTOR_SIZE
      let l2TablesOffset ← build.mul h.grainTablesOffset.toNat SECTOR_SIZE
      if h.sizeOk then .ok (h.metaAt l1Offset l2TablesOffset)
      else .error .invalidFileHeader) := by
  obtain ⟨hgrain, htableSize⟩ := grainSize_of_fieldsOk hok
  have hgrainSize : h.grainSize.toNat = 8 := by
    rw [hgrain]
    rfl
  have htable : (build.mul h.grainTableSize.toNat SECTOR_SIZE :
      Outcome OpenErrorKind ℕ) = .ok 32768 := by
    rw [htableSize]
    apply Build.mul_of_lt
    decide
  unfold VmdkSeSparseConstHeader.toMeta
  rw [if_neg (by simpa using hok),
    checkedMul_eq_some.mpr ⟨hdir, rfl⟩]
  simp only
  rw [Build.div_of_pos (by norm_num), Outcome.ok_bind]
  congr 1
  funext l1Offset
  congr 1
  funext l2TablesOffset
  rw [htable, Outcome.ok_bind, Build.div_of_pos (by norm_num),
    Outcome.ok_bind, hgrainSize]
  unfold sizeOk
  change (if productExceeds (h.metaAt 0 0).sizeFactors (2 ^ 46) = true then
    Outcome.error OpenErrorKind.invalidFileHeader
    else .ok (h.metaAt l1Offset l2TablesOffset)) = _
  cases productExceeds (h.metaAt 0 0).sizeFactors (2 ^ 46) with
  | true => rfl
  | false => rfl

theorem VmdkSeSparseConstHeader.toMeta_of_not_fieldsOk (build : Build)
    {h : VmdkSeSparseConstHeader} (hok : ¬ h.fieldsOk = true) :
    h.toMeta build = .error .invalidFileHeader := by
  unfold VmdkSeSparseConstHeader.toMeta
  rw [if_pos (by simpa using hok)]

theorem VmdkSeSparseConstHeader.toMeta_of_directory (build : Build)
    {h : VmdkSeSparseConstHeader}
    (hdir : ¬ h.grainDirSize.toNat * SECTOR_SIZE < wordLimit) :
    h.toMeta build = .error .invalidFileHeader := by
  unfold VmdkSeSparseConstHeader.toMeta checkedMul
  rw [if_neg hdir]
  exact ite_self _

/-- How the conversion of a SESPARSE header ends. -/
theorem VmdkSeSparseConstHeader.toMeta_cases (build : Build)
    (h : VmdkSeSparseConstHeader) :
    h.toMeta build = .error .invalidFileHeader ∨
      h.fieldsOk = true ∧ h.grainDirSize.toNat * SECTOR_SIZE < wordLimit ∧
        (((build.mul h.grainDirOffset.toNat SECTOR_SIZE :
              Outcome OpenErrorKind ℕ) = .panic .mulOverflow ∨
            (build.mul h.grainTablesOffset.toNat SECTOR_SIZE :
              Outcome OpenErrorKind ℕ) = .panic .mulOverflow) ∧
          h.toMeta build = .panic .mulOverflow ∨
        ∃ l1Offset l2TablesOffset,
          build.mul h.grainDirOffset.toNat SECTOR_SIZE =
            (.ok l1Offset : Outcome OpenErrorKind ℕ) ∧
          build.mul h.grainTablesOffset.toNat SECTOR_SIZE =
            (.ok l2TablesOffset : Outcome OpenErrorKind ℕ) ∧
          productExceeds (h.metaAt l1Offset l2TablesOffset).sizeFactors
            (2 ^ 46) = false ∧
          h.toMeta build = .ok (h.metaAt l1Offset l2TablesOffset)) := by
  by_cases hok : h.fieldsOk = true
  · by_cases hdir : h.grainDirSize.toNat * SECTOR_SIZE < wordLimit
    · rw [toMeta_eq build hok hdir]
      rcases Build.mul_cases (ε := OpenErrorKind) build
        h.grainDirOffset.toNat SECTOR_SIZE with ⟨l1Offset, hl1, _⟩ | ⟨hl1, _⟩
      · rcases Build.mul_cases (ε := OpenErrorKind) build
          h.grainTablesOffset.toNat SECTOR_SIZE with
          ⟨l2TablesOffset, hl2, _⟩ | ⟨hl2, _⟩
        · rw [hl1, Outcome.ok_bind, hl2, Outcome.ok_bind]
          by_cases hsize : h.sizeOk = true
          · rw [if_pos hsize]
            simp only [sizeOk, Bool.not_eq_true'] at hsize
            exact Or.inr ⟨hok, hdir, Or.inr ⟨l1Offset, l2TablesOffset, rfl,
              rfl, hsize, rfl⟩⟩
          · exact Or.inl (if_neg hsize)
        · rw [hl1, Outcome.ok_bind, hl2]
          exact Or.inr ⟨hok, hdir, Or.inl ⟨Or.inr rfl, rfl⟩⟩
      · rw [hl1]
        exact Or.inr ⟨hok, hdir, Or.inl ⟨Or.inl rfl, rfl⟩⟩
    · exact Or.inl (toMeta_of_directory build hdir)
  · exact Or.inl (toMeta_of_not_fieldsOk build hok)

/-- The bounds which the conversion of the SESPARSE header leaves. -/
structure VmdkSeSparseMeta.Bounded (m : VmdkSeSparseMeta) : Prop where
  size_le : m.l1Len * m.l2Len * m.clusterSectors * SECTOR_SIZE ≤ 2 ^ 46
  l2Len_eq : m.l2Len = 4096
  clusterSectors_eq : m.clusterSectors = 8
  sectors_lt : m.sectors < wordLimit
  l1Offset_lt : m.l1Offset < wordLimit
  l2TablesOffset_lt : m.l2TablesOffset < wordLimit
  clustersOffset_lt : m.clustersOffset < wordLimit

theorem VmdkSeSparseConstHeader.toMeta_ok {build : Build}
    {h : VmdkSeSparseConstHeader} {m : VmdkSeSparseMeta}
    (hmeta : h.toMeta build = .ok m) : m.Bounded := by
  rcases h.toMeta_cases build with herror | ⟨_, _, ⟨_, hpanic⟩ |
    ⟨l1Offset, l2TablesOffset, hl1, hl2, hsize, hmeta'⟩⟩
  · rw [herror] at hmeta
    simp at hmeta
  · rw [hpanic] at hmeta
    simp at hmeta
  · rw [hmeta'] at hmeta
    obtain rfl := Outcome.ok.inj hmeta
    have hprod := prod_le_of_productExceeds hsize
    exact {
      size_le := by
        simpa [VmdkSeSparseMeta.sizeFactors, Nat.mul_assoc] using hprod
      l2Len_eq := rfl
      clusterSectors_eq := rfl
      sectors_lt := h.capacity.toNat_lt
      l1Offset_lt := Build.mul_lt hl1
      l2TablesOffset_lt := Build.mul_lt hl2
      clustersOffset_lt := h.grainsOffset.toNat_lt }

theorem readHeaderSeSparse_bounded {build : Build} {file : BackingFile}
    {m : VmdkSeSparseMeta} (hread : readHeaderSeSparse build file = .ok m) :
    m.Bounded := by
  unfold readHeaderSeSparse at hread
  obtain ⟨fileType, _, hread⟩ := Outcome.bind_eq_ok.mp hread
  cases fileType with
  | none => simp at hread
  | some fileType =>
      cases fileType with
      | vmdk3 => simp at hread
      | vmdk4 => simp at hread
      | vmdkSeSparse =>
          obtain ⟨h, _, hmeta⟩ := Outcome.bind_eq_ok.mp hread
          exact h.toMeta_ok hmeta

end SeSparse

end Vmdk
end ImageReader
