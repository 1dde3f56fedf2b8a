import ImageReader.ImageSource
import ImageReader.Loop
import Mathlib.Data.List.AList

/-!
# Extent storage

The three ways an extent of a VMDK image keeps its bytes: grains of a sparse
file, a run of a flat file, and zeros.  A read returns the bytes with which
the front of the caller's buffer is filled.

Grain tables and positions come from the image, so nothing about them is
assumed here: an arithmetic fault, a missing grain and a grain which does not
decompress are all outcomes of `SparseStorage.read`.
-/

namespace ImageReader
namespace Vmdk

def SECTOR_SIZE : ℕ := 512

@[simp] theorem sectorSize_eq : SECTOR_SIZE = 512 := rfl

inductive IoError where
  | source (err : SourceError)
  | decoder (code : ℕ)
  | crazyGrainIndex (grainIndex : ℕ)
  | grainSizeIsZero (filename : String)
  | noGrain (filename : String) (grainIndex offset : ℕ)
  deriving DecidableEq, Repr

inductive ReadError where
  | offsetBeyondEnd (offset imageSize : ℕ)
  | offsetNotFound (offset : ℕ)
  | ioError (err : IoError)
  deriving DecidableEq, Repr

/-- The errors of a backing read: the file could not be read, or the grain it
holds does not decompress. -/
def IoError.FromBacking : IoError → Prop
  | source _ => True
  | decoder _ => True
  | crazyGrainIndex _ => True
  | grainSizeIsZero _ => False
  | noGrain _ _ _ => False

/-- A streaming decoder over a byte slice: one `read` into a buffer of a given
length returns the bytes it produced and the decoder behind them. -/
structure Inflater (δ : Type) where
  init : Bytes → δ
  read : δ → ℕ → Except ℕ (Bytes × δ)
  read_le : ∀ decoder want out decoder',
    read decoder want = .ok (out, decoder') → out.length ≤ want

/-- A decoder which never produces anything. -/
def emptyInflater : Inflater Unit where
  init := fun _ => ()
  read := fun _ _ => .ok ([], ())
  read_le := by
    intro _ _ out _ h
    obtain rfl : out = [] := by simpa using h
    simp

variable {δ : Type}

/-! ## Compressed grains -/

def ioResult {α : Type} (r : Except SourceError α) : Outcome IoError α :=
  (Outcome.ofExcept r).mapError .source

/-- The file read at `pos`. -/
def readFileAt (file : BackingFile) (pos r : ℕ) : Outcome IoError Bytes := do
  ioResult (file.seek pos)
  ioResult (file.readExact pos r)

/-- One iteration of the decoding loop.  `out` is the filled part of the
buffer. -/
def decodeGrainBody (inflater : Inflater δ) (grainIndex grainSize : ℕ)
    (state : Bytes × δ) : Outcome IoError (Step (Bytes × δ) Bytes) :=
  let (out, decoder) := state
  if out.length = grainSize then
    -- the buffer is full: any further output means the grain is too long
    match inflater.read decoder 1 with
    | .error code => .error (.decoder code)
    | .ok (overflow, _) =>
        if overflow.length ≠ 0 then .error (.crazyGrainIndex grainIndex)
        else .ok (.done out)
  else
    match inflater.read decoder (grainSize - out.length) with
    | .error code => .error (.decoder code)
    | .ok (piece, decoder') =>
        if piece.length = 0 then .ok (.done out)
        else .ok (.next (out ++ piece, decoder'))

/-- The two bytes in front of a zlib stream. -/
def zlibHeaderOk (header : ℕ) : Bool :=
  header % 31 = 0 && header &&& 0x0F00 = 8 <<< 8 && header &&& 0x0020 = 0

def readAndDecompressGrain (build : Build) (inflater : Inflater δ)
    (file : BackingFile) (pos grainIndex grainSize : ℕ) :
    Outcome IoError Bytes := do
  let _lba ← ioResult (file.readExact pos 8)
  let dataSize ← ioResult (file.readExact (pos + 8) 4)
  let limit ← build.mul 2 grainSize
  if fromLE dataSize > limit then
    .error (.crazyGrainIndex grainIndex)
  else
    let header ← ioResult (file.readExact (pos + 12) 2)
    if zlibHeaderOk (fromBE header) = false then
      .error (.crazyGrainIndex grainIndex)
    else
      let buffer ← ioResult (file.readExact (pos + 14) (fromLE dataSize))
      let out ← loop (decodeGrainBody inflater grainIndex grainSize)
        (grainSize + 2) ([], inflater.init buffer)
      -- what the decoder did not fill stays zero
      pure (out ++ List.replicate (grainSize - out.length) 0)

/-! ## The storages -/

structure SparseStorage where
  source : BackingFile
  filename : String
  /-- the sector in the file of each grain, under its index in the extent -/
  grainTable : AList (fun _ : ℕ => ℕ)
  grainSize : ℕ
  hasCompressedGrain : Bool
  zeroedGrainTableEntry : Bool
  startSector : ℕ

structure FlatStorage where
  source : BackingFile
  offset : ℕ
  startSector : ℕ

inductive ExtentStorage where
  | sparse (storage : SparseStorage)
  | flat (storage : FlatStorage)
  | zero

def readGrain (build : Build) (inflater : Inflater δ) (storage : SparseStorage)
    (sectorNum grainIndex grainSize grainDataOffset r : ℕ) :
    Outcome IoError Bytes :=
  if storage.zeroedGrainTableEntry ∧ sectorNum = 1 then
    .ok (List.replicate r 0)
  else do
    let grainStart ← build.mul sectorNum SECTOR_SIZE
    if storage.hasCompressedGrain then
      ioResult (storage.source.seek grainStart)
      let grainData ← readAndDecompressGrain build inflater storage.source
        grainStart grainIndex grainSize
      Slice.range grainData grainDataOffset (grainDataOffset + r)
    else
      let pos ← build.add grainStart grainDataOffset
      ioResult (storage.source.seek pos)
      ioResult (storage.source.readExact pos r)

def SparseStorage.read (build : Build) (inflater : Inflater δ)
    (storage : SparseStorage) (offset want : ℕ) : Outcome IoError Bytes :=
  if storage.grainSize = 0 then
    .error (.grainSizeIsZero storage.filename)
  else do
    let grainSize ← build.mul storage.grainSize SECTOR_SIZE
    let start ← build.mul storage.startSector SECTOR_SIZE
    let offsetInExtent ← build.sub offset start
    let grainIndex ← Build.div offsetInExtent grainSize
    let grainDataOffset ← Build.rem offsetInExtent grainSize
    let left ← build.sub grainSize grainDataOffset
    match storage.grainTable.lookup grainIndex with
    | none => .error (.noGrain storage.filename grainIndex offset)
    | some sectorNum =>
        readGrain build inflater storage sectorNum grainIndex grainSize
          grainDataOffset (min left want)

def FlatStorage.read (build : Build) (storage : FlatStorage)
    (offset want : ℕ) : Outcome IoError Bytes := do
  let start ← build.mul storage.startSector SECTOR_SIZE
  let offsetInExtent ← build.sub offset start
  let dataOffset ← build.mul storage.offset SECTOR_SIZE
  let fileOffset ← build.add offsetInExtent dataOffset
  ioResult (storage.source.seek fileOffset)
  ioResult (storage.source.readExact fileOffset want)

def ExtentStorage.read (build : Build) (inflater : Inflater δ)
    (storage : ExtentStorage) (offset want : ℕ) : Outcome ReadError Bytes :=
  match storage with
  | sparse storage =>
      (storage.read build inflater offset want).mapError .ioError
  | flat storage => (storage.read build offset want).mapError .ioError
  | zero => .ok (List.replicate want 0)

/-! ## What a read owes -/

/-- The outcome of a backing read of `r` bytes.  The bytes are the `good` ones
as long as the file positions are `exact`; an inexact position may also
overflow. -/
def Reads (r : ℕ) (exact : Prop) (good : ℕ → UInt8 → Prop) :
    Outcome IoError Bytes → Prop
  | .ok out => out.length = r ∧
      (exact → ∀ i b, out[i]? = some b → good i b)
  | .error e => e.FromBacking
  | .panic fault => ¬ exact ∧ (fault = .addOverflow ∨ fault = .mulOverflow)
  | .hang => False

section Reading

variable {build : Build} {inflater : Inflater δ} {file : BackingFile}

theorem ioResult_cases {α : Type} (r : Except SourceError α) :
    (∃ a, r = .ok a ∧ ioResult r = .ok a) ∨
      ∃ e, ioResult r = .error e ∧ e.FromBacking := by
  cases r with
  | ok a => exact Or.inl ⟨a, rfl, rfl⟩
  | error e => exact Or.inr ⟨.source e, rfl, trivial⟩

theorem reads_readExact (file : BackingFile) (pos r : ℕ) {exact : Prop}
    {good : ℕ → UInt8 → Prop}
    (hgood : exact → ∀ i b, i < r → file.content[pos + i]? = some b →
      good i b) :
    Reads r exact good (do
      ioResult (file.seek pos)
      ioResult (file.readExact pos r)) := by
  rcases ioResult_cases (file.seek pos) with ⟨u, _, hseek⟩ | ⟨e, hseek, he⟩
  · rw [hseek, Outcome.ok_bind]
    rcases ioResult_cases (file.readExact pos r) with
      ⟨out, hread, hout⟩ | ⟨e, hout, he⟩
    · rw [hout]
      obtain ⟨hlen, hbytes⟩ := BackingFile.readExact_eq_ok hread
      refine ⟨hlen, ?_⟩
      intro hexact i b hb
      have hi : i < r := by
        rw [← hlen]
        exact (List.getElem?_eq_some_iff.mp hb).1
      rw [(hbytes i hi).1] at hb
      exact hgood hexact i b hi hb
    · rw [hout]
      exact he
  · rw [hseek, Outcome.error_bind]
    exact he

/-- The file read at a position which the code adds up. -/
theorem reads_readExact_add (build : Build) (file : BackingFile) (a c r : ℕ)
    {exact : Prop} {good : ℕ → UInt8 → Prop}
    (hexact : exact → a + c < wordLimit)
    (hgood : exact → ∀ i b, i < r → file.content[a + c + i]? = some b →
      good i b) :
    Reads r exact good (do
      let pos ← build.add a c
      ioResult (file.seek pos)
      ioResult (file.readExact pos r)) := by
  rcases Build.add_cases build a c with ⟨pos, hadd, hpos⟩ | ⟨hadd, hover⟩
  · rw [hadd, Outcome.ok_bind]
    apply reads_readExact
    intro hin i b hi hb
    rw [hpos (hexact hin)] at hb
    exact hgood hin i b hi hb
  · rw [hadd]
    exact ⟨fun hin => hover (hexact hin), Or.inl rfl⟩

/-- The decoding loop ends, and never fills more than the grain. -/
theorem decodeGrain_spec (inflater : Inflater δ) (grainIndex grainSize : ℕ)
    (decoder : δ) :
    (∃ out, loop (decodeGrainBody inflater grainIndex grainSize)
        (grainSize + 2) ([], decoder) = .ok out ∧ out.length ≤ grainSize) ∨
      ∃ e, loop (decodeGrainBody inflater grainIndex grainSize)
        (grainSize + 2) ([], decoder) = .error e ∧ e.FromBacking := by
  apply loop_rule
    (fun state : Bytes × δ => state.1.length ≤ grainSize)
    (fun state : Bytes × δ => grainSize - state.1.length)
    (fun outcome : Outcome IoError Bytes =>
      (∃ out, outcome = .ok out ∧ out.length ≤ grainSize) ∨
        ∃ e, outcome = .error e ∧ e.FromBacking)
  · rintro ⟨out, decoder⟩ hle
    simp only at hle
    simp only [decodeGrainBody]
    by_cases hfull : out.length = grainSize
    · rw [if_pos hfull]
      cases inflater.read decoder 1 with
      | error code => exact Or.inr ⟨_, rfl, trivial⟩
      | ok piece =>
          simp only
          split_ifs with hover
          · exact Or.inr ⟨_, rfl, trivial⟩
          · exact Or.inl ⟨out, rfl, hle⟩
    · rw [if_neg hfull]
      cases hread : inflater.read decoder (grainSize - out.length) with
      | error code => exact Or.inr ⟨_, rfl, trivial⟩
      | ok piece =>
          have hpiece := inflater.read_le _ _ piece.1 piece.2 hread
          simp only
          split_ifs with hend
          · exact Or.inl ⟨out, rfl, hle⟩
          · simp only [Iterates, List.length_append]
            omega
  · simp
  · simp

theorem readAndDecompressGrain_spec (build : Build) (inflater : Inflater δ)
    (file : BackingFile) (pos grainIndex grainSize : ℕ)
    (hsize : 2 * grainSize < wordLimit) :
    (∃ grain, readAndDecompressGrain build inflater file pos grainIndex
        grainSize = .ok grain ∧ grain.length = grainSize) ∨
      ∃ e, readAndDecompressGrain build inflater file pos grainIndex
        grainSize = .error e ∧ e.FromBacking := by
  unfold readAndDecompressGrain
  rw [Build.mul_of_lt hsize]
  rcases ioResult_cases (file.readExact pos 8) with
    ⟨lba, _, h⟩ | ⟨e, h, he⟩ <;> rw [h]
  swap
  · exact Or.inr ⟨e, rfl, he⟩
  rcases ioResult_cases (file.readExact (pos + 8) 4) with
    ⟨dataSize, _, h⟩ | ⟨e, h, he⟩ <;> rw [h]
  swap
  · exact Or.inr ⟨e, rfl, he⟩
  simp only [Outcome.ok_bind]
  split_ifs with hlarge
  · exact Or.inr ⟨_, rfl, trivial⟩
  rcases ioResult_cases (file.readExact (pos + 12) 2) with
    ⟨header, _, h⟩ | ⟨e, h, he⟩ <;> rw [h]
  swap
  · exact Or.inr ⟨e, rfl, he⟩
  simp only [Outcome.ok_bind]
  split_ifs with hheader
  · exact Or.inr ⟨_, rfl, trivial⟩
  rcases ioResult_cases (file.readExact (pos + 14) (fromLE dataSize)) with
    ⟨buffer, _, h⟩ | ⟨e, h, he⟩ <;> rw [h]
  swap
  · exact Or.inr ⟨e, rfl, he⟩
  simp only [Outcome.ok_bind]
  rcases decodeGrain_spec inflater grainIndex grainSize
      (inflater.init buffer) with ⟨out, h, hle⟩ | ⟨e, h, he⟩ <;> rw [h]
  · refine Or.inl ⟨_, rfl, ?_⟩
    rw [List.length_append, List.length_replicate]
    omega
  · exact Or.inr ⟨e, rfl, he⟩

/-- The byte `index` of a grain: zero for a zeroed grain, else a byte of the
decompressed grain or of the file. -/
def GrainByte (build : Build) (inflater : Inflater δ)
    (storage : SparseStorage) (sectorNum grainIndex grainSize index : ℕ)
    (b : UInt8) : Prop :=
  if storage.zeroedGrainTableEntry ∧ sectorNum = 1 then b = 0
  else if storage.hasCompressedGrain then
    ∃ grain, readAndDecompressGrain build inflater storage.source
      (sectorNum * SECTOR_SIZE) grainIndex grainSize = .ok grain ∧
      grain[index]? = some b
  else storage.source.content[sectorNum * SECTOR_SIZE + index]? = some b

theorem readGrain_spec (storage : SparseStorage)
    {sectorNum grainIndex grainSize at_ r : ℕ}
    (hsize : 2 * grainSize < wordLimit) (hr : at_ + r ≤ grainSize) :
    Reads r (sectorNum * SECTOR_SIZE + at_ < wordLimit)
      (fun i b => GrainByte build inflater storage sectorNum grainIndex
        grainSize (at_ + i) b)
      (readGrain build inflater storage sectorNum grainIndex grainSize
        at_ r) := by
  unfold readGrain
  simp only [GrainByte]
  by_cases hzero : storage.zeroedGrainTableEntry ∧ sectorNum = 1
  · simp only [if_pos hzero]
    refine ⟨List.length_replicate, ?_⟩
    intro _ i b hb
    exact List.eq_of_mem_replicate (List.mem_of_getElem? hb)
  · simp only [if_neg hzero]
    rcases Build.mul_cases build sectorNum SECTOR_SIZE with
      ⟨grainStart, hmul, hexact⟩ | ⟨hmul, hover⟩
    swap
    · rw [hmul]
      exact ⟨by omega, Or.inr rfl⟩
    rw [hmul, Outcome.ok_bind]
    cases storage.hasCompressedGrain with
    | true =>
        simp only [if_true]
        rcases ioResult_cases (storage.source.seek grainStart) with
          ⟨u, _, hseek⟩ | ⟨e, hseek, he⟩
        swap
        · rw [hseek]
          exact he
        rw [hseek, Outcome.ok_bind]
        rcases readAndDecompressGrain_spec build inflater
            storage.source grainStart grainIndex grainSize hsize with
          ⟨grain, hgrain, hlen⟩ | ⟨e, hgrain, he⟩
        swap
        · rw [hgrain]
          exact he
        rw [hgrain, Outcome.ok_bind,
          Slice.range_of_le (by omega) (by omega), Nat.add_sub_cancel_left]
        refine ⟨Slice.length_window_of_le (by omega), ?_⟩
        intro hpos i b hb
        have hi : i < r := by
          have := (List.getElem?_eq_some_iff.mp hb).1
          rwa [Slice.length_window_of_le (by omega)] at this
        rw [Slice.getElem?_window hi] at hb
        rw [hexact (by omega)] at hgrain
        exact ⟨grain, hgrain, hb⟩
    | false =>
        simp only [Bool.false_eq_true, if_false]
        apply reads_readExact_add
        · intro hpos
          rwa [hexact (by omega)]
        · intro hpos i b _ hb
          rwa [hexact (by omega), Nat.add_assoc] at hb

/-- A read inside words looks its grain up. -/
theorem SparseStorage.read_eq (build : Build) (inflater : Inflater δ)
    (storage : SparseStorage) (offset want : ℕ)
    (hpos : 0 < storage.grainSize)
    (hsize : storage.grainSize * SECTOR_SIZE < wordLimit)
    (hstart : storage.startSector * SECTOR_SIZE ≤ offset)
    (hoffset : offset < wordLimit) :
    let grainSize := storage.grainSize * SECTOR_SIZE
    let offsetInExtent := offset - storage.startSector * SECTOR_SIZE
    storage.read build inflater offset want =
      match storage.grainTable.lookup (offsetInExtent / grainSize) with
      | none => .error (.noGrain storage.filename (offsetInExtent / grainSize)
          offset)
      | some sectorNum =>
          readGrain build inflater storage sectorNum
            (offsetInExtent / grainSize) grainSize (offsetInExtent % grainSize)
            (min (grainSize - offsetInExtent % grainSize) want) := by
  intro grainSize offsetInExtent
  have hbytes : 0 < storage.grainSize * SECTOR_SIZE := by
    rw [sectorSize_eq]
    omega
  have hmod : offsetInExtent % grainSize < grainSize := Nat.mod_lt _ hbytes
  unfold SparseStorage.read
  rw [if_neg hpos.ne', Build.mul_of_lt hsize, Outcome.ok_bind,
    Build.mul_of_lt (by omega), Outcome.ok_bind, Build.sub_of_le hstart,
    Outcome.ok_bind, Build.div_of_pos hbytes, Outcome.ok_bind,
    Build.rem_of_pos hbytes, Outcome.ok_bind, Build.sub_of_le hmod.le,
    Outcome.ok_bind]

theorem SparseStorage.read_of_lookup (build : Build) (inflater : Inflater δ)
    (storage : SparseStorage) (offset want : ℕ) {sectorNum : ℕ}
    (hpos : 0 < storage.grainSize)
    (hsize : storage.grainSize * SECTOR_SIZE < wordLimit)
    (hstart : storage.startSector * SECTOR_SIZE ≤ offset)
    (hoffset : offset < wordLimit)
    (hlookup : storage.grainTable.lookup
      ((offset - storage.startSector * SECTOR_SIZE) /
        (storage.grainSize * SECTOR_SIZE)) = some sectorNum) :
    let grainSize := storage.grainSize * SECTOR_SIZE
    let offsetInExtent := offset - storage.startSector * SECTOR_SIZE
    storage.read build inflater offset want =
      readGrain build inflater storage sectorNum
        (offsetInExtent / grainSize) grainSize (offsetInExtent % grainSize)
        (min (grainSize - offsetInExtent % grainSize) want) := by
  intro grainSize offsetInExtent
  rw [SparseStorage.read_eq build inflater storage offset want hpos hsize hstart
    hoffset, hlookup]

theorem SparseStorage.read_spec (build : Build) (inflater : Inflater δ)
    (storage : SparseStorage)
    (offset want : ℕ) {sectorNum : ℕ} (hpos : 0 < storage.grainSize)
    (hsize : 2 * (storage.grainSize * SECTOR_SIZE) < wordLimit)
    (hstart : storage.startSector * SECTOR_SIZE ≤ offset)
    (hoffset : offset < wordLimit)
    (hlookup : storage.grainTable.lookup
      ((offset - storage.startSector * SECTOR_SIZE) /
        (storage.grainSize * SECTOR_SIZE)) = some sectorNum) :
    let grainSize := storage.grainSize * SECTOR_SIZE
    let offsetInExtent := offset - storage.startSector * SECTOR_SIZE
    Reads (min (grainSize - offsetInExtent % grainSize) want)
      (sectorNum * SECTOR_SIZE + offsetInExtent % grainSize < wordLimit)
      (fun i b => GrainByte build inflater storage sectorNum
        (offsetInExtent / grainSize) grainSize (offsetInExtent % grainSize + i) b)
      (storage.read build inflater offset want) := by
  intro grainSize offsetInExtent
  have hbytes : 0 < storage.grainSize * SECTOR_SIZE := by
    rw [sectorSize_eq]
    omega
  have hmod : offsetInExtent % grainSize < grainSize := Nat.mod_lt _ hbytes
  rw [SparseStorage.read_of_lookup build inflater storage offset want hpos
    (by omega) hstart hoffset hlookup]
  exact readGrain_spec storage hsize (by omega)

theorem FlatStorage.read_spec (build : Build) (storage : FlatStorage)
    (offset want : ℕ)
    (hstart : storage.startSector * SECTOR_SIZE ≤ offset)
    (hoffset : offset < wordLimit) :
    Reads want
      (offset - storage.startSector * SECTOR_SIZE +
        storage.offset * SECTOR_SIZE < wordLimit)
      (fun i b => storage.source.content[offset -
        storage.startSector * SECTOR_SIZE + storage.offset * SECTOR_SIZE +
          i]? = some b)
      (storage.read build offset want) := by
  unfold FlatStorage.read
  rw [Build.mul_of_lt (by omega), Outcome.ok_bind, Build.sub_of_le hstart,
    Outcome.ok_bind]
  rcases Build.mul_cases build storage.offset SECTOR_SIZE with
    ⟨dataOffset, hmul, hexact⟩ | ⟨hmul, hover⟩
  swap
  · rw [hmul]
    exact ⟨by omega, Or.inr rfl⟩
  rw [hmul, Outcome.ok_bind]
  apply reads_readExact_add
  · intro hpos
    rwa [hexact (by omega)]
  · intro hpos i b _ hb
    rwa [hexact (by omega)] at hb

end Reading

end Vmdk
end ImageReader
