import ImageReader.E01Open
import ImageReader.KaitaiStream
import ImageReader.Loop

/-!
# The sections of an E01 segment

A segment file is a header and a chain of sections, each of which names the
offset of the next one.  The parsers of this module are the generated ones for
the fixed parts of a section, and around them the checks of the reader: the
checksums, the size of a table, and the order of its entries.

Offsets are words.  The sums of offsets and sizes out of the file are not
checked, so they are subject to the build profile.
-/

namespace ImageReader
namespace E01

inductive IoError where
  | read (err : KError)
  | seek (pos : ℕ) (err : KError)
  deriving DecidableEq, Repr

inductive LibError where
  | ioError (err : IoError)
  | badChecksum (sectionType : String) (computed stored : ℕ)
  | deserializationFailed (name : String) (err : KError)
  | unexpectedVolumeSize (size : ℕ)
  | unknownCompressionMethod (value : UInt16)
  | invalidSegmentFileHeader
  /-- "entry {i} offset {offset} precedes entry {before} offset {previous}" -/
  | corruptChunkTable (i offset before previous : ℕ)
  | tooManyTableEntries (count : UInt32)
  deriving DecidableEq, Repr

/-- EWF caps table sections at this many entries. -/
def MAX_TABLE_ENTRIES : ℕ := 65534

/-! ## The generated parsers -/

structure EwfSectionDescriptorV1 where
  typeString : Text
  nextOffset : UInt64
  size : UInt64

def EwfSectionDescriptorV1.read : StreamM EwfSectionDescriptorV1 := do
  let typeString ← .str 16
  let nextOffset ← .u8le
  let size ← .u8le
  let _padding ← .bytes 40
  let _checksum ← .u4le
  return { typeString, nextOffset, size }

structure EwfTableHeader where
  entryCount : UInt32
  tableBaseOffset : UInt64
  checksum : UInt32

def EwfTableHeader.read : StreamM EwfTableHeader := do
  let entryCount ← .u4le
  let _padding1 ← .bytes 4
  let tableBaseOffset ← .u8le
  let _padding2 ← .bytes 4
  let checksum ← .u4le
  return { entryCount, tableBaseOffset, checksum }

structure EwfHashSection where
  md5 : Bytes
  checksum : UInt32

def EwfHashSection.read : StreamM EwfHashSection := do
  let md5 ← .bytes 16
  let _unknown ← .bytes 16
  let checksum ← .u4le
  return { md5, checksum }

structure EwfDigestSection where
  md5 : Bytes
  sha1 : Bytes
  checksum : UInt32

def EwfDigestSection.read : StreamM EwfDigestSection := do
  let md5 ← .bytes 16
  let sha1 ← .bytes 20
  let _padding ← .bytes 40
  let checksum ← .u4le
  return { md5, sha1, checksum }

structure EwfVolume where
  numberOfChunks : UInt32
  sectorsPerChunk : UInt32
  bytesPerSector : UInt32
  numberOfSectors : UInt64
  checksum : UInt32

def EwfVolume.read : StreamM EwfVolume := do
  let _mediaType ← .u1
  let _unknown1 ← .bytes 3
  let numberOfChunks ← .u4le
  let sectorsPerChunk ← .u4le
  let bytesPerSector ← .u4le
  let numberOfSectors ← .u8le
  let _chsCylinders ← .u4le
  let _chsHeads ← .u4le
  let _chsSectors ← .u4le
  let _mediaFlags ← .u1
  let _unknown2 ← .bytes 3
  let _palmVolumeStartSector ← .u4le
  let _unknown3 ← .bytes 4
  let _smartLogsStartSector ← .u4le
  let _compressionLevel ← .u1
  let _unknown4 ← .bytes 3
  let _errorGranularity ← .u4le
  let _unknown5 ← .bytes 4
  let _setIdentifier ← .bytes 16
  let _unknown6 ← .bytes 963
  let _signature ← .bytes 5
  let checksum ← .u4le
  return { numberOfChunks, sectorsPerChunk, bytesPerSector, numberOfSectors,
           checksum }

structure EwfVolumeSmart where
  numberOfChunks : UInt32
  sectorsPerChunk : UInt32
  bytesPerSector : UInt32
  numberOfSectors : UInt32
  checksum : UInt32

def EwfVolumeSmart.read : StreamM EwfVolumeSmart := do
  let _unknown1 ← .u4le
  let numberOfChunks ← .u4le
  let sectorsPerChunk ← .u4le
  let bytesPerSector ← .u4le
  let numberOfSectors ← .u4le
  let _unknown2 ← .bytes 20
  let _unknown3 ← .bytes 45
  let _signature ← .bytes 5
  let checksum ← .u4le
  return { numberOfChunks, sectorsPerChunk, bytesPerSector, numberOfSectors,
           checksum }

structure EwfFileHeaderV1 where
  segmentNumber : UInt16

def EwfFileHeaderV1.read : StreamM EwfFileHeaderV1 := do
  let _signature ← .bytes 8
  .contents [1] "/seq/1"
  let segmentNumber ← .u2le
  .contents [0, 0] "/seq/3"
  return { segmentNumber }

structure EwfFileHeaderV2 where
  compressionMethod : UInt16
  segmentNumber : UInt16

def EwfFileHeaderV2.read : StreamM EwfFileHeaderV2 := do
  let _signature ← .bytes 8
  let _majorVersion ← .u1
  let _minorVersion ← .u1
  let compressionMethod ← .u2le
  let segmentNumber ← .u2le
  let _setIdentifier ← .bytes 16
  return { compressionMethod, segmentNumber }

/-! ## Reading parts of a section -/

section Parts

variable (build : Build) (io : BytesReader) (ignoreChecksums : Bool)

/-- `T::read_into(io)` with its error named after `T` -/
def readInto {α : Type} (name : String) (x : StreamM α) (pos : ℕ) :
    Outcome LibError (α × ℕ) :=
  (Outcome.ofExcept (x io pos)).mapError (.deserializationFailed name)

/-- `io.read_u4le().map_err(IoError::Read)?` -/
def readU4le (pos : ℕ) : Outcome LibError (UInt32 × ℕ) :=
  (Outcome.ofExcept (StreamM.u4le io pos)).mapError
    fun e => .ioError (.read e)

def checksumReader (pos len : ℕ) : Outcome LibError ℕ :=
  match io.readBytes pos len with
  | .ok bytes => .ok (adler32 bytes)
  | .error e => .error (.ioError (.read e))

/-- The check of a part which was read from `sectionPos` to `pos`, and whose
last four bytes are its checksum. -/
def checksumOk (sectionType : String) (pos sectionPos : ℕ)
    (crcStored : UInt32) : Outcome LibError Unit := do
  let crc ← checksumReader io sectionPos (pos - sectionPos - 4)
  if crc = crcStored.toNat then pure ()
  else .error (.badChecksum sectionType crc crcStored.toNat)

/-- `if !ignore_checksums { checksum_ok(..)? }` -/
def checksumUnlessIgnored (sectionType : String) (pos sectionPos : ℕ)
    (crcStored : UInt32) : Outcome LibError Unit :=
  if ignoreChecksums then .ok ()
  else checksumOk io sectionType pos sectionPos crcStored

/-- `bytes.try_into().expect(..)` -/
def toVector (n : ℕ) (bytes : Bytes) : Outcome LibError (Vector UInt8 n) :=
  if h : bytes.length = n then .ok ⟨bytes.toArray, by simpa using h⟩
  else .panic .assertionFailed

def readHashSection (pos : ℕ) : Outcome LibError (Vector UInt8 16) := do
  let (hashSection, pos') ← readInto io "EwfHashSection" EwfHashSection.read pos
  checksumUnlessIgnored io ignoreChecksums "Hash section" pos' pos
    hashSection.checksum
  toVector 16 hashSection.md5

def readDigestSection (pos : ℕ) :
    Outcome LibError (Vector UInt8 16 × Vector UInt8 20) := do
  let (digestSection, pos') ←
    readInto io "EwfDigestSection" EwfDigestSection.read pos
  checksumUnlessIgnored io ignoreChecksums "Digest section" pos' pos
    digestSection.checksum
  let md5 ← toVector 16 digestSection.md5
  let sha1 ← toVector 20 digestSection.sha1
  pure (md5, sha1)

def VolumeSection.new (pos size : ℕ) : Outcome LibError VolumeSection :=
  if size = 1052 then do
    let (vol, pos') ← readInto io "EwfVolume" EwfVolume.read pos
    checksumUnlessIgnored io ignoreChecksums "Volume section" pos' pos
      vol.checksum
    pure ⟨vol.numberOfChunks, vol.sectorsPerChunk, vol.bytesPerSector,
      vol.numberOfSectors⟩
  else if size = 94 then do
    let (vol, pos') ← readInto io "EwfVolumeSmart" EwfVolumeSmart.read pos
    checksumUnlessIgnored io ignoreChecksums "Volume section" pos' pos
      vol.checksum
    pure ⟨vol.numberOfChunks, vol.sectorsPerChunk, vol.bytesPerSector,
      vol.numberOfSectors.toUInt64⟩
  else .error (.unexpectedVolumeSize size)

/-! ## Tables -/

def readTableEntry (tableOffset pos : ℕ) : Outcome LibError (Chunk × ℕ) := do
  let (entry, pos) ← readU4le io pos
  let dataOffset ← build.add tableOffset (entry &&& 0x7fffffff).toNat
  pure (⟨0, dataOffset, 0, entry &&& 0x80000000 > 0⟩, pos)

/-- The loop over the entries behind the first one.  The chunks so far are
`before ++ [last]`, and the end of the last one is still open. -/
def readTableEntries (tableOffset : ℕ) :
    ℕ → List Chunk → Chunk → ℕ → Outcome LibError (List Chunk × ℕ)
  | 0, before, last, pos => .ok (before ++ [last], pos)
  | n + 1, before, last, pos => do
      let (ch, pos) ← readTableEntry build io tableOffset pos
      if ch.dataOffset < last.dataOffset then
        .error (.corruptChunkTable (before.length + 1) ch.dataOffset
          before.length last.dataOffset)
      else
        readTableEntries tableOffset n
          (before ++ [{ last with endOffset := ch.dataOffset }]) ch pos

/-- The checksum over the entries, behind them. -/
def readTableFooter (entriesPos entryCount pos : ℕ) :
    Outcome LibError Unit := do
  let (crcStored, _) ← readU4le io pos
  let crc ← checksumReader io entriesPos (entryCount * 4)
  if crc = crcStored.toNat then pure ()
  else .error (.badChecksum "Table offset array" crc crcStored.toNat)

def readTable (pos : ℕ) : Outcome LibError (List Chunk) := do
  let (table, entriesPos) ← readInto io "EwfTableHeader" EwfTableHeader.read pos
  checksumUnlessIgnored io ignoreChecksums "Table section" entriesPos pos
    table.checksum
  let entryCount := table.entryCount.toNat
  if MAX_TABLE_ENTRIES < entryCount then
    .error (.tooManyTableEntries table.entryCount)
  else if entryCount = 0 then
    -- weird, but possible?
    pure []
  else
    let tableOffset := table.tableBaseOffset.toNat
    let (first, pos) ← readTableEntry build io tableOffset entriesPos
    let (chunks, pos) ← readTableEntries build io tableOffset (entryCount - 1)
      [] first pos
    if ignoreChecksums then pure chunks
    else do
      readTableFooter io entriesPos entryCount pos
      pure chunks

end Parts

/-! ## Sections -/

inductive Section where
  | volume (volume : VolumeSection)
  | table (chunks : List Chunk)
  | sectors (endOfSectors : ℕ)
  | hash (md5 : Vector UInt8 16)
  | digest (md5 : Vector UInt8 16) (sha1 : Vector UInt8 20)
  | done
  | other
  deriving DecidableEq, Repr

/-- `text.trim_matches(char::from(0))` -/
def trimNuls (text : Text) : Text :=
  let isNul := fun c : Char => c.toNat = 0
  ((text.dropWhile isNul).reverse.dropWhile isNul).reverse

/-- What stands behind a descriptor, from `pos` on. -/
def readSectionBody (build : Build) (io : BytesReader) (ignoreChecksums : Bool)
    (sectionType : Text) (sectionSize pos : ℕ) : Outcome LibError Section :=
  if sectionType = "disk".toList ∨ sectionType = "volume".toList then do
    let volume ← VolumeSection.new io ignoreChecksums pos sectionSize
    pure (.volume volume)
  else if sectionType = "table".toList then do
    let chunks ← readTable build io ignoreChecksums pos
    pure (.table chunks)
  else if sectionType = "sectors".toList then do
    let endOfSectors ← build.add pos sectionSize
    pure (.sectors endOfSectors)
  else if sectionType = "hash".toList then do
    let md5 ← readHashSection io ignoreChecksums pos
    pure (.hash md5)
  else if sectionType = "digest".toList then do
    let (md5, sha1) ← readDigestSection io ignoreChecksums pos
    pure (.digest md5 sha1)
  else if sectionType = "done".toList then pure .done
  else pure .other

/-- The size of a section without its descriptor. -/
def sectionSize (size : UInt64) : ℕ :=
  if 0x4c < size.toNat then size.toNat - 0x4c else 0

/-- `read_section` at `pos`: the offset of the next section, and this one. -/
def readSection (build : Build) (io : BytesReader) (ignoreChecksums : Bool)
    (pos : ℕ) : Outcome LibError (ℕ × Section) := do
  let (sd, pos) ←
    readInto io "EwfSectionDescriptorV1" EwfSectionDescriptorV1.read pos
  let found ← readSectionBody build io ignoreChecksums (trimNuls sd.typeString)
    (sectionSize sd.size) pos
  pure (sd.nextOffset.toNat, found)

/-- `SectionIterator::next` with `current_offset` at `cur`: the item, and the
new offset. -/
def nextSection (build : Build) (io : BytesReader) (ignoreChecksums : Bool)
    (cur : ℕ) : Outcome Empty (Option (Except LibError Section) × ℕ) :=
  if cur < io.size then
    match io.seek cur with
    | .error e => .ok (some (.error (.ioError (.seek cur e))), cur)
    | .ok () =>
        match readSection build io ignoreChecksums cur with
        | .ok (sectionOffset, found) =>
            -- strict progress, or the next item is the end
            .ok (some (.ok found),
              if cur < sectionOffset then sectionOffset else io.size)
        | .error e => .ok (some (.error e), cur)
        | .panic fault => .panic fault
        | .hang => .hang
  else .ok (none, cur)

/-! ## The file header -/

def tryEwfFileHeaderV1 (io : BytesReader) (pos : ℕ) :
    Outcome LibError (UInt16 × ℕ) := do
  let (h, pos) ← readInto io "EwfFileHeaderV1" EwfFileHeaderV1.read pos
  pure (h.segmentNumber, pos)

def tryEwfFileHeaderV2 (io : BytesReader) (pos : ℕ) :
    Outcome LibError (UInt16 × ℕ) := do
  let (h, pos) ← readInto io "EwfFileHeaderV2" EwfFileHeaderV2.read pos
  if h.compressionMethod ≤ 2 then pure (h.segmentNumber, pos)
  else .error (.unknownCompressionMethod h.compressionMethod)

def EWF_SIGNATURE : Bytes := [0x45, 0x56, 0x46, 0x09, 0x0d, 0x0a, 0xff, 0x00]

def EWF_L01_SIGNATURE : Bytes :=
  [0x4c, 0x56, 0x46, 0x09, 0x0d, 0x0a, 0xff, 0x00]

def EVF2_SIGNATURE : Bytes := [0x45, 0x56, 0x46, 0x32, 0x0d, 0x0a, 0x81, 0x00]

def LEF2_SIGNATURE : Bytes := [0x4c, 0x45, 0x46, 0x32, 0x0d, 0x0a, 0x81, 0x00]

/-- `SegmentFileHeader::new` on a fresh reader: the segment number, and the
position behind the header. -/
def segmentFileHeader (io : BytesReader) : Outcome LibError (UInt16 × ℕ) :=
  match io.readBytes 0 8 with
  | .error e => .error (.ioError (.read e))
  | .ok firstBytes =>
      match io.seek 0 with
      | .error e => .error (.ioError (.seek 0 e))
      | .ok () =>
          if firstBytes = EWF_SIGNATURE ∨ firstBytes = EWF_L01_SIGNATURE then
            tryEwfFileHeaderV1 io 0
          else if firstBytes = EVF2_SIGNATURE ∨ firstBytes = LEF2_SIGNATURE then
            tryEwfFileHeaderV2 io 0
          else .error .invalidSegmentFileHeader

/-! ## Segments -/

/-- `OpenError::from(e).with_path(path)` -/
inductive SegmentError where
  | ioError (path : String) (source : LibError)
  | badData (path : String) (source : LibError)
  deriving DecidableEq, Repr

def SegmentError.ofLib (path : String) : LibError → SegmentError
  | .ioError err => .ioError path (.ioError err)
  | e => .badData path e

/-- The variables of `read_segment`. -/
structure SegmentVars where
  chunks : List Chunk
  endOfSectors : ℕ
  volume : Option VolumeSection
  md5 : Option (Vector UInt8 16)
  sha1 : Option (Vector UInt8 20)

def SegmentVars.new : SegmentVars := ⟨[], 0, none, none, none⟩

/-- `chunks[chunks_len - 1].end_offset = end_of_sectors` -/
def closeLast (endOfSectors : ℕ) (chunks : List Chunk) : List Chunk :=
  chunks.modify (chunks.length - 1) fun ch => { ch with endOffset := endOfSectors }

/-- The arms of the `match` which stay in the loop. -/
def SegmentVars.absorb (vars : SegmentVars) : Section → SegmentVars
  | .volume v => { vars with volume := some v }
  | .table [] => vars
  | .table (ch :: t) =>
      { vars with
        chunks := closeLast vars.endOfSectors (vars.chunks ++ ch :: t) }
  | .sectors eos => { vars with endOfSectors := eos }
  | .hash h => { vars with md5 := some h }
  | .digest md5 sha1 => { vars with md5 := some md5, sha1 := some sha1 }
  | .done | .other => vars

/-- A call on the iterator, which has no error of its own. -/
def liftNext {α : Type} : Outcome Empty α → Outcome SegmentError α
  | .ok a => .ok a
  | .panic fault => .panic fault
  | .hang => .hang

/-- One iteration over the sections; `done` is set by leaving with it. -/
def segmentBody (build : Build) (io : BytesReader) (ignoreChecksums : Bool)
    (path : String) (state : ℕ × SegmentVars) :
    Outcome SegmentError (Step (ℕ × SegmentVars) (Bool × ℕ × SegmentVars)) := do
  let (cur, vars) := state
  let (item, cur) ← liftNext (nextSection build io ignoreChecksums cur)
  match item with
  | none => pure (.done (false, cur, vars))
  | some (.error e) => .error (.ofLib path e)
  | some (.ok .done) => pure (.done (true, cur, vars))
  | some (.ok found) => pure (.next (cur, vars.absorb found))

/-- `read_segment`: the components, and whether a done section was found. -/
def readSegment (build : Build) (path : String) (segmentIndex : ℕ)
    (io : BytesReader) (ignoreChecksums : Bool) :
    Outcome SegmentError (SegmentComponents × Bool) := do
  let (segmentNumber, pos) ← (segmentFileHeader io).mapError (.ofLib path)
  let (done, cur, vars) ← loop (segmentBody build io ignoreChecksums path)
    (io.size + 2) (pos, .new)
  -- more sections after done are only warned about
  if done then do
    let _ ← liftNext (nextSection build io ignoreChecksums cur)
  pure (setSegmentIndex segmentIndex
    { path, segmentNumber := segmentNumber.toNat, volume := vars.volume,
      md5 := vars.md5, sha1 := vars.sha1, chunks := vars.chunks }, done)

end E01
end ImageReader
