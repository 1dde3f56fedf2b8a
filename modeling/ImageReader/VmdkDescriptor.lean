import ImageReader.FileCursor
import ImageReader.Loop
import ImageReader.Utf8
import ImageReader.VmdkErrors
import ImageReader.VmdkStorage

/-!
# Descriptors

The descriptor of an image is a text, embedded in a binary file or a file of
its own.
-/

namespace ImageReader
namespace Vmdk

/-- The size of the buffer of a `BufReader`. -/
def bufferSize : ℕ := 8192

/-! ## Embedded descriptors -/

/-- The sizes in which a buffer is filled from a reader that is limited to
20 sectors. -/
def descriptorPieces : List ℕ :=
  [bufferSize, 20 * SECTOR_SIZE - bufferSize]

/-- The descriptor at `pos`: what is in front of the first zero byte. -/
def descriptorAt (file : BackingFile) (pos : ℕ) : Outcome OpenIoError Text := do
  openIo (file.seek pos)
  let (buf, _) ← openIo ((file.stream descriptorPieces pos).readUntil 0)
  let buf := if buf.getLast? = some 0 then buf.dropLast else buf
  pure (fromUtf8Lossy buf)

def readDescriptorInternal (build : Build) (file : BackingFile)
    (offset : ℕ) : Outcome OpenIoError Text := do
  let pos ← build.mul offset SECTOR_SIZE
  descriptorAt file pos

/-- The text at `pos`: what is in front of the first zero byte, in 20 sectors
at most. -/
def textAt (file : BackingFile) (pos : ℕ) : Text :=
  fromUtf8Lossy ((Slice.window file.content pos (20 * SECTOR_SIZE)).takeWhile
    (· ≠ 0))

theorem descriptorPieces_sum : descriptorPieces.sum = 20 * SECTOR_SIZE := rfl

theorem descriptorAt_text {file : BackingFile} {pos : ℕ} {text : Text}
    (h : descriptorAt file pos = .ok text) :
    pos ≤ file.content.length ∧ text = textAt file pos := by
  unfold descriptorAt at h
  obtain ⟨_, hseek, h⟩ := Outcome.bind_eq_ok.mp h
  obtain ⟨⟨buf, rest⟩, hread, h⟩ := Outcome.bind_eq_ok.mp h
  obtain ⟨hfront, hall⟩ := file.stream_bytes descriptorPieces pos
  rw [descriptorPieces_sum] at hfront hall
  have hbefore :=
    ByteStream.readUntil_before (openIo_eq_ok.mp hread) hfront hall
  constructor
  · by_contra hbeyond
    rw [openIo_eq_ok, BackingFile.seek, if_neg hbeyond] at hseek
    cases hseek
  · obtain rfl := Outcome.ok.inj h
    unfold textAt
    rw [← hbefore]

theorem descriptorAt_of_unfailing {file : BackingFile} {pos : ℕ}
    (hfile : file.Unfailing) (hpos : pos ≤ file.content.length) :
    descriptorAt file pos = .ok (textAt file pos) := by
  have hread : ∃ text, descriptorAt file pos = .ok text := by
    have hseek : file.seek pos = .ok () := if_pos hpos
    unfold descriptorAt
    rw [openIo_eq_ok.mpr hseek, Outcome.ok_bind]
    unfold ByteStream.readUntil
    rw [hfile.stream_failure descriptorPieces hpos]
    cases (file.stream descriptorPieces pos).bytes.dropWhile (· ≠ 0) with
    | nil => exact ⟨_, rfl⟩
    | cons found rest => exact ⟨_, rfl⟩
  obtain ⟨text, htext⟩ := hread
  rw [htext, (descriptorAt_text htext).2]

theorem readDescriptorInternal_text {build : Build} {file : BackingFile}
    {offset : ℕ} {text : Text}
    (h : readDescriptorInternal build file offset = .ok text) :
    (build = .dev → offset * SECTOR_SIZE < wordLimit) ∧
      offset * SECTOR_SIZE % wordLimit ≤ file.content.length ∧
      text = textAt file (offset * SECTOR_SIZE % wordLimit) := by
  obtain ⟨pos, hpos, htext⟩ := Outcome.bind_eq_ok.mp h
  obtain ⟨hword, rfl⟩ := Build.mul_eq_ok_iff.mp hpos
  exact ⟨hword, descriptorAt_text htext⟩

theorem readDescriptorInternal_of_unfailing {build : Build}
    {file : BackingFile} {offset : ℕ} (hfile : file.Unfailing)
    (hword : build = .dev → offset * SECTOR_SIZE < wordLimit)
    (hinside : offset * SECTOR_SIZE % wordLimit ≤ file.content.length) :
    readDescriptorInternal build file offset =
      .ok (textAt file (offset * SECTOR_SIZE % wordLimit)) := by
  unfold readDescriptorInternal
  rw [Build.mul_eq_ok_iff.mpr ⟨hword, rfl⟩, Outcome.ok_bind,
    descriptorAt_of_unfailing hfile hinside]

/-! ## Descriptor files -/

/-- A file which is read through a buffer from its start. -/
def bufferedFile (file : BackingFile) : ByteStream :=
  file.stream
    (List.replicate (file.content.length / bufferSize + 1) bufferSize) 0

/-- Bytes which have to be UTF-8. -/
def textOf (bytes : Bytes) : Outcome OpenIoError Text :=
  match fromUtf8 bytes with
  | some text => .ok text
  | none => .error .invalidUtf8

/-- What `DescriptorError::UnrecognizedDescriptor` becomes. -/
def unrecognizedDescriptor {α : Type} : Outcome OpenErrorKind α :=
  .error (.descriptorError .unrecognizedDescriptor)

/-- One line in front of the descriptor; `desc` is what has been read. -/
def descriptorLineBody (state : Text × ByteStream) :
    Outcome OpenErrorKind (Step (Text × ByteStream) Text) := do
  let (desc, r) := state
  let (bytes, r) ← (openIo (r.readUntil 10)).mapError .ioError
  let line ← (textOf bytes).mapError .ioError
  if bytes = [] then unrecognizedDescriptor
  else if line.trimEnd = "# Disk DescriptorFile".toList then do
    -- this is a descriptor file, read the rest
    let bytes ← (openIo r.readToEnd).mapError .ioError
    let rest ← (textOf bytes).mapError .ioError
    pure (.done (desc ++ line ++ rest))
  else if line.trimEnd = [] then pure (.next (desc ++ line, r))
  else unrecognizedDescriptor

/-- Lines are read until one says that this is a descriptor file. -/
def readDescriptorFile (file : BackingFile) : Outcome OpenErrorKind Text :=
  loop descriptorLineBody (file.content.length + 1) ([], bufferedFile file)

/-! ## The parent image -/

/-- The quoted value of a line, if the line is the hint. -/
def parentHintOfLine (line : Text) : Option Text :=
  let key := "parentFileNameHint=\"".toList
  if key <+: line then
    let value := (line.drop key.length).takeWhile (· ≠ '"')
    if value = [] then none else some value
  else none

def extractParentFnHint (descriptor : Text) : Option Text :=
  descriptor.lines.findSome? parentHintOfLine

end Vmdk
end ImageReader
