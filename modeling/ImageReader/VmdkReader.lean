import ImageReader.VmdkErrors
import ImageReader.VmdkExtents
import ImageReader.VmdkSpans

/-!
# Opening and reading a VMDK image

`openWithOptions` walks a chain of images from the opened one through its
parents.  The extents of each image enter the span map behind those that are
already there, and the walk ends early once no sector is uncovered.  What is
left is filled with zeros, and the map is converted from sectors to bytes.

`readAtOffset` looks up the span of its first byte and copies from span to
span.  Its result is the number of bytes read and the new content of the
caller's buffer.

One image is read by `handleImage`, a parameter here: it is asked for the
image at a URL, with the index its sources are registered under, and answers
with the image's extents and the URL of its parent.
-/

namespace ImageReader
namespace Vmdk

/-! ## Images -/

/-- Extents laid end to end from `start` on, in machine words. -/
def Laid : ℕ → List Extent → Prop
  | _, [] => True
  | start, ex :: rest =>
      ex.startSector = start ∧ Laid ((start + ex.sectors) % wordLimit) rest

/-- The extents of one image, as reading its descriptor builds them. -/
structure ImageExtents where
  extents : List Extent
  regular : ∀ ex ∈ extents, ex.Regular
  laid : Laid 0 extents

/-- The size of an image in bytes, unless it is not a word. -/
def imageBytes (extents : List Extent) : Option ℕ := do
  let sectors ← extents.foldlM (fun acc ex => checkedAdd acc ex.sectors) 0
  checkedMul sectors SECTOR_SIZE

abbrev HandleImage := Url → ℕ → Outcome OpenError (ImageExtents × Option Url)

/-! ## Opening -/

/-- The variables of the chain walk. -/
structure Walk where
  currentUrl : Url
  idx : ℕ
  spans : SpanMap ℕ
  uncovered : SectorSet
  extents : List Extent
  imageSize : Option ℕ
  visited : List Url

variable {ε : Type}

/-- The spans of extent number `exIndex` enter the span map and leave the
uncovered set, one after the other. -/
def enterSpans (exIndex : ℕ) :
    List (ℕ × ℕ) → SpanMap ℕ → SectorSet →
      Outcome ε (SpanMap ℕ × SectorSet)
  | [], spans, uncovered => .ok (spans, uncovered)
  | (beg, end_) :: rest, spans, uncovered => do
      let spans ← insertSpan beg end_ exIndex spans
      let uncovered ← removeSpan beg end_ uncovered
      enterSpans exIndex rest spans uncovered

/-- The extents of one image enter the walk; it is done once everything is
covered. -/
def addExtents (build : Build) :
    List Extent → Walk → Outcome ε (Step Walk Walk)
  | [], walk => .ok (.next walk)
  | ex :: rest, walk => do
      let list ← ex.spans build
      let (spans, uncovered) ← enterSpans walk.extents.length list walk.spans
        walk.uncovered
      let walk := { walk with
        spans := spans
        uncovered := uncovered
        idx := if ex.hasFile then walk.idx + 1 else walk.idx
        extents := walk.extents ++ [ex] }
      if uncovered.isEmpty then .ok (.done walk)
      else addExtents build rest walk

/-- The second half of an iteration: the image enters, and the walk goes on to
its parent. -/
def enterImage (build : Build) (img : ImageExtents) (parentUrl : Option Url)
    (size : ℕ) (walk : Walk) : Outcome OpenError (Step Walk (ℕ × Walk)) := do
  match ← addExtents build img.extents walk with
  | .done walk => .ok (.done (size, walk))
  | .next walk =>
      match parentUrl with
      | none => .ok (.done (size, walk))
      | some url => .ok (.next { walk with currentUrl := url })

/-- One iteration of the image loop. -/
def imageLoopBody (build : Build) (handleImage : HandleImage) (walk : Walk) :
    Outcome OpenError (Step Walk (ℕ × Walk)) :=
  let url := walk.currentUrl
  if url ∈ walk.visited then .error ⟨url, .parentChainCycle url⟩
  else do
    -- extent errors already name the extent file
    let (img, parentUrl) ← (handleImage url walk.idx).mapError fun e =>
      if e.path = "" then e.withPath url else e
    match imageBytes img.extents with
    | none => .error ⟨url, .imageSizeOverflow⟩
    | some size =>
        let walk := { walk with
          visited := url :: walk.visited, idx := walk.idx + 1 }
        match walk.imageSize with
        | none =>
            enterImage build img parentUrl size { walk with
              imageSize := some size
              uncovered := walk.uncovered.insert 0
                ((size + (SECTOR_SIZE - 1)) / SECTOR_SIZE) }
        | some expected =>
            if expected ≠ size then
              .error ⟨url, .badParentExtentDescriptorSize expected size⟩
            else enterImage build img parentUrl size walk

/-- Missing spans are filled with zero extents. -/
def zeroFill (build : Build) :
    List (ℕ × ℕ) → SpanMap ℕ → List Extent →
      Outcome ε (SpanMap ℕ × List Extent)
  | [], spans, extents => .ok (spans, extents)
  | (lb, ub) :: rest, spans, extents => do
      let sectors ← build.sub ub lb
      let spans ← insertSpan lb ub extents.length spans
      zeroFill build rest spans (extents ++ [⟨lb, sectors, .zero⟩])

/-- Spans are in sectors while the image is opened, and in bytes from then
on. -/
def spansInBytes (build : Build) :
    List (ℕ × (ℕ × ℕ)) → Outcome ε (List (ℕ × (ℕ × ℕ)))
  | [] => .ok []
  | (lb, (ub, i)) :: rest => do
      let lb ← build.mul lb SECTOR_SIZE
      let ub ← build.mul ub SECTOR_SIZE
      let spans ← spansInBytes build rest
      pure ((lb, (ub, i)) :: spans)

structure VmdkReader where
  imagePath : String
  imageSize : ℕ
  spans : List (ℕ × (ℕ × ℕ))
  extents : List Extent

def Walk.start (url : Url) : Walk where
  currentUrl := url
  idx := 0
  spans := .empty
  uncovered := .empty
  extents := []
  imageSize := none
  visited := []

def openWithOptions (build : Build) (handleImage : HandleImage) (fuel : ℕ)
    (imagePath : String) (url : Url) : Outcome OpenError VmdkReader := do
  let (imageSize, walk) ← loop (imageLoopBody build handleImage) fuel
    (Walk.start url)
  let (spans, extents) ← zeroFill build walk.uncovered.entries walk.spans
    walk.extents
  let spans ← spansInBytes build spans.entries
  pure { imagePath, imageSize, spans, extents }

/-! ## Reading -/

/-- The variables of the copy loop: the part of the buffer which is filled and
the part which is not. -/
structure Copy where
  offset : ℕ
  i : ℕ
  filled : Bytes
  buf : Bytes

section Read

variable {δ : Type} (build : Build) (inflater : Inflater δ)
  (reader : VmdkReader)

def copyBody (end_ : ℕ) (copy : Copy) :
    Outcome ReadError (Step Copy Bytes) :=
  if copy.offset < end_ then do
    let span ← Slice.index reader.spans copy.i
    let left ← build.sub span.2.1 copy.offset
    let ex ← Slice.index reader.extents span.2.2
    let data ← ex.storage.read build inflater copy.offset
      (min left copy.buf.length)
    let offset ← build.add copy.offset data.length
    let buf ← Slice.range copy.buf data.length copy.buf.length
    pure (.next {
      offset
      i := if span.2.1 ≤ offset then copy.i + 1 else copy.i
      filled := copy.filled ++ data
      buf })
  else .ok (.done (copy.filled ++ copy.buf))

/-- The index of the span which holds `offset`. -/
def firstSpan (offset : ℕ) : Outcome ReadError ℕ :=
  match Slice.binarySearch (reader.spans.map Prod.fst) offset with
  | .ok i => .ok i
  | .error 0 => .error (.offsetNotFound offset)
  | .error (i + 1) => .ok i

def readAtOffset (offset : ℕ) (buf : Bytes) :
    Outcome ReadError (ℕ × Bytes) :=
  if reader.imageSize < offset then
    .error (.offsetBeyondEnd offset reader.imageSize)
  else do
    let limit ← limitToEnd build reader.imageSize offset buf.length
    let window ← Slice.range buf 0 limit
    let end_ ← build.add offset window.length
    let i ← firstSpan reader offset
    let content ← loop (copyBody build inflater reader end_)
      (window.length + reader.spans.length + 1) ⟨offset, i, [], window⟩
    let count ← build.sub end_ offset
    pure (count, content ++ buf.drop window.length)

end Read

end Vmdk
end ImageReader
