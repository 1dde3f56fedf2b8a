import ImageReader.CacheReadSeek
import ImageReader.VmdkDescriptor
import ImageReader.VmdkReadExtent

/-!
# One image of a chain

`handleImage` finds the descriptor of an image, opens the extents which the
descriptor lists, and resolves the parent it names.  The header at the end of
a stream-optimized file is read without a look at its magic.
-/

namespace ImageReader
namespace Vmdk

/-! ## The descriptor of an image -/

/-- `Vmdk4Header::from_reader(&mut crs)?` with the cursor at `pos` -/
def vmdk4HeaderAt (src : BackingFile) (pos : ℕ) :
    Outcome OpenError Vmdk4Header :=
  atPathless (deserialize "Vmdk4Header" Vmdk4Header.fromReader src pos)

/-- The header which has the offset of the descriptor. -/
def descriptorHeader (src : BackingFile) : Outcome OpenError Vmdk4Header := do
  let h ← vmdk4HeaderAt src 0
  if h.useSecondary then
    let pos ← atPathless ((openIo (src.seekEnd 1024)).mapError .ioError)
    vmdk4HeaderAt src pos
  else pure h

section Seeks

open CacheReadSeek

variable {src : BackingFile} {crs : CacheReadSeek}

/-- A seek from the start, as the parsers ask for it. -/
theorem openIo_seek_eq (hend : src.content.length < wordLimit)
    (hcrs : crs.pos ≤ src.content.length) {pos : ℕ} (hpos : pos < wordLimit) :
    openIo (src.seek pos) =
      ((seekIn (src.source hend) (.start pos) crs).1.map
        fun _ => ()).mapError .source := by
  rw [(src.simulates .release hend hcrs).seek pos hpos]
  unfold openIo
  cases src.seek pos with
  | ok u => rfl
  | error e => rfl

/-- The second header is read where the cursor of the cache gets to. -/
theorem descriptorHeader_seeks (hend : src.content.length < wordLimit)
    (hcrs : crs.pos ≤ src.content.length) :
    descriptorHeader src = (do
      let h ← vmdk4HeaderAt src 0
      if h.useSecondary then
        let pos ← atPathless
          (((seekIn (src.source hend) (.fromEnd (-1024)) crs).1.mapError
            .source).mapError .ioError)
        vmdk4HeaderAt src pos
      else pure h) := by
  have hseek := (src.simulates .release hend hcrs).seekEnd 1024
  unfold descriptorHeader openIo
  rw [show (-1024 : ℤ) = -((1024 : ℕ) : ℤ) from rfl, hseek]

/-- The pieces in which a text is read are the reads of the cursor. -/
theorem stream_reads (build : Build) (hend : src.content.length < wordLimit)
    (hcrs : crs.pos ≤ src.content.length) (sizes : List ℕ) (buf : Buffer)
    (hfits : crs.pos + buf.1.length < wordLimit) :
    src.stream (buf.1.length :: sizes) crs.pos =
      match (readFrom build (src.answer hend) buf crs).1 with
      | .ok (n, out) =>
          let rest := src.stream sizes (crs.pos + n)
          ⟨out.take n ++ rest.bytes, rest.failure⟩
      | .error e => ⟨[], some e⟩
      | _ => ⟨[], none⟩ := by
  rw [(src.simulates build hend hcrs).read buf hfits]
  conv_lhs => unfold BackingFile.stream
  cases src.readSome crs.pos buf.1.length with
  | ok piece => simp [Outcome.ofExcept, Outcome.map]
  | error e => rfl

end Seeks

/-- The descriptor a header names; it is empty where none is named. -/
def namedDescriptor (build : Build) (src : BackingFile) (h : Vmdk4Header) :
    Outcome OpenError Text :=
  if 0 < h.descOffset.toNat then
    atPathless ((readDescriptorInternal build src h.descOffset.toNat).mapError
      .ioError)
  else pure []

def getDescriptor (build : Build) (src : BackingFile) :
    Option FileType → Outcome OpenError Text
  -- this has an internal descriptor
  | some .vmdk4 => do
      let h ← descriptorHeader src
      namedDescriptor build src h
  -- this is a descriptor file
  | none => atPathless (readDescriptorFile src)
  -- a sparse extent or SESPARSE file on its own: no descriptor to follow
  | some ft => .error (.ofKind (.descriptorError (.noDescriptor ft)))

/-! ## What a descriptor describes -/

open Registers

/-- The parent image, if any. -/
def parentUrl (store : Store) (url : Url) (descriptor : Text) :
    Outcome OpenError (Option Url) :=
  match extractParentFnHint descriptor with
  | none => .ok none
  | some hint =>
      match store.join url hint with
      | some parent => .ok (some parent)
      | none => .error (.ofKind (.badPath hint))

/-- The extents and the parent of the image which a descriptor describes; the
extents take indices from `idx` on. -/
def describedImage (build : Build) (store : Store) (url : Url)
    (isBinary : Bool) (idx : ℕ) (descriptor : Text) :
    Registers (List OpenedExtent × Option Url) := do
  let eds ← lift (atPathless ((Outcome.ofExcept
    (extractExtentDescriptions descriptor)).mapError
      fun e => .descriptorError (.parseExtentDescription e)))
  let isBinAndSingular := isBinary && eds.length == 1
  let extents ← readExtents build store url isBinAndSingular eds 0 idx
  let parent ← lift (parentUrl store url descriptor)
  pure (extents, parent)

def handleImageFiles (build : Build) (store : Store) (url : Url) (idx : ℕ) :
    Registers (List OpenedExtent × Option Url) := do
  let src ← lift (store.sourceForUrl url)
  addSource idx url src
  -- determine what we're reading
  let ft ← lift (atPathless (checkSignature src 0))
  let descriptor ← lift (getDescriptor build src ft)
  describedImage build store url (ft == some .vmdk4) (idx + 1) descriptor

section Described

variable {build : Build} {store : Store} {url : Url}

theorem describedImage_laid {isBinary : Bool} {idx : ℕ} {descriptor : Text}
    {opened : List OpenedExtent} {parent : Option Url}
    (h : (describedImage build store url isBinary idx descriptor).result =
      .ok (opened, parent)) :
    (∀ ex ∈ opened.map OpenedExtent.extent, ex.Regular) ∧
      Laid 0 (opened.map OpenedExtent.extent) := by
  unfold describedImage at h
  obtain ⟨eds, _, h⟩ := Registers.bind_eq_ok.mp h
  obtain ⟨extents, hread, h⟩ := Registers.bind_eq_ok.mp h
  obtain ⟨_, _, h⟩ := Registers.bind_eq_ok.mp h
  obtain ⟨rfl, _⟩ := Prod.mk.inj (Outcome.ok.inj h)
  exact readExtents_spec hread

theorem handleImageFiles_laid {idx : ℕ} {opened : List OpenedExtent}
    {parent : Option Url}
    (h : (handleImageFiles build store url idx).result =
      .ok (opened, parent)) :
    (∀ ex ∈ opened.map OpenedExtent.extent, ex.Regular) ∧
      Laid 0 (opened.map OpenedExtent.extent) := by
  unfold handleImageFiles at h
  obtain ⟨src, _, h⟩ := Registers.bind_eq_ok.mp h
  obtain ⟨_, _, h⟩ := Registers.bind_eq_ok.mp h
  obtain ⟨ft, _, h⟩ := Registers.bind_eq_ok.mp h
  obtain ⟨descriptor, _, h⟩ := Registers.bind_eq_ok.mp h
  exact describedImage_laid h

end Described

def handleImage (build : Build) (store : Store) : HandleImage :=
  fun url idx =>
    (handleImageFiles build store url idx).result.attach.map fun r =>
      ({ extents := r.1.1.map OpenedExtent.extent
         regular := (handleImageFiles_laid r.2).1
         laid := (handleImageFiles_laid r.2).2 }, r.1.2)

theorem handleImage_eq_ok {build : Build} {store : Store} {url : Url} {idx : ℕ}
    {img : ImageExtents} {parent : Option Url} :
    handleImage build store url idx = .ok (img, parent) ↔
      ∃ opened, (handleImageFiles build store url idx).result =
          .ok (opened, parent) ∧
        opened.map OpenedExtent.extent = img.extents := by
  unfold handleImage
  rw [Outcome.attach_map_eq_ok]
  constructor
  · rintro ⟨⟨opened, parent'⟩, hhandled, heq⟩
    obtain ⟨rfl, rfl⟩ := Prod.mk.inj heq
    exact ⟨opened, hhandled, rfl⟩
  · rintro ⟨opened, hhandled, hextents⟩
    refine ⟨(opened, parent), hhandled, ?_⟩
    cases img
    simp only at hextents
    subst hextents
    rfl

end Vmdk
end ImageReader
