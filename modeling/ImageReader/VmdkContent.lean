import ImageReader.Contents
import ImageReader.VmdkChain

/-!
# The content of a snapshot chain

No offset of a chain has two bytes, so a chain has a content: one array, which
every read of the opened image delivers a part of.
-/

namespace ImageReader
namespace Vmdk

variable {δ : Type} {build : Build} {inflater : Inflater δ}
  {handleImage : HandleImage} {fuel : ℕ} {imagePath : String} {url : Url}
  {reader : VmdkReader}

/-- The byte which an extent holds somewhere is one byte. -/
theorem delivers_unique {ex : Extent} {o : ℕ} {b b' : UInt8}
    (h : ex.Delivers build inflater o b)
    (h' : ex.Delivers build inflater o b') : b = b' := by
  unfold Extent.Delivers at h h'
  cases hstorage : ex.storage with
  | sparse storage =>
      simp only [hstorage] at h h'
      obtain ⟨sectorNum, hlookup, hgrain⟩ := h
      obtain ⟨sectorNum', hlookup', hgrain'⟩ := h'
      obtain rfl : sectorNum = sectorNum' :=
        Option.some.inj (hlookup.symm.trans hlookup')
      unfold GrainByte at hgrain hgrain'
      split_ifs at hgrain hgrain' with hzeroed hcompressed
      · exact hgrain.trans hgrain'.symm
      · obtain ⟨grain, hread, hget⟩ := hgrain
        obtain ⟨grain', hread', hget'⟩ := hgrain'
        obtain rfl : grain = grain' :=
          Outcome.ok.inj (hread.symm.trans hread')
        exact Option.some.inj (hget.symm.trans hget')
      · exact Option.some.inj (hgrain.symm.trans hgrain')
  | flat storage =>
      simp only [hstorage] at h h'
      exact Option.some.inj (h.symm.trans h')
  | zero =>
      simp only [hstorage] at h h'
      exact h.trans h'.symm

theorem chainByte_unique {imgs : List ImageExtents} {o : ℕ}
    {b b' : UInt8} (h : ChainByte build inflater imgs o b)
    (h' : ChainByte build inflater imgs o b') : b = b' := by
  rcases h with ⟨i, ex, hget, hspans, hfirst, hdelivers⟩ | ⟨hnone, hzero⟩ <;>
    rcases h' with
      ⟨i', ex', hget', hspans', hfirst', hdelivers'⟩ | ⟨hnone', hzero'⟩
  · -- neither of the two earliest extents is before the other
    obtain rfl : i = i' := by
      rcases Nat.lt_trichotomy i i' with hlt | heq | hlt
      · exact absurd hspans (hfirst' i hlt ex hget)
      · exact heq
      · exact absurd hspans' (hfirst i' hlt ex' hget')
    obtain rfl : ex = ex' := Option.some.inj (hget.symm.trans hget')
    exact delivers_unique hdelivers hdelivers'
  · exact absurd hspans (hnone' ex (List.mem_of_getElem? hget))
  · exact absurd hspans' (hnone ex' (List.mem_of_getElem? hget'))
  · exact hzero.trans hzero'.symm

/-- The bytes of a chain; where no byte can be read, any will do. -/
noncomputable def chainContent (build : Build) (inflater : Inflater δ)
    (imgs : List ImageExtents) (size : ℕ) : Bytes :=
  (List.range size).map fun o =>
    haveI := Classical.propDecidable (∃ b, ChainByte build inflater imgs o b)
    if h : ∃ b, ChainByte build inflater imgs o b then h.choose else 0

theorem length_chainContent {imgs : List ImageExtents} {size : ℕ} :
    (chainContent build inflater imgs size).length = size := by
  simp [chainContent]

theorem getElem?_chainContent {imgs : List ImageExtents} {size o : ℕ}
    {b : UInt8} (ho : o < size) (h : ChainByte build inflater imgs o b) :
    (chainContent build inflater imgs size)[o]? = some b := by
  have hexists : ∃ b, ChainByte build inflater imgs o b := ⟨b, h⟩
  unfold chainContent
  rw [List.getElem?_map, List.getElem?_range ho, Option.map_some,
    dif_pos hexists, chainByte_unique hexists.choose_spec h]

/-- A read of the `n` bytes at the offset fails because a backing read does. -/
def VmdkReader.ReadFails (build : Build) (inflater : Inflater δ)
    (reader : VmdkReader) (offset n : ℕ) (e : ReadError) : Prop :=
  ∃ err, e = .ioError err ∧
    reader.BackingFailure build inflater offset (offset + n) err

/-- Reads of the reader deliver the content of the images. -/
def ReadsContent (build : Build) (inflater : Inflater δ) (reader : VmdkReader)
    (imgs : List ImageExtents) : Prop :=
  reader.imageSize < wordLimit ∧ ∀ offset buf, offset ≤ reader.imageSize →
    offset + buf.length < wordLimit →
    ReadsBytes (chainContent build inflater imgs reader.imageSize)
      (reader.ReadFails build inflater) offset buf
      (readAtOffset build inflater reader offset buf)

/-- An opened reader reads the content of every chain which continues the
images it has followed. -/
theorem exists_followed
    (hopen : openWithOptions build handleImage fuel imagePath url =
      .ok reader) (inflater : Inflater δ) :
    ∃ followed, followed ≠ [] ∧ IsChain handleImage url 0 followed ∧
      ∀ imgs, followed <+: imgs → IsChain handleImage url 0 imgs →
        (∀ img ∈ imgs, ∀ ex ∈ img.extents, ex.PositionsExact) →
        ReadsContent build inflater reader imgs := by
  obtain ⟨n, walk, fill, spans, hopened⟩ := openWithOptions_spec hopen
  obtain ⟨followed, hne, hchain, hinitial, hend⟩ := hopened.walked.chain
  refine ⟨followed, hne, hchain, ?_⟩
  intro imgs hext himgs hexact
  obtain ⟨more, rfl⟩ := hext
  have hinitial' : walk.extents <+: chainExtents (followed ++ more) := by
    unfold chainExtents
    rw [List.flatMap_append]
    exact hinitial.trans (List.prefix_append _ _)
  have hend' : walk.uncovered.isEmpty = true ∨
      walk.extents = chainExtents (followed ++ more) := by
    rcases hend with hempty | ⟨heq, hstop⟩
    · exact Or.inl hempty
    · rw [hstop more himgs, List.append_nil]
      exact Or.inr heq
  have hpositions : reader.PositionsExact := by
    apply hopened.positionsExact
    intro ex hex
    obtain ⟨img, himg, hin⟩ := List.mem_flatMap.mp (hinitial'.subset hex)
    exact hexact img himg ex hin
  refine ⟨hopened.wellFormed.lt, ?_⟩
  intro offset buf hoffset hbuf
  have hreads : ReadsImage build inflater reader offset buf
      (readAtOffset build inflater reader offset buf) :=
    readAtOffset_spec hopened.wellFormed hoffset hbuf
  cases hcase : readAtOffset build inflater reader offset buf with
  | ok result =>
      obtain ⟨count, filled⟩ := result
      rw [hcase] at hreads
      obtain ⟨hcount, bytes, ⟨hlen, hheld⟩, rfl⟩ := hreads
      refine ⟨by rw [length_chainContent]; exact hcount, ?_⟩
      congr 1
      refine List.ext_getElem? fun j => ?_
      by_cases hj : j < count
      · obtain ⟨b, hb⟩ : ∃ b, bytes[j]? = some b :=
          ⟨_, List.getElem?_eq_getElem (by omega)⟩
        rw [Slice.getElem?_window hj, hb, getElem?_chainContent (by omega)
          (hopened.chainByte hinitial' hend' (hheld hpositions j b hb))]
      · rw [List.getElem?_eq_none (by omega), List.getElem?_eq_none]
        rw [Slice.length_window]
        omega
  | error e =>
      rw [hcase] at hreads
      obtain ⟨err, he, hfails⟩ := hreads
      refine ⟨err, he, ?_⟩
      rw [length_chainContent]
      exact hfails
  | panic fault =>
      rw [hcase] at hreads
      exact hreads.1 hpositions
  | hang =>
      rw [hcase] at hreads
      exact hreads

/-! ## An image without a parent -/

def singleImage : HandleImage := fun _ _ => .ok (baseImage, none)

theorem eq_of_isChain_singleImage {url : Url} {followed : List ImageExtents}
    (hne : followed ≠ []) (hchain : IsChain singleImage url 0 followed) :
    followed = [baseImage] := by
  cases followed with
  | nil => exact absurd rfl hne
  | cons img rest =>
      obtain ⟨parent, hhandle, hrest⟩ := hchain
      obtain ⟨rfl, rfl⟩ := Prod.mk.inj (Outcome.ok.inj hhandle)
      obtain rfl : rest = [] := by simpa using hrest
      rfl

theorem positionsExact_baseImage :
    ∀ img ∈ [baseImage], ∀ ex ∈ img.extents, ex.PositionsExact := by
  intro img himg ex hex offset _ hlt
  obtain rfl := List.mem_singleton.mp himg
  simp only [baseImage, List.mem_cons, List.not_mem_nil, or_false] at hex
  rcases hex with rfl | rfl
  · intro offsetInExtent
    simp only [sectorSize_eq] at hlt
    simp only [offsetInExtent, sectorSize_eq, wordLimit_eq]
    omega
  · trivial

end Vmdk
end ImageReader
