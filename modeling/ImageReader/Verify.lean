import ImageReader.RawdiskOpen
import ImageReader.VmdkContent

/-!
# Hashing raw images and snapshot chains

`rawdiskverify` and `vmdkverify` open an image by name and feed a SHA-1 hasher
with it, one buffer after the other.  What they report is the hash of the
content which the format means, or an error.
-/

namespace ImageReader

/-- The length of the buffer which a verifier reads into. -/
def hashBufLen : ℕ := 1048576

/-! ## Raw images -/

namespace Rawdisk

def doHash (build : Build) (cache : Cache) (sha1 : Bytes → Bytes)
    (reader : RawdiskReader) : Outcome ReadError Bytes :=
  hashThrough build reader.imageSize (readAtOffset build cache reader) sha1
    hashBufLen

variable {build : Build} {reader : RawdiskReader} {imagePath : Path}
  {paths : List Path}

/-- Every segment of an image of local files is a file, if the named one is no
directory. -/
theorem SegmentsOf.files {files : Path → Stat}
    (h : SegmentsOf (fileChecker files) imagePath paths)
    (hresolves : (fileStore files).resolves imagePath = true)
    (hfile : ∀ len, files imagePath ≠ .other len) :
    ∀ path ∈ paths, ∃ content, files path = .file content := by
  have hnamed : ∃ content, files imagePath = .file content := by
    unfold fileStore at hresolves
    simp only at hresolves
    cases hstat : files imagePath with
    | file content => exact ⟨content, rfl⟩
    | other len => exact absurd hstat (hfile len)
    | notFound => simp [hstat] at hresolves
    | notADirectory => simp [hstat] at hresolves
    | failed code => simp [hstat] at hresolves
  have hlone : paths = [imagePath] →
      ∀ path ∈ paths, ∃ content, files path = .file content := by
    rintro rfl path hpath
    rwa [List.mem_singleton.mp hpath]
  rcases h with ⟨-, hpaths⟩ | ⟨_, _, _, -, ⟨hpaths, -⟩ | ⟨first, n, hrun⟩⟩
  · exact hlone hpaths
  · exact hlone hpaths
  · exact fun path hpath =>
      (fileChecker_eq files path).1.mp (hrun.present path hpath)

end Rawdisk

/-! ## Snapshot chains -/

namespace Vmdk

variable {δ : Type} {build : Build}

def doHash (build : Build) (inflater : Inflater δ) (sha1 : Bytes → Bytes)
    (reader : VmdkReader) : Outcome ReadError Bytes :=
  hashThrough build reader.imageSize (readAtOffset build inflater reader) sha1
    hashBufLen

/-- `vmdkverify` on a chain: the hash is that of the whole chain, or the error
of a backing read is reported. -/
theorem verify_hashes_chain {handleImage : HandleImage} {fuel : ℕ}
    {imagePath : String} {url : Url} {reader : VmdkReader}
    (hopen : openWithOptions build handleImage fuel imagePath url =
      .ok reader) (inflater : Inflater δ) (sha1 : Bytes → Bytes)
    (hsize : reader.imageSize + hashBufLen < wordLimit) :
    ∃ followed, followed ≠ [] ∧ IsChain handleImage url 0 followed ∧
      ∀ imgs, followed <+: imgs → IsChain handleImage url 0 imgs →
        (∀ img ∈ imgs, ∀ ex ∈ img.extents, ex.PositionsExact) →
        HashesAll sha1 (chainContent build inflater imgs reader.imageSize)
          (reader.ReadFails build inflater)
          (doHash build inflater sha1 reader) := by
  obtain ⟨followed, hne, hchain, hreads⟩ := exists_followed hopen inflater
  refine ⟨followed, hne, hchain, ?_⟩
  intro imgs hext himgs hexact
  exact hashThrough_spec build sha1 length_chainContent.symm (by decide) hsize
    (hreads imgs hext himgs hexact).2

theorem verify_hashes_chain_single :
    ∃ reader, openWithOptions .release singleImage 2 "base" "base" =
        .ok reader ∧
      HashesAll id
        (chainContent .release emptyInflater [baseImage] reader.imageSize)
        (reader.ReadFails .release emptyInflater)
        (doHash .release emptyInflater id reader) := by
  obtain ⟨reader, hopen, hsize⟩ : ∃ reader,
      openWithOptions .release singleImage 2 "base" "base" = .ok reader ∧
        reader.imageSize + hashBufLen < wordLimit :=
    ⟨_, rfl, by decide⟩
  obtain ⟨followed, hne, hchain, hhashes⟩ :=
    verify_hashes_chain (δ := Unit) hopen emptyInflater id hsize
  obtain rfl := eq_of_isChain_singleImage hne hchain
  exact ⟨reader, hopen, hhashes [baseImage] (List.prefix_refl _) hchain
    positionsExact_baseImage⟩

end Vmdk

end ImageReader
