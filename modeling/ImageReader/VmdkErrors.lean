import ImageReader.ImageSource
import ImageReader.VmdkExtentDescription

/-!
# Errors of opening a VMDK image
-/

namespace ImageReader
namespace Vmdk

abbrev Url := String

inductive FileType where
  | vmdk3
  | vmdk4
  | vmdkSeSparse
  deriving DecidableEq, Repr

/-- An I/O error of the open code. -/
inductive OpenIoError where
  | source (err : SourceError)
  | badL1Entry
  | badL2Entry
  | invalidUtf8
  deriving DecidableEq, Repr

inductive DescriptorError where
  | parseExtentDescription (err : ParseExtentDescriptionError)
  | unrecognizedDescriptor
  | noDescriptor (fileType : FileType)
  deriving DecidableEq, Repr

inductive OpenErrorKind where
  | ioError (err : OpenIoError)
  | badParentExtentDescriptorSize (expected actual : ℕ)
  | descriptorError (err : DescriptorError)
  | deserializationFailed (header : String) (err : SourceError)
  | invalidFileHeader
  | badPath (path : Text)
  | unsupportedExtentKind (kind : ExtentDescriptionInner)
  | parentChainCycle (url : String)
  | imageSizeOverflow
  /-- an error of opening a backing file -/
  | source (code : ℕ)
  deriving DecidableEq, Repr

structure OpenError where
  path : String
  kind : OpenErrorKind
  deriving DecidableEq, Repr

def OpenError.withPath (e : OpenError) (path : String) : OpenError :=
  ⟨path, e.kind⟩

/-- `OpenError::from(kind)`: the path is set by whoever knows it. -/
def OpenError.ofKind (kind : OpenErrorKind) : OpenError := ⟨"", kind⟩

/-- `?` on an I/O result -/
def openIo {α : Type} (r : Except SourceError α) : Outcome OpenIoError α :=
  (Outcome.ofExcept r).mapError .source

theorem openIo_eq_ok {α : Type} {r : Except SourceError α} {a : α} :
    openIo r = .ok a ↔ r = .ok a := by
  unfold openIo
  rw [Outcome.mapError_eq_ok, Outcome.ofExcept_eq_ok]

end Vmdk
end ImageReader
