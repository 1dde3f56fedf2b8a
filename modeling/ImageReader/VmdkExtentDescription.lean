import ImageReader.Text

/-!
# Extent descriptions

The lines of a descriptor which say where the bytes of an image are:

    RW 8323072 FLAT "CentOS 3-f001.vmdk" 0

`extractExtentDescriptions` picks the lines whose first token is an access
mode; each of them has to be an extent description, or the whole descriptor is
refused.
-/

namespace ImageReader
namespace Vmdk

inductive AccessMode where
  | noAccess
  | rdOnly
  | rw
  deriving DecidableEq, Repr

def AccessMode.text : AccessMode → Text
  | noAccess => "NOACCESS".toList
  | rdOnly => "RDONLY".toList
  | rw => "RW".toList

/-- `token.parse::<AccessMode>()`; the error is what it displays. -/
def AccessMode.parse (token : Text) : Except Text AccessMode :=
  if token = noAccess.text then .ok noAccess
  else if token = rdOnly.text then .ok rdOnly
  else if token = rw.text then .ok rw
  else .error ("unrecognized access mode '".toList ++ token ++ "'".toList)

inductive ExtentKind where
  | flat
  | seSparse
  | sparse
  | vmfs
  | vmfsSparse
  | vmfsRdm
  | vmfsRaw
  | zero
  deriving DecidableEq, Repr

def ExtentKind.text : ExtentKind → Text
  | flat => "FLAT".toList
  | seSparse => "SESPARSE".toList
  | sparse => "SPARSE".toList
  | vmfs => "VMFS".toList
  | vmfsSparse => "VMFSSPARSE".toList
  | vmfsRdm => "VMFSRDM".toList
  | vmfsRaw => "VMFSRAW".toList
  | zero => "ZERO".toList

/-- `token.parse::<ExtentKind>()` -/
def ExtentKind.parse (token : Text) : Except Text ExtentKind :=
  if token = flat.text then .ok flat
  else if token = seSparse.text then .ok seSparse
  else if token = sparse.text then .ok sparse
  else if token = vmfs.text then .ok vmfs
  else if token = vmfsRaw.text then .ok vmfsRaw
  else if token = vmfsRdm.text then .ok vmfsRdm
  else if token = vmfsSparse.text then .ok vmfsSparse
  else if token = zero.text then .ok zero
  else .error ("unrecognized extent kind '".toList ++ token ++ "'".toList)

/-! ## One line -/

structure ExtentDescriptionLine where
  sectors : ℕ
  kind : ExtentKind
  filename : Option Text
  offset : Option ℕ
  deriving DecidableEq, Repr

/-- What a malformed description quotes: its line, or the fields which were
read from the line. -/
inductive Quoted where
  | line (text : Text)
  | fields (kind : ExtentKind) (filename : Option Text) (offset : Option ℕ)
  deriving DecidableEq, Repr

structure ParseExtentDescriptionError where
  line : Quoted
  reason : Text
  deriving DecidableEq, Repr

/-- The token in front of the first space of a text, and what is behind it. -/
def nextToken (line : Text) (reason : String) (s : Text) :
    Except ParseExtentDescriptionError (Text × Text) :=
  match s.trimStart.splitOnce ' ' with
  | some parts => .ok parts
  | none => .error ⟨.line line, reason.toList⟩

/-- The filename in its quotes and the offset behind them, if there is
anything behind the kind. -/
def filenameAndOffset (line s : Text) :
    Except ParseExtentDescriptionError (Option Text × Option ℕ) :=
  if s = [] then .ok (none, none)
  else match (s.stripHead '"').bind (rsplitOnce '"') with
    | none => .error ⟨.line line, "filename is not double-quoted".toList⟩
    | some (filename, s) =>
        let s := s.trimStart
        if s = [] then .ok (some filename, none)
        else match s.parseU64 with
          | .ok offset => .ok (some filename, some offset)
          | .error e => .error ⟨.line line,
              "bad offset '".toList ++ s ++ "': ".toList ++ e.text⟩

/-- `line.parse::<ExtentDescriptionLine>()` -/
def ExtentDescriptionLine.parse (line : Text) :
    Except ParseExtentDescriptionError ExtentDescriptionLine := do
  let s := line.trim
  let (mode, s) ← nextToken line "missing sector count" s
  match AccessMode.parse mode with
  | .error reason => .error ⟨.line line, reason⟩
  | .ok _ =>
      let (count, s) ← nextToken line "missing extent kind" s
      match count.parseU64 with
      | .error e => .error ⟨.line line,
          "bad sector count '".toList ++ count ++ "': ".toList ++ e.text⟩
      | .ok sectors =>
          let s := s.trimStart
          let (token, s) := (s.splitOnce ' ').getD (s, [])
          match ExtentKind.parse token with
          | .error reason => .error ⟨.line line, reason⟩
          | .ok kind =>
              let (filename, offset) ← filenameAndOffset line s.trimStart
              pure ⟨sectors, kind, filename, offset⟩

/-! ## Descriptions -/

inductive ExtentDescriptionInner where
  | flat (filename : Text) (offset : ℕ)
  | seSparse (filename : Text)
  | sparse (filename : Text)
  | vmfs (filename : Text)
  | vmfsRaw (filename : Text)
  | vmfsRdm (filename : Text)
  | vmfsSparse (filename : Text)
  | zero
  deriving DecidableEq, Repr

structure ExtentDescription where
  sectors : ℕ
  kind : ExtentDescriptionInner
  deriving DecidableEq, Repr

/-- The file of an extent; a zero extent has none. -/
def ExtentDescription.filename (ed : ExtentDescription) : Option Text :=
  match ed.kind with
  | .sparse filename | .seSparse filename | .flat filename _
  | .vmfs filename | .vmfsSparse filename | .vmfsRaw filename
  | .vmfsRdm filename => some filename
  | .zero => none

/-- The fields a kind has are the ones the line gives; a sparse extent may
also give offset 0. -/
def ExtentDescription.ofLine (edl : ExtentDescriptionLine) :
    Except ParseExtentDescriptionError ExtentDescription :=
  match edl.kind, edl.filename, edl.offset with
  | .zero, none, none => .ok ⟨edl.sectors, .zero⟩
  | .flat, some filename, some offset =>
      .ok ⟨edl.sectors, .flat filename offset⟩
  | .sparse, some filename, none | .sparse, some filename, some 0 =>
      .ok ⟨edl.sectors, .sparse filename⟩
  | .seSparse, some filename, none | .seSparse, some filename, some 0 =>
      .ok ⟨edl.sectors, .seSparse filename⟩
  | .vmfs, some filename, none => .ok ⟨edl.sectors, .vmfs filename⟩
  | .vmfsSparse, some filename, none =>
      .ok ⟨edl.sectors, .vmfsSparse filename⟩
  | .vmfsRdm, some filename, none => .ok ⟨edl.sectors, .vmfsRdm filename⟩
  | .vmfsRaw, some filename, none => .ok ⟨edl.sectors, .vmfsRaw filename⟩
  | kind, filename, offset =>
      .error ⟨.fields kind filename offset,
        "unexpected filename or offset for this extent kind".toList⟩

/-- The first token of the line is an access mode. -/
def isExtentLine (line : Text) : Bool :=
  match line.trimStart.splitOnce ' ' with
  | some (token, _) => (AccessMode.parse token).isOk
  | none => false

def extractFrom : List Text →
    Except ParseExtentDescriptionError (List ExtentDescription)
  | [] => .ok []
  | line :: rest =>
      if isExtentLine line then do
        let edl ← ExtentDescriptionLine.parse line
        let ed ← ExtentDescription.ofLine edl
        let eds ← extractFrom rest
        pure (ed :: eds)
      else extractFrom rest

def extractExtentDescriptions (descriptor : Text) :
    Except ParseExtentDescriptionError (List ExtentDescription) :=
  extractFrom descriptor.lines

end Vmdk
end ImageReader
