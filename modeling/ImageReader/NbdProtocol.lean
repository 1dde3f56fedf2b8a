import ImageReader.ByteOrder
import ImageReader.Loop
import ImageReader.Machine

/-!
# The NBD transmission phase

The server reads one request header after the other from its client and
answers each of them with a simple reply.  A `Session` is what it works on:
the bytes the client has sent and the server has not read, the bytes the
server has written, and the state of the disk image.  Writes succeed; reads
deliver what was sent, and then report the end of the stream.
-/

namespace ImageReader
namespace Nbd

/-- An `io::Error` as the error replies see it: its raw OS error, and those of
the errors in its chain of sources. -/
structure IoError where
  rawOsError : Option Int32
  sources : List (Option Int32)
  deriving DecidableEq, Repr

/-- The error of a message alone. -/
def ioErr : IoError := ⟨none, []⟩

inductive SessionError where
  | unexpectedEof
  | invalidRequestMagic
  | unexpectedEofWhileServingRead
  | image (err : IoError)
  deriving DecidableEq, Repr

/-- A disk image.  A read answers with the bytes it put at the front of the
buffer it was given, or fails; either may change the state. -/
structure NbdImage (σ : Type) where
  readAtOffset : σ → ℕ → ℕ → Except IoError Bytes × σ
  length_le : ∀ state pos want data state',
    readAtOffset state pos want = (.ok data, state') → data.length ≤ want

structure Session (σ : Type) where
  input : Bytes
  output : Bytes
  image : σ

def reqMagic : ℕ := 0x25609513
def simpleReplyMagic : ℕ := 0x67446698

def cmdRead : ℕ := 0
def cmdWrite : ℕ := 1
def cmdDisc : ℕ := 2
def cmdFlush : ℕ := 3

def readBufSize : ℕ := 1024 * 1024
def maxReadLength : ℕ := 32 * 1024 * 1024

def readRequestError (offset length exportSize : ℕ) : Option ℕ :=
  if maxReadLength < length then some 22
  else if exportSize < offset ∨ exportSize - offset < length then some 22
  else none

/-- A request is refused when it is too long, or reaches past the export. -/
def Refused (exportSize offset length : ℕ) : Prop :=
  maxReadLength < length ∨ exportSize < offset + length

instance (exportSize offset length : ℕ) :
    Decidable (Refused exportSize offset length) := by
  unfold Refused
  infer_instance

theorem readRequestError_eq (offset length exportSize : ℕ) :
    readRequestError offset length exportSize =
      if Refused exportSize offset length then some 22 else none := by
  unfold readRequestError
  by_cases hrefused : Refused exportSize offset length
  · rw [if_pos hrefused]
    unfold Refused at hrefused
    split_ifs with hlong hpast
    · rfl
    · rfl
    · omega
  · rw [if_neg hrefused]
    unfold Refused at hrefused
    rw [if_neg (by omega), if_neg (by omega)]

/-! ## Simple replies -/

def simpleReply (error handle : ℕ) : Bytes :=
  toBE 4 simpleReplyMagic ++ toBE 4 error ++ toBE 8 handle

@[simp] theorem length_simpleReply (error handle : ℕ) :
    (simpleReply error handle).length = 16 := by
  simp [simpleReply]

/-- `u32::try_from(c).ok().filter(|c| c != 0)` -/
def osCode (rawOsError : Option Int32) : Option ℕ :=
  rawOsError.bind fun c => if 0 < c.toInt then some c.toInt.toNat else none

/-- The code an image error is reported with: the first OS error code along
the chain of sources, and `EIO` where there is none. -/
def errorCode (err : IoError) : ℕ :=
  ((osCode err.rawOsError).or (err.sources.findSome? osCode)).getD 5

theorem osCode_bounds {rawOsError : Option Int32} {code : ℕ}
    (h : osCode rawOsError = some code) : 0 < code ∧ code < 2 ^ 31 := by
  cases rawOsError with
  | none => simp [osCode] at h
  | some c =>
      have hlt := c.toInt_lt
      simp only [osCode, Option.bind_some] at h
      split_ifs at h with hpos
      obtain rfl : c.toInt.toNat = code := by simpa using h
      omega

/-- An error reply never carries the code of success, and its code fits the
field of the header. -/
theorem errorCode_bounds (err : IoError) :
    0 < errorCode err ∧ errorCode err < 2 ^ 31 := by
  unfold errorCode
  cases hraw : osCode err.rawOsError with
  | some code => simpa using osCode_bounds hraw
  | none =>
      cases hsources : err.sources.findSome? osCode with
      | some code =>
          obtain ⟨source, -, hsource⟩ :=
            List.exists_of_findSome?_eq_some hsources
          simpa using osCode_bounds hsource
      | none => simp

namespace Session

variable {σ : Type}

def write (session : Session σ) (bytes : Bytes) : Session σ :=
  { session with output := session.output ++ bytes }

/-- `read_exact` of `len` bytes: they are taken off the stream. -/
def readExact (session : Session σ) (len : ℕ) :
    Outcome (SessionError × Session σ) (Bytes × Session σ) :=
  if len ≤ session.input.length then
    .ok (session.input.take len,
      { session with input := session.input.drop len })
  else .error (.unexpectedEof, { session with input := [] })

@[simp] theorem write_nil (session : Session σ) : session.write [] = session := by
  simp [write]

@[simp] theorem write_write (session : Session σ) (a b : Bytes) :
    (session.write a).write b = session.write (a ++ b) := by
  simp [write]

theorem readExact_append {session : Session σ} {len : ℕ} {front rest : Bytes}
    (hinput : session.input = front ++ rest) (hlen : front.length = len) :
    session.readExact len = .ok (front, { session with input := rest }) := by
  unfold readExact
  rw [hinput, if_pos (by simp [← hlen]), ← hlen, List.take_left,
    List.drop_left]

end Session

section Server

variable {σ : Type} (build : Build) (image : NbdImage σ)

def writeSimpleReply (session : Session σ) (error handle : ℕ) : Session σ :=
  session.write (simpleReply error handle)

def writeSimpleError (session : Session σ) (err : IoError) (handle : ℕ) :
    Session σ :=
  writeSimpleReply session (errorCode err) handle

/-- The variables of the loop in `serve_read`. -/
structure ReadState (σ : Type) where
  session : Session σ
  remaining : ℕ
  pos : ℕ
  replied : Bool

/-- One iteration of the loop in `serve_read`.  Its result says whether the
whole function returned there. -/
def serveReadBody (handle bufLen : ℕ) (state : ReadState σ) :
    Outcome (SessionError × Session σ)
      (Step (ReadState σ) (Bool × Session σ)) :=
  if 0 < state.remaining then
    let want := min state.remaining bufLen
    let (answer, image') :=
      image.readAtOffset state.session.image state.pos want
    let session := { state.session with image := image' }
    match answer with
    | .ok [] =>
        if state.replied then .error (.unexpectedEofWhileServingRead, session)
        else .ok (.done (true, writeSimpleError session ioErr handle))
    | .ok data =>
        let session :=
          if state.replied then session else writeSimpleReply session 0 handle
        let session := session.write data
        do
        let remaining ← build.sub state.remaining data.length
        let pos ← build.add state.pos data.length
        pure (.next { session, remaining, pos, replied := true })
    | .error err =>
        if state.replied then .error (.image err, session)
        else .ok (.done (true, writeSimpleError session err handle))
  else .ok (.done (false, state.session))

def serveRead (exportSize offset length handle bufLen : ℕ)
    (session : Session σ) : Outcome (SessionError × Session σ) (Session σ) :=
  match readRequestError offset length exportSize with
  | some error => .ok (writeSimpleReply session error handle)
  | none => do
      let (returned, session) ← loop (serveReadBody build image handle bufLen)
        (length + 1)
        { session, remaining := length, pos := offset, replied := false }
      if returned then pure session
      else if length = 0 then pure (writeSimpleReply session 0 handle)
      else pure session

/-- One iteration of the loop in `drain`. -/
def drainBody (bufLen : ℕ) (state : ℕ × Session σ) :
    Outcome (SessionError × Session σ) (Step (ℕ × Session σ) (Session σ)) :=
  if 0 < state.1 then do
    let want := min state.1 bufLen
    let (_, session) ← state.2.readExact want
    let remaining ← build.sub state.1 want
    pure (.next (remaining, session))
  else .ok (.done state.2)

def drain (remaining bufLen : ℕ) (session : Session σ) :
    Outcome (SessionError × Session σ) (Session σ) :=
  loop (drainBody build bufLen) (remaining + 1) (remaining, session)

/-- What the server keeps of a request header. -/
structure Header where
  typ : ℕ
  handle : ℕ
  offset : ℕ
  length : ℕ
  deriving DecidableEq, Repr

/-- Read a big-endian number of `len` bytes off a slice. -/
def readBE (len : ℕ) (fields : Bytes) : Except SessionError (ℕ × Bytes) :=
  if len ≤ fields.length then
    .ok (fromBE (fields.take len), fields.drop len)
  else .error .unexpectedEof

def parseHeader (header : Bytes) : Except SessionError Header := do
  let (magic, fields) ← readBE 4 header
  if magic ≠ reqMagic then throw .invalidRequestMagic
  let (_flags, fields) ← readBE 2 fields
  let (typ, fields) ← readBE 2 fields
  let (handle, fields) ← readBE 8 fields
  let (offset, fields) ← readBE 8 fields
  let (length, _) ← readBE 4 fields
  pure { typ, handle, offset, length }

def transmissionBody (exportSize : ℕ) (session : Session σ) :
    Outcome (SessionError × Session σ) (Step (Session σ) (Session σ)) := do
  let (bytes, session) ← session.readExact 28
  match parseHeader bytes with
  | .error err => .error (err, session)
  | .ok header =>
      if header.typ = cmdRead then do
        let session ← serveRead build image exportSize header.offset
          header.length header.handle readBufSize session
        pure (.next session)
      else if header.typ = cmdDisc then pure (.done session)
      else if header.typ = cmdFlush then
        pure (.next (writeSimpleReply session 0 header.handle))
      else if header.typ = cmdWrite then do
        let session ← drain build header.length readBufSize session
        pure (.next (writeSimpleReply session 1 header.handle))
      else pure (.next (writeSimpleReply session 38 header.handle))

/-- Every iteration takes a header off the stream, so the bytes the client has
sent bound their number. -/
def transmission (exportSize : ℕ) (session : Session σ) :
    Outcome (SessionError × Session σ) (Session σ) :=
  loop (transmissionBody build image exportSize) (session.input.length + 1)
    session

end Server

/-! ## What the client sends -/

/-- A request, with the payload that follows a write. -/
structure Request where
  flags : UInt16
  typ : UInt16
  handle : UInt64
  offset : UInt64
  length : UInt32
  payload : Bytes
  payload_length :
    payload.length = if typ.toNat = cmdWrite then length.toNat else 0

namespace Request

def header (req : Request) : Bytes :=
  toBE 4 reqMagic ++ (toBE 2 req.flags.toNat ++ (toBE 2 req.typ.toNat ++
    (toBE 8 req.handle.toNat ++ (toBE 8 req.offset.toNat ++
      toBE 4 req.length.toNat))))

def encode (req : Request) : Bytes := req.header ++ req.payload

@[simp] theorem length_header (req : Request) : req.header.length = 28 := by
  simp [header]

end Request

theorem readBE_toBE {len n : ℕ} (h : n < 256 ^ len) (rest : Bytes) :
    readBE len (toBE len n ++ rest) = .ok (n, rest) := by
  have htake : (toBE len n ++ rest).take len = toBE len n := by
    simp
  have hdrop : (toBE len n ++ rest).drop len = rest := by
    simp
  unfold readBE
  rw [if_pos (by simp), htake, hdrop, fromBE_toBE h]

/-- The server finds in a header what the client put there. -/
theorem parseHeader_header (req : Request) :
    parseHeader req.header = .ok
      { typ := req.typ.toNat, handle := req.handle.toNat,
        offset := req.offset.toNat, length := req.length.toNat } := by
  have hflags := req.flags.toNat_lt
  have htyp := req.typ.toNat_lt
  have hhandle := req.handle.toNat_lt
  have hoffset := req.offset.toNat_lt
  have hlength := req.length.toNat_lt
  have hlast : readBE 4 (toBE 4 req.length.toNat) =
      .ok (req.length.toNat, []) := by
    have := readBE_toBE (by omega : req.length.toNat < 256 ^ 4) []
    simpa using this
  unfold parseHeader Request.header
  rw [readBE_toBE (by decide)]
  simp only [bind, Except.bind, ne_eq, not_true_eq_false, if_false, pure,
    Except.pure]
  rw [readBE_toBE (by omega)]
  simp only
  rw [readBE_toBE (by omega)]
  simp only
  rw [readBE_toBE (by omega)]
  simp only
  rw [readBE_toBE (by omega)]
  simp only [hlast]

end Nbd
end ImageReader
