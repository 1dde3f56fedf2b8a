import ImageReader.ByteOrder
import ImageReader.Memory
import ImageReader.Text

/-!
# The C interfaces

A caller gets a handle from an opening, reads through it, and gives it back;
where a call fails it gets an error, which it gives back as well.  Handles and
errors are blocks with pointers to further blocks: the reader, the paths and
the stored hashes of a handle, the message of an error.

The three interfaces differ in what a handle is made of.  `HandleApi` is what
they have in common: how a handle is made from a reader and taken apart, and a
proof that the one takes exactly what the other has left.  What Rust owns
itself is not a block until it is handed out.
-/

namespace ImageReader
namespace CApi

open MemoryAction

def nul : Char := Char.ofNat 0

/-- A string which `CString::new` has accepted. -/
structure CString where
  text : Text
  noNul : nul ∉ text
  deriving DecidableEq, Repr

def CString.new? (text : Text) : Option CString :=
  if h : nul ∉ text then some ⟨text, h⟩ else none

/-- What became of a call into the reader; a panic may have a message. -/
inductive Attempt (α : Type) where
  | ok (value : α)
  | error (message : Text)
  | panic (payload : Option Text)
  deriving DecidableEq, Repr

/-- A call with converted arguments, or the message of what is wrong with
them. -/
def Attempt.ofArguments {γ α : Type} (arguments : Except Text γ)
    (call : γ → Attempt α) : Attempt α :=
  match arguments with
  | .error e => .error e
  | .ok arguments => call arguments

def panicMessage (payload : Option Text) : Text :=
  "Panic while reading image: ".toList ++ payload.getD "unknown cause".toList

def replaceNul (text : Text) : Text :=
  text.map fun c => if c = nul then Char.ofNat 0xFFFD else c

def internalNull : Text :=
  ". Additionally, the original error message somehow contained ".toList ++
    "an internal null, which should never happen.".toList

theorem nul_not_mem_replaceNul (text : Text) : nul ∉ replaceNul text := by
  unfold replaceNul
  rw [List.mem_map]
  rintro ⟨c, -, hc⟩
  split_ifs at hc with hnul
  · exact absurd hc (by decide)
  · exact hnul hc

/-- The message of an error.  The second `CString::new` succeeds. -/
def errorText (e : Text) : CString :=
  match CString.new? e with
  | some text => text
  | none => ⟨replaceNul e ++ internalNull, by
      rw [List.mem_append, not_or]
      exact ⟨nul_not_mem_replaceNul e, by decide⟩⟩

/-- What a caller can have pointers to. -/
inductive Block (ρ η : Type) where
  | text (s : CString)
  | addresses (xs : List ℕ)
  | bytes (data : Bytes)
  | reader (r : ρ)
  | handle (h : η)
  | error (message : ℕ)

/-- A handle as it is opened and closed: `Footprint` is what it owns. -/
structure HandleApi (ρ η : Type) where
  newHandle : Allocator (Block ρ η) → ρ → MemoryAction (Block ρ η) (Except Text η)
  dropHandle : η → MemoryAction (Block ρ η) PUnit
  reader : η → ℕ
  refusal : ρ → Option Text
  Footprint : ρ → η → List (ℕ × Block ρ η) → Prop
  newHandle_ok : ∀ allocator r, refusal r = none →
    Owning (newHandle allocator r) [] fun result own =>
      ∃ h, result = .ok h ∧ Footprint r h own
  newHandle_error : ∀ allocator r e, refusal r = some e →
    Owning (newHandle allocator r) [] fun result own =>
      result = .error e ∧ own = []
  dropHandle_owning : ∀ r h own, Footprint r h own →
    Owning (dropHandle h) own fun _ own' => own' = []
  reader_mem : ∀ r h own, Footprint r h own → (reader h, .reader r) ∈ own

variable {ρ η : Type}

section Calls

variable (api : HandleApi ρ η) (allocator : Allocator (Block ρ η))

/-- The error, unless `err` is null. -/
def fillError (e : Text) (err : Bool) : MemoryAction (Block ρ η) (Option ℕ) :=
  if err then do
    let message ← alloc allocator (.text (errorText e))
    let error ← alloc allocator (.error message)
    pure (some error)
  else pure none

/-- What a failed call returns, with the error it has written. -/
def fail (e : Text) (err : Bool) : MemoryAction (Block ρ η) (ℕ × Option ℕ) := do
  let error ← fillError allocator e err
  pure (0, error)

/-- `rawdisk_open`, `vmdk_open`, `e01_open` and `e01_open_glob`, once the
arguments are converted: a null pointer, or a handle. -/
def openHandle (attempt : Attempt ρ) (err : Bool) :
    MemoryAction (Block ρ η) (ℕ × Option ℕ) :=
  match attempt with
  | .ok r => do
      match ← api.newHandle allocator r with
      | .ok h => do
          let handle ← alloc allocator (.handle h)
          pure (handle, none)
      | .error e => fail allocator e err
  | .error e => fail allocator e err
  | .panic payload => fail allocator (panicMessage payload) err

def loadHandle (a : ℕ) : MemoryAction (Block ρ η) η := do
  match ← load a with
  | .handle h => pure h
  | _ => undefined

def loadReader (a : ℕ) : MemoryAction (Block ρ η) ρ := do
  match ← load a with
  | .reader r => pure r
  | _ => undefined

/-- `does` is what `read_at_offset` does with the reader. -/
def readHandle (handle : ℕ) (buf : Bool) (does : ρ → Attempt ℕ) (err : Bool) :
    MemoryAction (Block ρ η) (ℕ × Option ℕ) :=
  if handle = 0 then fail allocator "handle is null".toList err
  else if !buf then fail allocator "buf is null".toList err
  else do
    let h ← loadHandle handle
    let r ← loadReader (api.reader h)
    match does r with
    | .ok n => pure (n, none)
    | .error e => fail allocator e err
    | .panic payload => fail allocator (panicMessage payload) err

/-- `Box::from_raw` of a handle: its `drop`, and then the box. -/
def closeHandle (handle : ℕ) : MemoryAction (Block ρ η) PUnit :=
  if handle = 0 then pure ⟨⟩
  else do
    let h ← loadHandle handle
    api.dropHandle h
    let _ ← release handle
    pure ⟨⟩

/-- `CString::from_raw` -/
def dropText (a : ℕ) : MemoryAction (Block ρ η) PUnit := do
  match ← release a with
  | .text _ => pure ⟨⟩
  | _ => undefined

/-- `Box::from_raw` of a reader -/
def dropReader (a : ℕ) : MemoryAction (Block ρ η) PUnit := do
  match ← release a with
  | .reader _ => pure ⟨⟩
  | _ => undefined

def freeError (error : ℕ) : MemoryAction (Block ρ η) PUnit :=
  if error = 0 then pure ⟨⟩
  else do
    match ← load error with
    | .error message => do
        if message ≠ 0 then dropText message
        let _ ← release error
        pure ⟨⟩
    | _ => undefined

end Calls

end CApi
end ImageReader
