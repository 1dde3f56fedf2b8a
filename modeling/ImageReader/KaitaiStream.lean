import ImageReader.ByteOrder
import ImageReader.Machine
import ImageReader.Text

/-!
# Streams of the Kaitai runtime

Generated parsers read a file through a `BytesReader`, field by field.  Of the
runtime only what they rely on is known: a read inside the file returns the
bytes there and moves the position behind them, and a read which reaches past
its end fails.  Which error it fails with, where a seek fails, and how bytes
become a text are parameters.

A parser of fixed length is described by `Reads`: it succeeds exactly when its
bytes are there, and its value is a function of them.
-/

namespace ImageReader

inductive KError where
  | validationFailed (srcPath : String)
  /-- any other error of the runtime, by its number -/
  | other (code : ℕ)
  deriving DecidableEq, Repr

/-- A reader over a file; its position is passed along. -/
structure BytesReader where
  content : Bytes
  /-- `read_bytes(len)` at a position -/
  readBytes : ℕ → ℕ → Except KError Bytes
  seek : ℕ → Except KError Unit
  /-- `bytes_to_str(bytes, "ASCII")` -/
  bytesToStr : Bytes → Except KError Text
  readBytes_inside : ∀ pos len, pos + len ≤ content.length →
    readBytes pos len = .ok (Slice.window content pos len)
  readBytes_past : ∀ pos len, content.length < pos + len →
    ∃ e, readBytes pos len = .error e

def BytesReader.size (io : BytesReader) : ℕ := io.content.length

/-- A reader over bytes in memory. -/
def BytesReader.ofBytes (content : Bytes) : BytesReader where
  content
  readBytes pos len :=
    if pos + len ≤ content.length then .ok (Slice.window content pos len)
    else .error (.other 0)
  seek _ := .ok ()
  bytesToStr bytes := .ok (bytes.map fun byte => Char.ofNat byte.toNat)
  readBytes_inside _ _ hinside := if_pos hinside
  readBytes_past _ _ hpast := ⟨_, if_neg (not_le.mpr hpast)⟩

/-- From a reader and a position to a value and the position behind it. -/
abbrev StreamM (α : Type) := ReaderT BytesReader (StateT ℕ (Except KError)) α

namespace StreamM

def bytes (len : ℕ) : StreamM Bytes := fun io pos => do
  let out ← io.readBytes pos len
  pure (out, pos + len)

def u1 : StreamM UInt8 := do return UInt8.ofNat (fromLE (← bytes 1))

def u2le : StreamM UInt16 := do return UInt16.ofNat (fromLE (← bytes 2))

def u4le : StreamM UInt32 := do return UInt32.ofNat (fromLE (← bytes 4))

def u8le : StreamM UInt64 := do return UInt64.ofNat (fromLE (← bytes 8))

/-- A text of `len` bytes. -/
def str (len : ℕ) : StreamM Text := fun io pos => do
  let text ← io.bytesToStr (← io.readBytes pos len)
  pure (text, pos + len)

/-- A field of fixed contents. -/
def contents (expected : Bytes) (srcPath : String) : StreamM Unit := do
  let field ← bytes expected.length
  if field = expected then pure () else throw (.validationFailed srcPath)

end StreamM

/-! ## Fields of a file -/

def u4At (content : Bytes) (pos : ℕ) : UInt32 :=
  UInt32.ofNat (fromLE (Slice.window content pos 4))

def u8At (content : Bytes) (pos : ℕ) : UInt64 :=
  UInt64.ofNat (fromLE (Slice.window content pos 8))

namespace StreamM

variable {α β : Type}

/-- `x` reads `len` bytes, and has the value `value` makes of the file. -/
structure Reads (x : StreamM α) (len : ℕ) (value : Bytes → ℕ → α) :
    Prop where
  inside : ∀ io pos, pos + len ≤ io.size ∨ len = 0 →
    x io pos = .ok (value io.content pos, pos + len)
  past : ∀ io pos, 0 < len → io.size < pos + len → ∃ e, x io pos = .error e

theorem reads_pure (a : α) : (pure a : StreamM α).Reads 0 fun _ _ => a :=
  ⟨fun _ _ _ => rfl, fun _ _ hlen => absurd hlen (Nat.lt_irrefl 0)⟩

theorem reads_bytes (len : ℕ) :
    (bytes (len + 1)).Reads (len + 1) fun content pos =>
      Slice.window content pos (len + 1) where
  inside := by
    intro io pos hinside
    have hle : pos + (len + 1) ≤ io.size := by omega
    unfold bytes
    rw [io.readBytes_inside pos (len + 1) hle]
    rfl
  past := by
    intro io pos _ hpast
    obtain ⟨e, he⟩ := io.readBytes_past pos (len + 1) hpast
    refine ⟨e, ?_⟩
    unfold bytes
    rw [he]
    rfl

theorem bind_eq {x : StreamM α} {f : α → StreamM β} {io : BytesReader}
    {pos : ℕ} {r : Except KError (α × ℕ)} (hx : x io pos = r) :
    (x >>= f) io pos = (do
      let (a, pos) ← r
      f a io pos) := by
  subst hx
  rfl

theorem Reads.bind {x : StreamM α} {f : α → StreamM β} {len len' : ℕ}
    {value : Bytes → ℕ → α} {value' : α → Bytes → ℕ → β}
    (hx : x.Reads len value) (hf : ∀ a, (f a).Reads len' (value' a)) :
    (x >>= f).Reads (len + len') fun content pos =>
      value' (value content pos) content (pos + len) where
  inside := by
    intro io pos hinside
    rw [bind_eq (hx.inside io pos (by omega)), ← Nat.add_assoc]
    exact (hf _).inside io (pos + len) (by omega)
  past := by
    intro io pos hpos hpast
    by_cases hfirst : pos + len ≤ io.size ∨ len = 0
    · rw [bind_eq (hx.inside io pos hfirst)]
      exact (hf _).past io (pos + len) (by omega) (by omega)
    · obtain ⟨e, he⟩ := hx.past io pos (by omega) (by omega)
      exact ⟨e, bind_eq he⟩

theorem reads_u1 : u1.Reads 1 fun content pos =>
    UInt8.ofNat (fromLE (Slice.window content pos 1)) :=
  (reads_bytes 0).bind fun _ => reads_pure _

theorem reads_u4le : u4le.Reads 4 u4At :=
  (reads_bytes 3).bind fun _ => reads_pure _

theorem reads_u8le : u8le.Reads 8 u8At :=
  (reads_bytes 7).bind fun _ => reads_pure _

theorem Reads.eq_ok_iff {x : StreamM α} {len : ℕ} {value : Bytes → ℕ → α}
    (hx : x.Reads len value) (hlen : 0 < len) {io : BytesReader} {pos : ℕ}
    {r : α × ℕ} :
    x io pos = .ok r ↔
      pos + len ≤ io.size ∧ r = (value io.content pos, pos + len) := by
  rcases Nat.lt_or_ge io.size (pos + len) with hpast | hinside
  · obtain ⟨e, he⟩ := hx.past io pos hlen hpast
    simp [he, not_le.mpr hpast]
  · rw [hx.inside io pos (Or.inl hinside)]
    simp [hinside, eq_comm]

end StreamM

end ImageReader
