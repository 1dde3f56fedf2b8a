import ImageReader.ImageSource

/-!
# Reading fields through a cursor

A binary header is read field by field.  `CursorM` threads the position of the
cursor through the reads; each of them may fail as a read of the file does.
Texts are read through a buffer, which is filled piece by piece.
-/

namespace ImageReader

/-- From a file and a position in it to a value and the position behind
it. -/
abbrev CursorM (α : Type) :=
  ReaderT BackingFile (StateT ℕ (Except SourceError)) α

namespace CursorM

def bytes (len : ℕ) : CursorM Bytes := fun file pos => do
  let out ← file.readExact pos len
  pure (out, pos + len)

def u8 : CursorM UInt8 := do return UInt8.ofNat (fromLE (← bytes 1))

/-- `read_u16::<LittleEndian>()` -/
def u16 : CursorM UInt16 := do return UInt16.ofNat (fromLE (← bytes 2))

/-- `read_u32::<LittleEndian>()` -/
def u32 : CursorM UInt32 := do return UInt32.ofNat (fromLE (← bytes 4))

/-- `read_u64::<LittleEndian>()` -/
def u64 : CursorM UInt64 := do return UInt64.ofNat (fromLE (← bytes 8))

/-- The value read with the cursor at `pos`. -/
def readAt {α : Type} (x : CursorM α) (file : BackingFile) (pos : ℕ) :
    Except SourceError α :=
  (x file pos).map Prod.fst

end CursorM

/-- The store never fails on the file. -/
def BackingFile.Unfailing (file : BackingFile) : Prop :=
  ∀ pos len, file.fault pos len = none

theorem BackingFile.Unfailing.readExact {file : BackingFile}
    (h : file.Unfailing) {pos len : ℕ}
    (hle : pos + len ≤ file.content.length) :
    file.readExact pos len = .ok (Slice.window file.content pos len) := by
  rcases readExact_cases hle with hread | ⟨code, hfault, _⟩
  · exact hread
  · simp [h pos len] at hfault

namespace CursorM

section Fields

variable {α β : Type} {file : BackingFile} {pos : ℕ}

theorem bind_eq_ok {x : CursorM α} {f : α → CursorM β} {r : β × ℕ} :
    (x >>= f) file pos = .ok r ↔
      ∃ a p, x file pos = .ok (a, p) ∧ f a file p = .ok r := by
  change (x file pos >>= fun ap => f ap.1 file ap.2) = .ok r ↔ _
  cases x file pos with
  | error e => simp [bind, Except.bind]
  | ok ap =>
      obtain ⟨a, p⟩ := ap
      simp [bind, Except.bind]

/-- What is read takes `n` bytes, and fails where the store does or the file
ends. -/
structure Takes (x : CursorM α) (n : ℕ) : Prop where
  moves : ∀ {file pos a p}, x file pos = .ok (a, p) → p = pos + n
  succeeds : ∀ {file pos}, file.Unfailing →
    pos + n ≤ file.content.length → ∃ a, x file pos = .ok (a, pos + n)

theorem takes_pure (a : α) : Takes (pure a) 0 where
  moves := by
    intro file pos b p h
    obtain ⟨_, rfl⟩ := Prod.mk.inj (Except.ok.inj h)
    rfl
  succeeds := fun _ _ => ⟨a, rfl⟩

theorem Takes.bind {x : CursorM α} {f : α → CursorM β} {m n : ℕ}
    (hx : x.Takes m) (hf : ∀ a, (f a).Takes n) :
    (x >>= f).Takes (m + n) where
  moves := by
    intro file pos b p h
    obtain ⟨a, q, ha, hb⟩ := bind_eq_ok.mp h
    rw [(hf a).moves hb, hx.moves ha, Nat.add_assoc]
  succeeds := by
    intro file pos hfile hle
    obtain ⟨a, ha⟩ : ∃ a, x file pos = .ok (a, pos + m) :=
      hx.succeeds hfile (by omega)
    obtain ⟨b, hb⟩ : ∃ b, f a file (pos + m) = .ok (b, pos + m + n) :=
      (hf a).succeeds hfile (by omega)
    rw [Nat.add_assoc] at hb
    exact ⟨b, bind_eq_ok.mpr ⟨a, _, ha, hb⟩⟩

theorem bytes_eq_ok {len p : ℕ} {out : Bytes}
    (h : bytes len file pos = .ok (out, p)) :
    file.readExact pos len = .ok out ∧ p = pos + len := by
  unfold bytes at h
  cases hread : file.readExact pos len with
  | error e => simp [hread, Bind.bind, Except.bind] at h
  | ok out' =>
      rw [hread] at h
      obtain ⟨rfl, rfl⟩ := Prod.mk.inj (Except.ok.inj h)
      exact ⟨rfl, rfl⟩

theorem takes_bytes (len : ℕ) : (bytes len).Takes len where
  moves := fun h => (bytes_eq_ok h).2
  succeeds := by
    intro file pos hfile hle
    refine ⟨Slice.window file.content pos len, ?_⟩
    unfold bytes
    rw [hfile.readExact hle]
    rfl

theorem takes_u8 : u8.Takes 1 := (takes_bytes 1).bind fun _ => takes_pure _

theorem takes_u16 : u16.Takes 2 := (takes_bytes 2).bind fun _ => takes_pure _

theorem takes_u32 : u32.Takes 4 := (takes_bytes 4).bind fun _ => takes_pure _

theorem takes_u64 : u64.Takes 8 := (takes_bytes 8).bind fun _ => takes_pure _

theorem u64_eq_ok {v : UInt64} {p : ℕ} (h : u64 file pos = .ok (v, p)) :
    v.toNat = fromLE (Slice.window file.content pos 8) := by
  obtain ⟨out, q, hout, hv⟩ := bind_eq_ok.mp h
  obtain ⟨hread, _⟩ := bytes_eq_ok hout
  obtain ⟨rfl, _⟩ := Prod.mk.inj (Except.ok.inj hv)
  have hlt : fromLE out < 2 ^ 64 := by
    have := fromBE_lt out.reverse
    rw [List.length_reverse, (BackingFile.readExact_eq_ok hread).1] at this
    exact this
  rw [← BackingFile.eq_window_of_readExact hread]
  exact UInt64.toNat_ofNat_of_lt' hlt

theorem readAt_eq_ok {x : CursorM α} {a : α} :
    x.readAt file pos = .ok a ↔ ∃ p, x file pos = .ok (a, p) := by
  unfold readAt
  cases x file pos with
  | error e => simp [Except.map]
  | ok r => simp [Except.map, Prod.ext_iff]

end Fields

end CursorM

/-! ## Buffered reading -/

/-- `read` into a buffer of `len` bytes with the cursor at `pos`. -/
def BackingFile.readSome (file : BackingFile) (pos len : ℕ) :
    Except SourceError Bytes :=
  file.readExact pos (min len (file.content.length - pos))

/-- What a buffered reader has in front of it: the bytes which the store
delivers, and the failure behind them, if there is one. -/
structure ByteStream where
  bytes : Bytes
  failure : Option SourceError
  deriving DecidableEq, Repr

/-- The stream from `pos` on, filled in pieces of the given sizes. -/
def BackingFile.stream (file : BackingFile) : List ℕ → ℕ → ByteStream
  | [], _ => ⟨[], none⟩
  | size :: sizes, pos =>
      match file.readSome pos size with
      | .error e => ⟨[], some e⟩
      | .ok piece =>
          let rest := file.stream sizes (pos + piece.length)
          ⟨piece ++ rest.bytes, rest.failure⟩

theorem BackingFile.stream_of_length_le {file : BackingFile} {pos : ℕ}
    (h : file.content.length ≤ pos) (sizes : List ℕ) :
    file.stream sizes pos = ⟨[], none⟩ := by
  induction sizes with
  | nil => rfl
  | cons size sizes ih =>
      have hread : file.readSome pos size = .ok [] := by
        unfold BackingFile.readSome BackingFile.readExact
        rw [Nat.sub_eq_zero_of_le h, Nat.min_zero]
        rfl
      unfold BackingFile.stream
      rw [hread]
      simp [ih]

/-- A stream has the bytes of the file from `pos` on, up to a failure. -/
theorem BackingFile.stream_bytes (file : BackingFile) (sizes : List ℕ)
    (pos : ℕ) :
    (file.stream sizes pos).bytes <+:
        Slice.window file.content pos sizes.sum ∧
      ((file.stream sizes pos).failure = none →
        (file.stream sizes pos).bytes =
          Slice.window file.content pos sizes.sum) := by
  induction sizes generalizing pos with
  | nil => simp [stream]
  | cons size sizes ih =>
      unfold stream
      cases hread : file.readSome pos size with
      | error e => simp
      | ok piece =>
          have hpiece : piece = Slice.window file.content pos size := by
            rw [eq_window_of_readExact hread]
            unfold Slice.window
            rw [← List.length_drop, List.take_eq_take_iff]
            omega
          have hrest : ∀ n, Slice.window file.content (pos + piece.length) n =
              Slice.window file.content (pos + size) n := by
            intro n
            rw [hpiece, Slice.length_window]
            by_cases hle : pos + size ≤ file.content.length
            · rw [Nat.min_eq_left (by omega)]
            · unfold Slice.window
              rw [List.drop_eq_nil_of_le (by omega),
                List.drop_eq_nil_of_le (by omega)]
          obtain ⟨hfront, hall⟩ := ih (pos + piece.length)
          rw [hrest] at hfront hall
          simp only [List.sum_cons, ← Slice.window_append, ← hpiece]
          exact ⟨(List.prefix_append_right_inj piece).mpr hfront,
            fun hnone => by rw [hall hnone]⟩

theorem BackingFile.Unfailing.stream_failure {file : BackingFile}
    (h : file.Unfailing) (sizes : List ℕ) {pos : ℕ}
    (hpos : pos ≤ file.content.length) :
    (file.stream sizes pos).failure = none := by
  induction sizes generalizing pos with
  | nil => rfl
  | cons size sizes ih =>
      have hread := h.readExact
        (show pos + min size (file.content.length - pos) ≤
          file.content.length by omega)
      unfold stream readSome
      rw [hread]
      exact ih (by rw [Slice.length_window]; omega)

namespace ByteStream

/-- `read_to_end` -/
def readToEnd (s : ByteStream) : Except SourceError Bytes :=
  match s.failure with
  | some e => .error e
  | none => .ok s.bytes

/-- `read_until(delim)`: the bytes up to the delimiter and with it, and the
stream behind them. -/
def readUntil (delim : UInt8) (s : ByteStream) :
    Except SourceError (Bytes × ByteStream) :=
  let before := s.bytes.takeWhile (· ≠ delim)
  match s.bytes.dropWhile (· ≠ delim) with
  | found :: rest => .ok (before ++ [found], ⟨rest, s.failure⟩)
  | [] =>
      match s.failure with
      | some e => .error e
      | none => .ok (before, ⟨[], none⟩)

/-- What is in front of the delimiter, if it is there. -/
theorem readUntil_before {s rest : ByteStream} {delim : UInt8}
    {buf whole : Bytes} (h : s.readUntil delim = .ok (buf, rest))
    (hfront : s.bytes <+: whole) (hall : s.failure = none → s.bytes = whole) :
    (if buf.getLast? = some delim then buf.dropLast else buf) =
      whole.takeWhile (· ≠ delim) := by
  unfold readUntil at h
  cases hdrop : s.bytes.dropWhile (· ≠ delim) with
  | nil =>
      cases hfailure : s.failure with
      | some e =>
          simp only [hdrop, hfailure] at h
          cases h
      | none =>
          simp only [hdrop, hfailure] at h
          obtain ⟨rfl, _⟩ := Prod.mk.inj (Except.ok.inj h)
          rw [← hall hfailure]
          apply if_neg
          intro hlast
          have hmem := List.mem_of_getLast? hlast
          simpa using List.mem_takeWhile_imp hmem
  | cons found after =>
      simp only [hdrop] at h
      obtain ⟨rfl, _⟩ := Prod.mk.inj (Except.ok.inj h)
      have hfound : found = delim := by
        have hhead := List.head?_dropWhile_not (· ≠ delim) s.bytes
        rw [hdrop] at hhead
        simpa using hhead
      obtain ⟨more, rfl⟩ := hfront
      rw [if_pos (by simp [hfound]), List.dropLast_concat,
        List.takeWhile_append]
      rw [if_neg]
      intro hlen
      have hnil : s.bytes.dropWhile (· ≠ delim) = [] := by
        have := congrArg List.length
          (s.bytes.takeWhile_append_dropWhile (p := (· ≠ delim)))
        rw [List.length_append] at this
        exact List.length_eq_zero_iff.mp (by omega)
      rw [hdrop] at hnil
      cases hnil

end ByteStream

end ImageReader
