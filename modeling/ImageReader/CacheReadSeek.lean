import ImageReader.FileCursor

/-!
# The cursor of the block cache

A `CacheReadSeek` is a position in a source which is read through the cache.
A read ends where its buffer or the source ends, and the position never gets
behind the end of the source.  Where the buffer ends is computed in a word: a
read is one of a bounded cursor exactly if this does not overflow.
-/

namespace ImageReader

inductive SeekFrom where
  | start (n : ℕ)
  | fromEnd (n : ℤ)
  | current (n : ℤ)
  deriving DecidableEq, Repr

/-- `base.checked_add_signed(offset)` -/
def checkedAddSigned (base : ℕ) (offset : ℤ) : Option ℕ :=
  if 0 ≤ base + offset ∧ base + offset < wordLimit then
    some (base + offset).toNat
  else none

structure CacheReadSeek where
  pos : ℕ
  deriving DecidableEq, Repr

/-- What a method of the cursor does: its result, and the cursor after it. -/
def Cursor (α : Type) : Type :=
  CacheReadSeek → Outcome SourceError α × CacheReadSeek

namespace Cursor

variable {α β : Type}

def lift (x : Outcome SourceError α) : Cursor α := fun crs => (x, crs)

def bind (x : Cursor α) (f : α → Cursor β) : Cursor β := fun crs =>
  match x crs with
  | (.ok a, crs') => f a crs'
  | (.error e, crs') => (.error e, crs')
  | (.panic fault, crs') => (.panic fault, crs')
  | (.hang, crs') => (.hang, crs')

instance : Monad Cursor where
  pure a := lift (.ok a)
  bind := bind

def getPos : Cursor ℕ := fun crs => (.ok crs.pos, crs)

def setPos (pos : ℕ) : Cursor Unit := fun crs => (.ok (), { crs with pos })

variable {f : α → Cursor β} {crs : CacheReadSeek}

@[simp] theorem pure_apply (a : α) : (pure a : Cursor α) crs = (.ok a, crs) :=
  rfl

@[simp] theorem lift_apply (x : Outcome SourceError α) :
    lift x crs = (x, crs) := rfl

@[simp] theorem lift_ok_bind (a : α) :
    (lift (.ok a) >>= f) crs = f a crs := rfl

@[simp] theorem lift_error_bind (e : SourceError) :
    (lift (.error e : Outcome SourceError α) >>= f) crs = (.error e, crs) := rfl

@[simp] theorem lift_panic_bind (fault : Fault) :
    (lift (.panic fault : Outcome SourceError α) >>= f) crs =
      (.panic fault, crs) := rfl

@[simp] theorem getPos_bind (f : ℕ → Cursor β) :
    (getPos >>= f) crs = f crs.pos crs := rfl

@[simp] theorem getPos_apply : getPos crs = (.ok crs.pos, crs) := rfl

@[simp] theorem setPos_bind (pos : ℕ) (f : Unit → Cursor β) :
    (setPos pos >>= f) crs = f () { crs with pos } := rfl

end Cursor

namespace CacheReadSeek

open Cursor

def new : CacheReadSeek := ⟨0⟩

/-- `send.min(self.pos + buf.len() as u64)` -/
def readEnd (build : Build) (send pos bufLen : ℕ) : Outcome SourceError ℕ := do
  let bufEnd ← build.add pos bufLen
  pure (min send bufEnd)

section Methods

variable (build : Build) (cacheEnd : Except SourceError ℕ)
  (cacheRead : ℕ → ℕ → Except SourceError Bytes)

/-- The number of bytes read, and the buffer after it. -/
def read (buf : Bytes) : Cursor (ℕ × Bytes) := do
  let send ← lift (.ofExcept cacheEnd)
  let pos ← getPos
  let rend ← lift (readEnd build send pos buf.length)
  let len ← lift (build.sub rend pos)
  if 0 < len then
    let _ ← lift (Slice.range buf 0 len)
    let data ← lift (.ofExcept (cacheRead pos len))
    setPos rend
    pure (len, data ++ buf.drop len)
  else pure (len, buf)

/-- The position a seek moves to. -/
def seekPos (send base : ℕ) (offset : ℤ) : Outcome SourceError ℕ :=
  match checkedAddSigned base offset with
  | some n => if n ≤ send then .ok n else .error .seekPastEnd
  | none => .error .seekBeforeStart

def seek (dest : SeekFrom) : Cursor ℕ := do
  let send ← lift (.ofExcept cacheEnd)
  let pos ← getPos
  let (base, offset) := match dest with
    | .start n => (n, 0)
    | .fromEnd n => (send, n)
    | .current n => (pos, n)
  let next ← lift (seekPos send base offset)
  setPos next
  getPos

end Methods

end CacheReadSeek

/-! ## Sources and what is asked of a cursor -/

/-- The bytes behind a cursor; their end is a word. -/
structure Source where
  content : Bytes
  length_lt : content.length < wordLimit

/-- What a cache over the source answers to the read of one call: the right
bytes, or a failure. -/
structure CacheAnswer (src : Source) where
  read : ℕ → ℕ → Except SourceError Bytes
  right : ∀ pos len out, 0 < len → read pos len = .ok out →
    pos + len ≤ src.content.length ∧ out = Slice.window src.content pos len

/-- The length of a buffer is a word. -/
abbrev Buffer : Type := { buf : Bytes // buf.length < wordLimit }

inductive CursorOp (src : Source) where
  | read (cache : CacheAnswer src) (buf : Buffer)
  | seek (dest : SeekFrom)

namespace CacheReadSeek

open Cursor

variable {build : Build} {src : Source} {crs : CacheReadSeek}
  {cache : CacheAnswer src} {buf : Buffer} {dest : SeekFrom}

/-- A read of the source, whose end is known. -/
def readFrom (build : Build) (cache : CacheAnswer src) (buf : Buffer) :
    Cursor (ℕ × Bytes) :=
  read build (.ok src.content.length) cache.read buf.1

def seekIn (src : Source) (dest : SeekFrom) : Cursor ℕ :=
  seek (.ok src.content.length) dest

def perform (build : Build) (crs : CacheReadSeek) :
    CursorOp src → CacheReadSeek
  | .read cache buf => (readFrom build cache buf crs).2
  | .seek dest => (seekIn src dest crs).2

def run (build : Build) (ops : List (CursorOp src)) : CacheReadSeek :=
  ops.foldl (perform build) new

/-- What holds of every operation of a run in the state it is asked in. -/
def Along (build : Build) (P : CacheReadSeek → CursorOp src → Prop)
    (ops : List (CursorOp src)) : Prop :=
  ∀ before op after, ops = before ++ op :: after → P (run build before) op

/-- The bytes which are left in front of the position, as far as the buffer
holds them. -/
def readCount (src : Source) (crs : CacheReadSeek) (buf : Buffer) : ℕ :=
  min buf.1.length (src.content.length - crs.pos)

/-- A read which succeeds has read the bytes at the position and gone on behind
them; every other read leaves the position. -/
structure SoundRead (build : Build) (crs : CacheReadSeek)
    (cache : CacheAnswer src) (buf : Buffer) : Prop where
  of_ok : ∀ n out, (readFrom build cache buf crs).1 = .ok (n, out) →
    n = readCount src crs buf ∧
      out = Slice.window src.content crs.pos n ++ buf.1.drop n ∧
      (readFrom build cache buf crs).2.pos = crs.pos + n
  of_not_ok : (∀ result, (readFrom build cache buf crs).1 ≠ .ok result) →
    (readFrom build cache buf crs).2 = crs

/-- Where a seek is to go, over the integers. -/
def target (src : Source) (crs : CacheReadSeek) : SeekFrom → ℤ
  | .start n => n
  | .fromEnd n => src.content.length + n
  | .current n => crs.pos + n

structure SoundSeek (src : Source) (crs : CacheReadSeek) (dest : SeekFrom) :
    Prop where
  ok_iff : (∃ n, (seekIn src dest crs).1 = .ok n) ↔
    0 ≤ target src crs dest ∧ target src crs dest ≤ src.content.length
  of_ok : ∀ n, (seekIn src dest crs).1 = .ok n →
    n = target src crs dest ∧ (seekIn src dest crs).2.pos = n
  of_not_ok : (∀ n, (seekIn src dest crs).1 ≠ .ok n) →
    (seekIn src dest crs).2 = crs

def Sound (build : Build) (crs : CacheReadSeek) : CursorOp src → Prop
  | .read cache buf => SoundRead build crs cache buf
  | .seek dest => SoundSeek src crs dest

/-- The end of a read is computed, and is not in front of its start; then the
read returns, and it succeeds if the cache delivers its bytes. -/
structure Clamped (build : Build) (crs : CacheReadSeek)
    (cache : CacheAnswer src) (buf : Buffer) : Prop where
  rend : ∃ rend, readEnd build src.content.length crs.pos buf.1.length =
    .ok rend ∧ crs.pos ≤ rend
  returns : (readFrom build cache buf crs).1.Returns
  answers : ∀ data, (readCount src crs buf = 0 ∨
      cache.read crs.pos (readCount src crs buf) = .ok data) →
    ∃ result, (readFrom build cache buf crs).1 = .ok result

/-- An operation as of a cursor between the start and the end of the source. -/
def Bounded (build : Build) (crs : CacheReadSeek) : CursorOp src → Prop
  | .read cache buf =>
      SoundRead build crs cache buf ∧ Clamped build crs cache buf
  | .seek dest => SoundSeek src crs dest

/-- The end of the buffer is a word. -/
def Fits (crs : CacheReadSeek) : CursorOp src → Prop
  | .read _ buf => crs.pos + buf.1.length < wordLimit
  | .seek _ => True

/-! ## One operation -/

theorem readEnd_of_fits {send pos len : ℕ} (h : pos + len < wordLimit) :
    readEnd build send pos len = .ok (min send (pos + len)) := by
  unfold readEnd
  rw [Build.add_of_lt h]
  rfl

/-- Where the end of the buffer overflows, the end of the read is in front of
its position, or it is not computed at all. -/
theorem lt_of_readEnd {send pos len rend : ℕ} (hover : ¬ pos + len < wordLimit)
    (hlen : len < wordLimit) (h : readEnd build send pos len = .ok rend) :
    rend < pos := by
  unfold readEnd at h
  obtain ⟨bufEnd, hadd, hrend⟩ := Outcome.bind_eq_ok.mp h
  obtain rfl : min send bufEnd = rend := by simpa using hrend
  have hwrap : bufEnd < pos := by
    rw [Build.add_eq_ok hadd]
    rw [wordLimit_eq] at *
    omega
  omega

theorem readFrom_of_fits (build : Build) (cache : CacheAnswer src)
    (hpos : crs.pos ≤ src.content.length)
    (hfits : crs.pos + buf.1.length < wordLimit) :
    readFrom build cache buf crs =
      if 0 < readCount src crs buf then
        match cache.read crs.pos (readCount src crs buf) with
        | .ok data =>
            (.ok (readCount src crs buf,
                data ++ buf.1.drop (readCount src crs buf)),
              ⟨crs.pos + readCount src crs buf⟩)
        | .error e => (.error e, crs)
      else (.ok (0, buf.1), crs) := by
  have hlen : min src.content.length (crs.pos + buf.1.length) - crs.pos =
      readCount src crs buf := by
    unfold readCount
    omega
  have hrend : min src.content.length (crs.pos + buf.1.length) =
      crs.pos + readCount src crs buf := by
    unfold readCount
    omega
  unfold readFrom read
  simp only [Outcome.ofExcept_ok, lift_ok_bind, getPos_bind,
    readEnd_of_fits hfits]
  rw [Build.sub_of_le (by omega), hlen, hrend, lift_ok_bind]
  split_ifs with hzero
  · have hroom : readCount src crs buf ≤ buf.1.length := Nat.min_le_left _ _
    rw [Slice.range_of_le (Nat.zero_le _) hroom, lift_ok_bind]
    cases cache.read crs.pos (readCount src crs buf) with
    | ok data => rfl
    | error e => rfl
  · rw [Nat.eq_zero_of_not_pos hzero]
    rfl

/-- A read whose buffer ends behind the last word panics, or asks the cache for
bytes behind the end of the source. -/
theorem readFrom_of_not_fits (build : Build) (cache : CacheAnswer src)
    (hpos : crs.pos ≤ src.content.length)
    (hover : ¬ crs.pos + buf.1.length < wordLimit) :
    (readFrom build cache buf crs).2 = crs ∧
      ∀ result, (readFrom build cache buf crs).1 ≠ .ok result := by
  have hend := src.length_lt
  have hbuf := buf.2
  unfold readFrom read
  simp only [Outcome.ofExcept_ok, lift_ok_bind, getPos_bind]
  cases build with
  | dev =>
      unfold readEnd
      rw [Build.dev_add hover]
      simp
  | release =>
      have hwrap : (crs.pos + buf.1.length) % wordLimit =
          crs.pos + buf.1.length - wordLimit := by
        rw [Nat.mod_eq_sub_mod (by omega), Nat.mod_eq_of_lt (by omega)]
      have hrend : readEnd .release src.content.length crs.pos buf.1.length =
          .ok (crs.pos + buf.1.length - wordLimit) := by
        unfold readEnd
        rw [Build.release_add hover, Outcome.ok_bind, Outcome.pure_eq, hwrap,
          Nat.min_eq_right (by omega)]
      have hlen : (crs.pos + buf.1.length - wordLimit + wordLimit - crs.pos) %
          wordLimit = buf.1.length := by
        rw [Nat.sub_add_cancel (by omega), Nat.add_sub_cancel_left,
          Nat.mod_eq_of_lt hbuf]
      rw [hrend, lift_ok_bind, Build.release_sub (by omega), hlen,
        lift_ok_bind, if_pos (by omega), Slice.range_of_le (Nat.zero_le _) le_rfl,
        lift_ok_bind]
      cases hread : cache.read crs.pos buf.1.length with
      | ok data =>
          have hin := (cache.right _ _ _ (by omega) hread).1
          omega
      | error e => simp

theorem soundRead (build : Build) (cache : CacheAnswer src) (buf : Buffer)
    (hpos : crs.pos ≤ src.content.length) :
    SoundRead build crs cache buf := by
  by_cases hfits : crs.pos + buf.1.length < wordLimit
  swap
  · obtain ⟨hsame, hnot⟩ := readFrom_of_not_fits build cache hpos hfits
    exact ⟨fun n out hok => absurd hok (hnot _), fun _ => hsame⟩
  have hread := readFrom_of_fits build cache hpos hfits
  constructor
  · intro n out hok
    rw [hread] at hok ⊢
    split_ifs at hok ⊢ with hzero
    · cases hcache : cache.read crs.pos (readCount src crs buf) with
      | error e => simp [hcache] at hok
      | ok data =>
          simp only [hcache, Outcome.ok.injEq, Prod.mk.injEq] at hok
          obtain ⟨rfl, rfl⟩ := hok
          refine ⟨rfl, ?_, rfl⟩
          rw [(cache.right _ _ _ hzero hcache).2]
    · obtain ⟨rfl, rfl⟩ : 0 = n ∧ buf.1 = out := by simpa using hok
      exact ⟨(Nat.eq_zero_of_not_pos hzero).symm, by simp, rfl⟩
  · intro hnot
    rw [hread] at hnot ⊢
    split_ifs at hnot ⊢ with hzero
    · cases hcache : cache.read crs.pos (readCount src crs buf) with
      | error e => rfl
      | ok data => exact absurd rfl (hcache ▸ hnot _)
    · rfl

theorem clamped_iff (hpos : crs.pos ≤ src.content.length) :
    Clamped build crs cache buf ↔ crs.pos + buf.1.length < wordLimit := by
  constructor
  · intro h
    by_contra hover
    obtain ⟨rend, hrend, hle⟩ := h.rend
    exact absurd (lt_of_readEnd hover buf.2 hrend) (by omega)
  · intro hfits
    have hread := readFrom_of_fits build cache hpos hfits
    refine ⟨⟨_, readEnd_of_fits hfits, by omega⟩, ?_, ?_⟩
    · rw [hread]
      split_ifs with hzero
      · cases cache.read crs.pos (readCount src crs buf) with
        | ok data => exact Or.inl ⟨_, rfl⟩
        | error e => exact Or.inr ⟨_, rfl⟩
      · exact Or.inl ⟨_, rfl⟩
    · rintro data (hzero | hcache)
      · rw [hread, if_neg (by omega)]
        exact ⟨_, rfl⟩
      · rw [hread]
        split_ifs
        · rw [hcache]
          exact ⟨_, rfl⟩
        · exact ⟨_, rfl⟩

theorem seekPos_eq {send : ℕ} (hsend : send < wordLimit) (base : ℕ)
    (offset : ℤ) :
    seekPos send base offset =
      if 0 ≤ base + offset ∧ base + offset ≤ send then
        .ok (base + offset).toNat
      else if 0 ≤ base + offset ∧ base + offset < wordLimit then
        .error .seekPastEnd
      else .error .seekBeforeStart := by
  unfold seekPos checkedAddSigned
  by_cases hword : 0 ≤ base + offset ∧ base + offset < wordLimit
  · rw [if_pos hword, if_pos hword]
    simp only
    by_cases hin : base + offset ≤ send
    · rw [if_pos (by omega), if_pos ⟨hword.1, hin⟩]
    · rw [if_neg (by omega), if_neg (by omega)]
  · rw [if_neg hword, if_neg hword, if_neg (by omega)]

/-- A seek goes to its target if that is a position of the source. -/
theorem seekIn_eq (src : Source) (dest : SeekFrom) (crs : CacheReadSeek) :
    seekIn src dest crs =
      if 0 ≤ target src crs dest ∧
          target src crs dest ≤ src.content.length then
        (.ok (target src crs dest).toNat, ⟨(target src crs dest).toNat⟩)
      else if 0 ≤ target src crs dest ∧ target src crs dest < wordLimit then
        (.error .seekPastEnd, crs)
      else (.error .seekBeforeStart, crs) := by
  have hmove : ∀ base offset, target src crs dest = (base : ℕ) + offset →
      (lift (seekPos src.content.length base offset) >>= fun next =>
        setPos next >>= fun _ => getPos) crs =
      if 0 ≤ target src crs dest ∧
          target src crs dest ≤ src.content.length then
        (.ok (target src crs dest).toNat, ⟨(target src crs dest).toNat⟩)
      else if 0 ≤ target src crs dest ∧ target src crs dest < wordLimit then
        (.error .seekPastEnd, crs)
      else (.error .seekBeforeStart, crs) := by
    intro base offset htarget
    rw [htarget, seekPos_eq src.length_lt]
    split_ifs
    · simp
    · simp
    · simp
  unfold seekIn seek
  simp only [Outcome.ofExcept_ok, lift_ok_bind, getPos_bind]
  cases dest with
  | start n => exact hmove n 0 (Int.add_zero _).symm
  | fromEnd n => exact hmove _ n rfl
  | current n => exact hmove _ n rfl

theorem soundSeek (src : Source) (dest : SeekFrom) (crs : CacheReadSeek) :
    SoundSeek src crs dest := by
  have hseek := seekIn_eq src dest crs
  by_cases hin : 0 ≤ target src crs dest ∧
      target src crs dest ≤ src.content.length
  · rw [if_pos hin] at hseek
    refine ⟨⟨fun _ => hin, fun _ => ⟨_, by rw [hseek]⟩⟩, ?_, ?_⟩
    · intro n hok
      obtain rfl : (target src crs dest).toNat = n := by simpa [hseek] using hok
      exact ⟨Int.toNat_of_nonneg hin.1, by rw [hseek]⟩
    · intro hnot
      exact absurd (by rw [hseek]) (hnot (target src crs dest).toNat)
  · rw [if_neg hin] at hseek
    have herror : ∃ e, seekIn src dest crs = (.error e, crs) := by
      rw [hseek]
      split_ifs
      · exact ⟨_, rfl⟩
      · exact ⟨_, rfl⟩
    obtain ⟨e, he⟩ := herror
    rw [he] at hseek
    refine ⟨⟨?_, fun h => absurd h hin⟩, ?_, fun _ => by rw [he]⟩
    · rintro ⟨n, hok⟩
      simp [he] at hok
    · intro n hok
      simp [he] at hok

/-! ## Runs -/

theorem sound (hpos : crs.pos ≤ src.content.length) (op : CursorOp src) :
    Sound build crs op := by
  cases op with
  | read cache buf => exact soundRead build cache buf hpos
  | seek dest => exact soundSeek src dest crs

theorem bounded_iff (hpos : crs.pos ≤ src.content.length)
    (op : CursorOp src) : Bounded build crs op ↔ Fits crs op := by
  cases op with
  | read cache buf =>
      constructor
      · exact fun h => (clamped_iff hpos).mp h.2
      · exact fun h => ⟨soundRead build cache buf hpos, (clamped_iff hpos).mpr h⟩
  | seek dest => exact iff_of_true (soundSeek src dest crs) trivial

/-- No operation leaves the source, whatever its arithmetic does. -/
theorem perform_pos_le (hpos : crs.pos ≤ src.content.length)
    (op : CursorOp src) :
    (perform build crs op).pos ≤ src.content.length := by
  cases op with
  | read cache buf =>
      have h := soundRead build cache buf hpos
      change (readFrom build cache buf crs).2.pos ≤ src.content.length
      by_cases hok : ∃ n out, (readFrom build cache buf crs).1 = .ok (n, out)
      · obtain ⟨n, out, hok⟩ := hok
        obtain ⟨hn, -, hmoved⟩ := h.of_ok n out hok
        have hroom : readCount src crs buf ≤ src.content.length - crs.pos :=
          Nat.min_le_right _ _
        omega
      · have hsame := h.of_not_ok fun result hresult =>
          hok ⟨result.1, result.2, hresult⟩
        rw [hsame]
        exact hpos
  | seek dest =>
      have h := soundSeek src dest crs
      change (seekIn src dest crs).2.pos ≤ src.content.length
      by_cases hok : ∃ n, (seekIn src dest crs).1 = .ok n
      · have hin := h.ok_iff.mp hok
        obtain ⟨n, hok⟩ := hok
        obtain ⟨htarget, hmoved⟩ := h.of_ok n hok
        omega
      · rw [h.of_not_ok (not_exists.mp hok)]
        exact hpos

theorem run_pos_le (build : Build) (ops : List (CursorOp src)) :
    (run build ops).pos ≤ src.content.length := by
  induction ops using List.reverseRecOn with
  | nil => exact Nat.zero_le _
  | append_singleton ops op ih =>
      have hstep : run build (ops ++ [op]) = perform build (run build ops) op := by
        simp [run]
      rw [hstep]
      exact perform_pos_le ih op

/-- Over every run the position stays within the source, an operation which
succeeds has done what a bounded cursor does, and one which fails has moved
nothing.  All operations are those of a bounded cursor exactly if the end of
every buffer is a word. -/
theorem cursor_bounded_iff (build : Build) (src : Source)
    (ops : List (CursorOp src)) :
    (run build ops).pos ≤ src.content.length ∧
      Along build (Sound build) ops ∧
      (Along build (Bounded build) ops ↔ Along build Fits ops) := by
  refine ⟨run_pos_le build ops, ?_, ?_⟩
  · exact fun before op _ _ => sound (run_pos_le build before) op
  · constructor
    · intro h before op after hops
      exact (bounded_iff (run_pos_le build before) op).mp (h before op after hops)
    · intro h before op after hops
      exact (bounded_iff (run_pos_le build before) op).mpr (h before op after hops)

theorem perform_seek (dest : SeekFrom) :
    perform build crs (.seek dest : CursorOp src) = (seekIn src dest crs).2 :=
  rfl

theorem run_seek_start (build : Build) {pos : ℕ}
    (hpos : pos ≤ src.content.length) :
    run build [(.seek (.start pos) : CursorOp src)] = ⟨pos⟩ := by
  have htarget : target src new (.start pos) = pos := rfl
  rw [run, List.foldl_cons, List.foldl_nil, perform_seek, seekIn_eq, htarget,
    if_pos (by omega), Int.toNat_natCast]

theorem readFrom_dev (hover : ¬ crs.pos + buf.1.length < wordLimit) :
    (readFrom .dev cache buf crs).1 = .panic .addOverflow := by
  unfold readFrom read readEnd
  simp only [Outcome.ofExcept_ok, lift_ok_bind, getPos_bind,
    Build.dev_add hover, Outcome.panic_bind, lift_panic_bind]

/-- A cache which always delivers. -/
def wholeAnswer (src : Source) : CacheAnswer src where
  read pos len :=
    if pos + len ≤ src.content.length then
      .ok (Slice.window src.content pos len)
    else .error .unexpectedEof
  right := by
    intro pos len out _ hread
    split_ifs at hread with hin
    exact ⟨hin, (Except.ok.inj hread).symm⟩

theorem wholeAnswer_read {pos len : ℕ}
    (h : pos + len ≤ src.content.length) :
    (wholeAnswer src).read pos len =
      .ok (Slice.window src.content pos len) :=
  if_pos h

theorem length_replicate_lt :
    (List.replicate (wordLimit - 1) (0 : UInt8)).length < wordLimit :=
  List.length_replicate.trans_lt
    (Nat.sub_lt (Nat.two_pow_pos 64) Nat.one_pos)

/-- As many bytes as a word counts. -/
def longSource : Source where
  content := List.replicate (wordLimit - 1) 0
  length_lt := length_replicate_lt

theorem length_pair_lt : ([0, 0] : Bytes).length < wordLimit := by decide

def twoBytes : Buffer := ⟨[0, 0], length_pair_lt⟩

/-- One byte in front of its end a read into two bytes panics, and where the
sum wraps it asks for more bytes than there are. -/
theorem read_at_last_byte_overflows :
    let sought : List (CursorOp longSource) := [.seek (.start (wordLimit - 2))]
    (∀ build, (run build sought).pos = wordLimit - 2) ∧
      (readFrom .dev (wholeAnswer longSource) twoBytes (run .dev sought)).1 =
        .panic .addOverflow ∧
      (∃ data, (wholeAnswer longSource).read (wordLimit - 2) 1 = .ok data) ∧
      (∀ out, (readFrom .release (wholeAnswer longSource) twoBytes
        (run .release sought)).1 ≠ .ok out) ∧
      ∀ build, ¬ Along build (Bounded build)
        (sought ++ [.read (wholeAnswer longSource) twoBytes]) := by
  intro sought
  have hlong : longSource.content.length = wordLimit - 1 :=
    List.length_replicate
  have hpos : wordLimit - 2 ≤ longSource.content.length := by
    rw [hlong]
    omega
  have hbytes : twoBytes.1.length = 2 := rfl
  have hover : ¬ wordLimit - 2 + twoBytes.1.length < wordLimit := by
    rw [hbytes]
    omega
  have hrun : ∀ build, run build sought = ⟨wordLimit - 2⟩ :=
    fun build => run_seek_start build hpos
  refine ⟨fun build => by rw [hrun], ?_, ⟨_, wholeAnswer_read ?_⟩, ?_, ?_⟩
  · rw [hrun]
    exact readFrom_dev hover
  · have hword : 2 ≤ wordLimit := by decide
    rw [hlong]
    omega
  · rw [hrun]
    exact (readFrom_of_not_fits _ _ hpos hover).2
  · intro build h
    have hbounded := h sought _ [] rfl
    rw [hrun] at hbounded
    exact hover ((bounded_iff hpos _).mp hbounded)

end CacheReadSeek

/-! ## Backing files -/

namespace BackingFile

open CacheReadSeek

variable {build : Build} {file : BackingFile} {crs : CacheReadSeek}
  {buf : Buffer} {pos back : ℕ}

theorem add_le_of_readExact {file : BackingFile} {pos len : ℕ} {out : Bytes}
    (hlen : 0 < len) (h : file.readExact pos len = .ok out) :
    pos + len ≤ file.content.length := by
  have hlast := ((readExact_eq_ok h).2 (len - 1) (by omega)).2
  omega

/-- The source and the cache that a backing file stands for. -/
def source (file : BackingFile) (hend : file.content.length < wordLimit) :
    Source :=
  ⟨file.content, hend⟩

def answer (file : BackingFile) (hend : file.content.length < wordLimit) :
    CacheAnswer (file.source hend) where
  read := file.readExact
  right _ _ _ hlen hread :=
    ⟨add_le_of_readExact hlen hread, eq_window_of_readExact hread⟩

/-- Filling a buffer from a backing file is a read of the cursor. -/
theorem readFrom_eq_readSome (hend : file.content.length < wordLimit)
    (hpos : crs.pos ≤ file.content.length)
    (hfits : crs.pos + buf.1.length < wordLimit) :
    (readFrom build (file.answer hend) buf crs).1 =
      (Outcome.ofExcept (file.readSome crs.pos buf.1.length)).map
        fun data => (data.length, data ++ buf.1.drop data.length) := by
  have hcount : readCount (file.source hend) crs buf =
      min buf.1.length (file.content.length - crs.pos) := rfl
  rw [readFrom_of_fits build (file.answer hend) hpos hfits]
  unfold readSome
  rw [← hcount]
  split_ifs with hzero
  · have hanswer : (file.answer hend).read = file.readExact := rfl
    rw [hanswer]
    cases hread : file.readExact crs.pos
        (readCount (file.source hend) crs buf) with
    | ok data =>
        rw [← (readExact_eq_ok hread).1]
        rfl
    | error e => rfl
  · rw [Nat.eq_zero_of_not_pos hzero]
    rfl

theorem seekIn_start_eq (hend : file.content.length < wordLimit)
    (hpos : pos < wordLimit) :
    seekIn (file.source hend) (.start pos) crs =
      match file.seek pos with
      | .ok _ => (.ok pos, ⟨pos⟩)
      | .error e => (.error e, crs) := by
  have htarget : target (file.source hend) crs (.start pos) = pos := rfl
  have hlength : (file.source hend).content.length = file.content.length := rfl
  rw [seekIn_eq, htarget, hlength]
  unfold BackingFile.seek
  by_cases hin : pos ≤ file.content.length
  · rw [if_pos (by omega), if_pos hin, Int.toNat_natCast]
  · rw [if_neg (by omega), if_neg hin, if_pos (by omega)]

theorem seekIn_fromEnd_eq (hend : file.content.length < wordLimit) :
    seekIn (file.source hend) (.fromEnd (-back)) crs =
      match file.seekEnd back with
      | .ok pos => (.ok pos, ⟨pos⟩)
      | .error e => (.error e, crs) := by
  have htarget : target (file.source hend) crs (.fromEnd (-back)) =
      (file.content.length : ℤ) - back := rfl
  have hlength : (file.source hend).content.length = file.content.length := rfl
  rw [seekIn_eq, htarget, hlength]
  unfold seekEnd
  by_cases hin : back ≤ file.content.length
  · rw [if_pos (by omega), if_pos hin]
    congr 2 <;> omega
  · rw [if_neg (by omega), if_neg hin, if_neg (by omega)]

/-- What a file says of reads and seeks is what a cursor on it does. -/
structure Simulates (build : Build) (file : BackingFile)
    (hend : file.content.length < wordLimit) (crs : CacheReadSeek) : Prop where
  read : ∀ buf : Buffer, crs.pos + buf.1.length < wordLimit →
    (readFrom build (file.answer hend) buf crs).1 =
      (Outcome.ofExcept (file.readSome crs.pos buf.1.length)).map
        fun data => (data.length, data ++ buf.1.drop data.length)
  seek : ∀ pos, pos < wordLimit →
    (seekIn (file.source hend) (.start pos) crs).1 =
      (Outcome.ofExcept (file.seek pos)).map fun _ => pos
  seekEnd : ∀ back : ℕ,
    (seekIn (file.source hend) (.fromEnd (-back)) crs).1 =
      Outcome.ofExcept (file.seekEnd back)
  within : ∀ dest,
    (seekIn (file.source hend) dest crs).2.pos ≤ file.content.length

/-- Every cursor in a file does what the file says, and stays in it. -/
theorem simulates (file : BackingFile) (build : Build)
    (hend : file.content.length < wordLimit)
    (hpos : crs.pos ≤ file.content.length) :
    Simulates build file hend crs where
  read := fun _ hfits => readFrom_eq_readSome hend hpos hfits
  seek := by
    intro pos hword
    rw [seekIn_start_eq hend hword]
    cases file.seek pos with
    | ok u => rfl
    | error e => rfl
  seekEnd := by
    intro back
    rw [seekIn_fromEnd_eq hend]
    cases file.seekEnd back with
    | ok pos => rfl
    | error e => rfl
  within := by
    intro dest
    change (perform build crs (.seek dest)).pos ≤ file.content.length
    exact perform_pos_le hpos (.seek dest)

end BackingFile

end ImageReader
