import ImageReader.E01HasherRuns
import ImageReader.E01WholeReads

/-!
# Verifying an E01 image

`e01verify` reads the image from its start to its end and hands each buffer to
a `MultiHasher`, whose workers hash it while the next one is read.  It then
compares the digests with the stored ones.  Whatever the order in which the
main thread, the tasks of its reads and the hashing workers take their steps,
the digests are those of the content, and the exit code says whether the stored
hashes are its hashes.
-/

namespace ImageReader
namespace E01
namespace Verify

open Hasher (UpdateStep FinalizeStep workerStep Good)

/-- The length of the buffers. -/
def bufLen : ℕ := 1048576

/-! ## The program -/

/-- Where the main thread is: `updating read` is between a read and the
advance of the offset. -/
inductive Main where
  | looping
  | updating (read : ℕ)
  | finalizing
  | failed (e : ReadError)
  | panicked
  | hashed
  deriving DecidableEq, Repr

/-- The main thread has come to an end. -/
def Main.Final : Main → Prop
  | .failed _ | .panicked | .hashed => True
  | .looping | .updating _ | .finalizing => False

structure State (n : ℕ) where
  main : Main
  offset : ℕ
  buf : Bytes
  reader : ReaderState
  calls : List UpdateCall
  hasher : Hasher.State n

def State.new (n : ℕ) : State n where
  main := .looping
  offset := 0
  buf := List.replicate bufLen 0
  reader := .new
  calls := []
  hasher := .new n

/-- The buffer which the last call of `update` has returned. -/
def returnedBuf (calls : List UpdateCall) (returned : List ℕ) : Bytes :=
  match returned.getLast? with
  | some (k + 1) => (calls[k]?.map (·.buf)).getD []
  | _ => List.replicate bufLen 0

section Steps

variable (build : Build) (zlib : Zlib) (sources : ℕ → WorkerSource)
  (reader : E01Reader) {n : ℕ} (htypes : Fin n → HashType)
  (digest : HashType → Bytes → Bytes)

/-- A read at the offset of the state comes to the result. -/
def Reads (s : State n)
    (r : ReadResult) (cache : SharedCache) : Prop :=
  s.main = .looping ∧ s.offset < reader.imageSize ∧
    Thread.Ends Thread.alone s.reader.decodedChunkCache
      (reader.readAtOffset build zlib sources s.reader.workerPool s.offset
        s.buf) r cache

/-- One step of the main thread or of a hashing worker. -/
inductive Step : State n → State n → Prop
  | read {s : State n} {read : ℕ} {filled : Bytes} {pool : List ReadWorker}
      {cache : SharedCache}
      (hreads : Reads build zlib sources reader s (.ok (read, filled), pool)
        cache) (hlen : read ≤ filled.length) :
      Step s { s with
        main := .updating read, reader := ⟨pool, cache⟩
        calls := s.calls ++ [⟨filled, read, hlen⟩] }
  -- a worker would slice past the end of the buffer
  | overrun {s : State n} {read : ℕ} {filled : Bytes}
      {pool : List ReadWorker} {cache : SharedCache}
      (hreads : Reads build zlib sources reader s (.ok (read, filled), pool)
        cache) (hlen : ¬ read ≤ filled.length) :
      Step s { s with main := .panicked, reader := ⟨pool, cache⟩ }
  | readFailed {s : State n} {e : ReadError} {pool : List ReadWorker}
      {cache : SharedCache}
      (hreads : Reads build zlib sources reader s (.error e, pool) cache) :
      Step s { s with main := .failed e, reader := ⟨pool, cache⟩ }
  | readPanicked {s : State n} {r : Outcome ReadError (ℕ × Bytes)}
      {pool : List ReadWorker} {cache : SharedCache}
      (hreads : Reads build zlib sources reader s (r, pool) cache)
      (hpanics : ¬ r.Returns) :
      Step s { s with main := .panicked, reader := ⟨pool, cache⟩ }
  | update {s : State n} {read : ℕ} {hasher : Hasher.State n}
      (hmain : s.main = .updating read)
      (hupdate : UpdateStep s.calls s.hasher hasher) :
      Step s { s with hasher }
  | updated {s : State n} {read offset : ℕ} (hmain : s.main = .updating read)
      (hidle : s.hasher.caller = .idle s.calls.length)
      (hadd : (build.add s.offset read : Outcome ReadError ℕ) = .ok offset) :
      Step s { s with
        main := .looping, offset
        buf := returnedBuf s.calls s.hasher.returned }
  | addPanicked {s : State n} {read : ℕ} {fault : Fault}
      (hmain : s.main = .updating read)
      (hidle : s.hasher.caller = .idle s.calls.length)
      (hadd : (build.add s.offset read : Outcome ReadError ℕ) =
        .panic fault) :
      Step s { s with main := .panicked }
  | updatePanicked {s : State n} {read : ℕ} (hmain : s.main = .updating read)
      (hcaller : s.hasher.caller = .panicked) :
      Step s { s with main := .panicked }
  | endOfImage {s : State n} (hmain : s.main = .looping)
      (hend : ¬ s.offset < reader.imageSize) :
      Step s { s with main := .finalizing }
  | finalize {s : State n} {hasher : Hasher.State n}
      (hmain : s.main = .finalizing)
      (hfinalize : FinalizeStep s.calls htypes digest s.hasher hasher) :
      Step s { s with hasher }
  | finalized {s : State n} (hmain : s.main = .finalizing)
      (hcaller : s.hasher.caller = .finished) :
      Step s { s with main := .hashed }
  | worker {s : State n} {i : Fin n} {worker : Hasher.Worker}
      (hworker : workerStep s.calls (s.hasher.workers i) = some worker) :
      Step s { s with hasher := s.hasher.setWorker i worker }

/-- The states of a run of the verifier. -/
def Reachable (s : State n) : Prop :=
  Relation.ReflTransGen (Step build zlib sources reader htypes digest)
    (State.new n) s

end Steps

/-- `stored_md5` and `stored_sha1` of the reader. -/
structure StoredHashes where
  md5 : Option (Vector UInt8 16)
  sha1 : Option (Vector UInt8 20)
  deriving DecidableEq, Repr

/-- Without a stored hash any computed one will do. -/
def checkHash (hashAct hashExp : Option Bytes) : Option Bool :=
  match hashAct, hashExp with
  | some hashAct, some hashExp => some (decide (hashAct = hashExp))
  | some _, none => some true
  | none, _ => none

inductive ExitCode where
  | success
  | failure
  deriving DecidableEq, Repr

/-- All checks that were made, if any. -/
def combine : Option Bool → Option Bool → Option Bool
  | some l, some r => some (l && r)
  | some l, none => some l
  | none, r => r

def check (stored : StoredHashes) (hashes : List (HashType × Bytes)) :
    Option Bool :=
  let md5Check := checkHash (hashes.lookup .md5)
    (stored.md5.map Vector.toList)
  let sha1Check := checkHash (hashes.lookup .sha1)
    (stored.sha1.map Vector.toList)
  combine md5Check sha1Check

def exitCode : Option Bool → ExitCode
  | some false => .failure
  | some true => .success
  | none => .success

/-- The hash types of the workers are the ones asked for and the stored ones,
each of them once. -/
structure Wanted (extra : List HashType) (stored : StoredHashes) {n : ℕ}
    (htypes : Fin n → HashType) : Prop where
  injective : Function.Injective htypes
  mem_iff : ∀ htype, (∃ i, htypes i = htype) ↔ htype ∈ extra ∨
    (htype = .md5 ∧ stored.md5.isSome = true) ∨
    htype = .sha1 ∧ stored.sha1.isSome = true

/-! ## The hasher next to the main thread -/

section Hashers

variable {n : ℕ} {htypes : Fin n → HashType}
  {digest : HashType → Bytes → Bytes} {calls : List UpdateCall}
  {s s' : Hasher.State n}

/-- Without a worker `update` gives back the buffer it is given. -/
structure Unhashed (calls : List UpdateCall) (s : Hasher.State n) : Prop where
  digests : s.digests = []
  returned : ∀ k ∈ s.returned, k ≤ calls.length
  caller : (∃ k ≤ calls.length, s.caller = .idle k) ∨
    s.caller = .droppingFull 0 ∨ s.caller = .finished

/-- The invariant of the hasher, with workers or without. -/
def Sound (calls : List UpdateCall) (htypes : Fin n → HashType)
    (digest : HashType → Bytes → Bytes) (s : Hasher.State n) : Prop :=
  (0 < n ∧ Good calls htypes digest s) ∨ n = 0 ∧ Unhashed calls s

theorem sound_new (htypes : Fin n → HashType)
    (digest : HashType → Bytes → Bytes) :
    Sound [] htypes digest (.new n) := by
  rcases Nat.eq_zero_or_pos n with hzero | hpos
  · exact Or.inr ⟨hzero, rfl, by simp [Hasher.State.new],
      Or.inl ⟨0, le_rfl, rfl⟩⟩
  · exact Or.inl ⟨hpos, Hasher.good_new [] htypes digest⟩

theorem Unhashed.updateStep (h : Unhashed calls s) (hn : n = 0)
    (hstep : UpdateStep calls s s') : Unhashed calls s' := by
  have hcaller' := h.caller
  subst hn
  cases hstep with
  | @unhashed k hcaller hk hnone =>
      refine ⟨h.digests, ?_, Or.inl ⟨k + 1, hk, rfl⟩⟩
      intro j hj
      rcases List.mem_append.mp hj with hold | hnew
      · exact h.returned j hold
      · rw [List.mem_singleton.mp hnew]
        exact hk
  | enter hcaller hk hsome => exact absurd hsome (Nat.lt_irrefl 0)
  | @send k i => exact i.elim0
  | @sendClosed k i => exact i.elim0
  | sent hcaller => simp [hcaller] at hcaller'
  | @recv k buf i => exact i.elim0
  | @recvClosed k i => exact i.elim0
  | intoInner hcaller => simp [hcaller] at hcaller'
  | notInner hcaller => simp [hcaller] at hcaller'

theorem Unhashed.finalizeStep (h : Unhashed calls s) (hn : n = 0)
    (hstep : FinalizeStep calls htypes digest s s') : Unhashed calls s' := by
  subst hn
  cases hstep with
  | enter hcaller => exact ⟨h.digests, h.returned, Or.inr (Or.inl rfl)⟩
  | @dropFull i => exact i.elim0
  | @dropEmpty i => exact i.elim0
  | @join i => exact i.elim0
  | finish hcaller => exact ⟨h.digests, h.returned, Or.inr (Or.inr rfl)⟩

theorem Sound.updateStep (h : Sound calls htypes digest s)
    (hstep : UpdateStep calls s s') : Sound calls htypes digest s' := by
  rcases h with ⟨hn, h⟩ | ⟨hn, h⟩
  · exact Or.inl ⟨hn, h.updateStep hn hstep⟩
  · exact Or.inr ⟨hn, h.updateStep hn hstep⟩

theorem Sound.finalizeStep (h : Sound calls htypes digest s)
    (hstep : FinalizeStep calls htypes digest s s') :
    Sound calls htypes digest s' := by
  rcases h with ⟨hn, h⟩ | ⟨hn, h⟩
  · exact Or.inl ⟨hn, h.finalizeStep hstep⟩
  · exact Or.inr ⟨hn, h.finalizeStep hn hstep⟩

theorem Sound.workerStep (h : Sound calls htypes digest s) {i : Fin n}
    {worker : Hasher.Worker}
    (hstep : workerStep calls (s.workers i) = some worker) :
    Sound calls htypes digest (s.setWorker i worker) := by
  rcases h with ⟨hn, h⟩ | ⟨hn, h⟩
  · exact Or.inl ⟨hn, h.workerStep hstep⟩
  · subst hn
    exact i.elim0

/-- What the calls before a further one have given stays. -/
theorem fed_concat (calls : List UpdateCall) (call : UpdateCall) {k : ℕ}
    (hk : k ≤ calls.length) :
    Hasher.fed (calls ++ [call]) k = Hasher.fed calls k := by
  unfold Hasher.fed
  rw [List.take_append_of_le_length hk]

theorem bufferLen_concat (calls : List UpdateCall) (call : UpdateCall) {k : ℕ}
    (hk : k ≤ calls.length) :
    Hasher.bufferLen (calls ++ [call]) k = Hasher.bufferLen calls k := by
  cases k with
  | zero => rfl
  | succ k =>
      unfold Hasher.bufferLen
      simp only
      rw [List.getElem?_append_left hk]

theorem oneUnderway_concat {call : UpdateCall} {k : ℕ} {w : Hasher.Worker}
    (hk : k ≤ calls.length) (h : Hasher.OneUnderway calls k w) :
    Hasher.OneUnderway (calls ++ [call]) k w := by
  have hlen := bufferLen_concat calls call hk
  have hfed := fed_concat calls call hk
  have hfed' := fed_concat calls call ((Nat.sub_le k 1).trans hk)
  cases h with
  | full =>
      rw [← hlen, ← hfed']
      exact .full
  | hashing =>
      rw [← hlen, ← hfed']
      exact .hashing
  | returning =>
      rw [← hfed]
      exact .returning
  | empty =>
      rw [← hfed]
      exact .empty

/-- The main thread may make a further call while the workers are busy with the
last one. -/
theorem Sound.concat (h : Sound calls htypes digest s)
    (hidle : s.caller = .idle calls.length) (call : UpdateCall) :
    Sound (calls ++ [call]) htypes digest s := by
  have hle : calls.length ≤ (calls ++ [call]).length := by
    rw [List.length_append]
    exact Nat.le_add_right _ _
  rcases h with ⟨hn, h⟩ | ⟨hn, h⟩
  · refine Or.inl ⟨hn, ?_, ?_⟩
    · intro i
      have hworker := h.workers i
      rw [hidle] at hworker ⊢
      exact oneUnderway_concat le_rfl hworker
    · have hcaller := h.caller
      rw [hidle] at hcaller ⊢
      exact ⟨hle, hcaller.2⟩
  · exact Or.inr ⟨hn, h.digests, fun k hk => (h.returned k hk).trans hle,
      Or.inl ⟨_, hle, hidle⟩⟩

theorem Sound.not_panicked (h : Sound calls htypes digest s) :
    s.caller ≠ .panicked := by
  intro hpanicked
  rcases h with ⟨-, h⟩ | ⟨-, h⟩
  · have hcaller := h.caller
    rw [hpanicked] at hcaller
    exact hcaller
  · have hcaller := h.caller
    simp [hpanicked] at hcaller

theorem Sound.digests_eq (h : Sound calls htypes digest s)
    (hfinished : s.caller = .finished) :
    s.digests = Hasher.allDigests calls htypes digest := by
  rcases h with ⟨-, h⟩ | ⟨hn, h⟩
  · have hcaller := h.caller
    rw [hfinished] at hcaller
    exact hcaller.2
  · subst hn
    rw [h.digests]
    rfl

/-- A returned buffer was given to a call, or to `new`. -/
theorem Sound.returned_le (h : Sound calls htypes digest s)
    (hidle : s.caller = .idle calls.length) :
    ∀ k ∈ s.returned, k ≤ calls.length := by
  rcases h with ⟨-, h⟩ | ⟨-, h⟩
  · have hcaller := h.caller
    rw [hidle] at hcaller
    intro k hk
    rw [hcaller.2.1] at hk
    exact (List.mem_range.mp hk).le
  · exact h.returned

theorem length_returnedBuf {returned : List ℕ}
    (hcalls : ∀ call ∈ calls, call.buf.length = bufLen)
    (hreturned : ∀ k ∈ returned, k ≤ calls.length) :
    (returnedBuf calls returned).length = bufLen := by
  unfold returnedBuf
  rcases hlast : returned.getLast? with _ | _ | k
  · simp
  · simp
  · have hk : k + 1 ≤ calls.length :=
      hreturned _ (List.mem_of_getLast? hlast)
    simp only
    rw [List.getElem?_eq_getElem hk]
    exact hcalls _ (List.getElem_mem hk)

end Hashers

/-! ## The invariant -/

section Invariant

variable {build : Build} {zlib : Zlib} {sources : ℕ → WorkerSource}
  {reader : E01Reader} {n : ℕ} {htypes : Fin n → HashType}
  {digest : HashType → Bytes → Bytes} {s s' : State n}

/-- The caller of the hasher is in `update`, or has made no call yet. -/
def InUpdate : Hasher.Caller → Prop
  | .idle _ | .sending _ _ | .receiving _ _ _ => True
  | _ => False

/-- The caller of the hasher has made all calls and is in `finalize`. -/
def InFinalize (calls : List UpdateCall) : Hasher.Caller → Prop
  | .idle k => k = calls.length
  | .droppingFull _ | .droppingEmpty _ | .joining _ | .finished => True
  | _ => False

/-- The calls have been given all that was read, in order. -/
structure ReadSoFar (zlib : Zlib) (sources : ℕ → WorkerSource)
    (reader : E01Reader) (calls : List UpdateCall) (upTo : ℕ) : Prop where
  le : upTo ≤ reader.imageSize
  fed_eq : Hasher.fed calls calls.length =
    (reader.content zlib sources).take upTo
  buf_length : ∀ call ∈ calls, call.buf.length = bufLen

/-- What holds by where the main thread is. -/
def MainAt (zlib : Zlib) (sources : ℕ → WorkerSource) (reader : E01Reader)
    (s : State n) : Main → Prop
  | .looping => s.hasher.caller = .idle s.calls.length ∧
      ReadSoFar zlib sources reader s.calls s.offset ∧
      s.buf.length = bufLen ∧ AllWhole s.reader.workerPool
  | .updating read => InUpdate s.hasher.caller ∧ 0 < read ∧
      ReadSoFar zlib sources reader s.calls (s.offset + read) ∧
      AllWhole s.reader.workerPool
  | .finalizing => InFinalize s.calls s.hasher.caller ∧
      ReadSoFar zlib sources reader s.calls reader.imageSize
  | .failed _ => ∃ offset n, 0 < n ∧ offset + n ≤ reader.imageSize ∧
      reader.SomeFails zlib sources offset n
  | .panicked => False
  | .hashed => s.hasher.caller = .finished ∧
      ReadSoFar zlib sources reader s.calls reader.imageSize

structure Valid (zlib : Zlib) (sources : ℕ → WorkerSource)
    (reader : E01Reader) (htypes : Fin n → HashType)
    (digest : HashType → Bytes → Bytes) (s : State n) : Prop where
  hasher : Sound s.calls htypes digest s.hasher
  state : s.reader.Clean zlib sources reader
  main : MainAt zlib sources reader s s.main

theorem valid_new (htypes : Fin n → HashType)
    (digest : HashType → Bytes → Bytes) :
    Valid zlib sources reader htypes digest (.new n) where
  hasher := sound_new htypes digest
  state := ReaderState.clean_new
  main := ⟨rfl, ⟨Nat.zero_le _, by simp [State.new, Hasher.fed],
    by simp [State.new]⟩, by simp [State.new],
    by simp [AllWhole, State.new, ReaderState.new]⟩

theorem fed_concat_all (calls : List UpdateCall) (call : UpdateCall) :
    Hasher.fed (calls ++ [call]) (calls ++ [call]).length =
      Hasher.fed calls calls.length ++ call.buf.take call.len := by
  unfold Hasher.fed
  rw [List.take_length, List.take_length]
  simp

/-- What a read from the head of the loop may come to. -/
theorem Valid.reads (h : Valid zlib sources reader htypes digest s)
    (hreadable : reader.Readable zlib sources)
    (hfits : reader.imageSize + bufLen < wordLimit)
    {r : ReadResult} {cache : SharedCache}
    (hreads : Reads build zlib sources reader s r cache) :
    ReaderState.Clean zlib sources reader ⟨r.2, cache⟩ ∧
      ((∃ e, r.1 = .error e ∧ ∃ offset n, 0 < n ∧
          offset + n ≤ reader.imageSize ∧
          reader.SomeFails zlib sources offset n) ∨
        ∃ read filled, r.1 = .ok (read, filled) ∧ 0 < read ∧
          s.offset + read ≤ reader.imageSize ∧ filled.length = bufLen ∧
          read ≤ filled.length ∧ filled.take read =
            Slice.window (reader.content zlib sources) s.offset read ∧
          AllWhole r.2) := by
  obtain ⟨hmain, hmore, hends⟩ := hreads
  have hat := h.main
  rw [hmain] at hat
  obtain ⟨-, -, hbuf, hwhole⟩ := hat
  obtain ⟨hcache, ⟨hread, hpool⟩, hafter⟩ := hends.keeps
    (fun _ _ h => h.elim) h.state.kept
    (hreadable.reads_whole build h.state.lendable hwhole hmore.le
      (by omega))
  refine ⟨E01Reader.Kept.clean hcache hpool, ?_⟩
  have hpos : 0 < bufLen := by decide
  obtain ⟨result, pool⟩ := r
  cases result with
  | ok v =>
      obtain ⟨read, filled⟩ := v
      obtain ⟨hcount, rfl⟩ := hread
      rw [E01Reader.length_content, hbuf] at hcount
      have hend : s.offset + read ≤ reader.imageSize := by omega
      have hwindow : (Slice.window (reader.content zlib sources) s.offset
          read).length = read :=
        Slice.length_window_of_le (by rwa [E01Reader.length_content])
      have hlength : (Slice.window (reader.content zlib sources) s.offset
          read ++ s.buf.drop read).length = bufLen := by
        rw [List.length_append, hwindow, List.length_drop, hbuf]
        omega
      exact Or.inr ⟨read, _, rfl, by omega, hend, hlength, by omega,
        List.take_left' hwindow, hafter ⟨_, rfl⟩⟩
  | error e =>
      refine Or.inl ⟨e, rfl, s.offset, _, ?_, ?_, hread⟩
      · rw [E01Reader.length_content]
        omega
      · rw [E01Reader.length_content]
        omega
  | panic fault => exact hread.elim
  | hang => exact hread.elim

theorem ReadSoFar.concat {calls : List UpdateCall} {offset read : ℕ}
    {filled : Bytes} (h : ReadSoFar zlib sources reader calls offset)
    (hend : offset + read ≤ reader.imageSize) (hlen : read ≤ filled.length)
    (hfilled : filled.length = bufLen)
    (hbytes : filled.take read =
      Slice.window (reader.content zlib sources) offset read) :
    ReadSoFar zlib sources reader (calls ++ [⟨filled, read, hlen⟩])
      (offset + read) where
  le := hend
  fed_eq := by
    rw [fed_concat_all, h.fed_eq, hbytes, Slice.window, List.take_add]
  buf_length := by
    intro call hcall
    rcases List.mem_append.mp hcall with hold | hnew
    · exact h.buf_length call hold
    · rw [List.mem_singleton.mp hnew]
      exact hfilled

theorem InUpdate.updateStep {calls : List UpdateCall} {h h' : Hasher.State n}
    (hsound : Sound calls htypes digest h') (hstep : UpdateStep calls h h') :
    InUpdate h'.caller := by
  have hpanics := hsound.not_panicked
  cases hstep with
  | unhashed hcaller hk hnone => trivial
  | enter hcaller hk hsome => trivial
  | send hcaller hcall hlive hfull => trivial
  | sendClosed hcaller hdead => exact absurd rfl hpanics
  | sent hcaller => trivial
  | recv hcaller hempty => trivial
  | recvClosed hcaller hempty hdead => exact absurd rfl hpanics
  | intoInner hcaller hunique => trivial
  | notInner hcaller hshared => exact absurd rfl hpanics

theorem InFinalize.finalizeStep {calls : List UpdateCall}
    {h h' : Hasher.State n}
    (hstep : FinalizeStep calls htypes digest h h') :
    InFinalize calls h'.caller := by
  cases hstep <;> trivial

/-- A step of a hashing worker is none of the main thread's business. -/
theorem mainAt_setWorker {i : Fin n} {worker : Hasher.Worker} {main : Main}
    (h : MainAt zlib sources reader s main) :
    MainAt zlib sources reader
      { s with hasher := s.hasher.setWorker i worker } main := by
  cases main <;> exact h

theorem Valid.step (h : Valid zlib sources reader htypes digest s)
    (hreadable : reader.Readable zlib sources)
    (hfits : reader.imageSize + bufLen < wordLimit)
    (hstep : Step build zlib sources reader htypes digest s s') :
    Valid zlib sources reader htypes digest s' := by
  have hat := h.main
  cases hstep with
  | @read read filled pool cache hreads hlen =>
      obtain ⟨hreader, herror | ⟨read', filled', heq, hpos, hend, hfilled, -,
        hbytes, hwhole⟩⟩ := h.reads hreadable hfits hreads
      · obtain ⟨e, heq, -⟩ := herror
        simp at heq
      obtain ⟨rfl, rfl⟩ := Prod.mk.inj (Outcome.ok.inj heq)
      rw [hreads.1] at hat
      obtain ⟨hidle, hsofar, -, -⟩ := hat
      have hnow : InUpdate s.hasher.caller := by
        rw [hidle]
        trivial
      exact ⟨h.hasher.concat hidle _, hreader, hnow, hpos,
        hsofar.concat hend hlen hfilled hbytes, hwhole⟩
  | overrun hreads hlen =>
      obtain ⟨-, herror | ⟨read', filled', heq, -, -, -, hle, -⟩⟩ :=
        h.reads hreadable hfits hreads
      · obtain ⟨e, heq, -⟩ := herror
        simp at heq
      · obtain ⟨rfl, rfl⟩ := Prod.mk.inj (Outcome.ok.inj heq)
        exact absurd hle hlen
  | readFailed hreads =>
      obtain ⟨hreader, ⟨e, -, hfails⟩ | ⟨read', filled', heq, -⟩⟩ :=
        h.reads hreadable hfits hreads
      · exact ⟨h.hasher, hreader, hfails⟩
      · simp at heq
  | readPanicked hreads hpanics =>
      obtain ⟨-, ⟨e, heq, -⟩ | ⟨read', filled', heq, -⟩⟩ :=
        h.reads hreadable hfits hreads
      · simp only at heq
        exact absurd (heq ▸ Outcome.returns_error e) hpanics
      · simp only at heq
        exact absurd (heq ▸ Outcome.returns_ok _) hpanics
  | update hmain hupdate =>
      rw [hmain] at hat
      obtain ⟨-, hpos, hsofar, hwhole⟩ := hat
      have hsound := h.hasher.updateStep hupdate
      refine ⟨hsound, h.state, ?_⟩
      simp only [hmain]
      exact ⟨InUpdate.updateStep hsound hupdate, hpos, hsofar, hwhole⟩
  | updated hmain hidle hadd =>
      rw [hmain] at hat
      obtain ⟨-, hpos, hsofar, hwhole⟩ := hat
      have hle := hsofar.le
      rw [Build.add_of_lt (by omega)] at hadd
      obtain rfl := Outcome.ok.inj hadd
      exact ⟨h.hasher, h.state, hidle, hsofar,
        length_returnedBuf hsofar.buf_length (h.hasher.returned_le hidle),
        hwhole⟩
  | addPanicked hmain hidle hadd =>
      rw [hmain] at hat
      obtain ⟨-, hpos, hsofar, hwhole⟩ := hat
      have hle := hsofar.le
      rw [Build.add_of_lt (by omega)] at hadd
      simp at hadd
  | updatePanicked hmain hcaller =>
      exact absurd hcaller h.hasher.not_panicked
  | endOfImage hmain hend =>
      rw [hmain] at hat
      obtain ⟨hidle, hsofar, -, -⟩ := hat
      have hoffset : s.offset = reader.imageSize := by
        have hle := hsofar.le
        omega
      have hnow : InFinalize s.calls s.hasher.caller := by
        rw [hidle]
        rfl
      exact ⟨h.hasher, h.state, hnow, hoffset ▸ hsofar⟩
  | finalize hmain hfinalize =>
      rw [hmain] at hat
      refine ⟨h.hasher.finalizeStep hfinalize, h.state, ?_⟩
      simp only [hmain]
      exact ⟨InFinalize.finalizeStep hfinalize, hat.2⟩
  | finalized hmain hcaller =>
      rw [hmain] at hat
      exact ⟨h.hasher, h.state, hcaller, hat.2⟩
  | worker hworker =>
      exact ⟨h.hasher.workerStep hworker, h.state, mainAt_setWorker hat⟩

theorem Reachable.valid
    (h : Reachable build zlib sources reader htypes digest s)
    (hreadable : reader.Readable zlib sources)
    (hfits : reader.imageSize + bufLen < wordLimit) :
    Valid zlib sources reader htypes digest s := by
  induction h with
  | refl => exact valid_new htypes digest
  | tail _ hstep ih => exact ih.step hreadable hfits hstep

end Invariant

/-! ## The verdict -/

section Verdict

variable {zlib : Zlib} {sources : ℕ → WorkerSource} {reader : E01Reader}
  {n : ℕ} {htypes : Fin n → HashType} {digest : HashType → Bytes → Bytes}
  {extra : List HashType} {stored : StoredHashes}

/-- Some stored hash is not the one of the content. -/
def Mismatch (stored : StoredHashes) (digest : HashType → Bytes → Bytes)
    (content : Bytes) : Prop :=
  (∃ md5, stored.md5 = some md5 ∧ digest .md5 content ≠ md5.toList) ∨
    ∃ sha1, stored.sha1 = some sha1 ∧ digest .sha1 content ≠ sha1.toList

/-- The digests of the content, by hash type. -/
structure DigestsOf (htypes : Fin n → HashType)
    (digest : HashType → Bytes → Bytes) (content : Bytes)
    (digests : List (HashType × Bytes)) : Prop where
  found : ∀ i, digests.lookup (htypes i) = some (digest (htypes i) content)
  absent : ∀ htype, (∀ i, htypes i ≠ htype) → digests.lookup htype = none

theorem digestsOf_ofFn (htypes : Fin n → HashType)
    (digest : HashType → Bytes → Bytes) (content : Bytes) :
    DigestsOf htypes digest content
      (List.ofFn fun i => (htypes i, digest (htypes i) content)) where
  found i := by
    cases hlookup : (List.ofFn fun i =>
        (htypes i, digest (htypes i) content)).lookup (htypes i) with
    | none =>
        rw [List.lookup_eq_none_iff] at hlookup
        have hnot := hlookup _ (List.mem_ofFn.mpr ⟨i, rfl⟩)
        simp at hnot
    | some hash =>
        obtain ⟨front, back, hsplit, -⟩ := List.lookup_eq_some_iff.mp hlookup
        have hmem : (htypes i, hash) ∈ List.ofFn fun i =>
            (htypes i, digest (htypes i) content) := by
          rw [hsplit]
          simp
        obtain ⟨j, hj⟩ := List.mem_ofFn.mp hmem
        obtain ⟨hsame, rfl⟩ := Prod.mk.inj hj
        rw [hsame]
  absent htype hnone := by
    rw [List.lookup_eq_none_iff]
    intro pair hpair
    obtain ⟨i, rfl⟩ := List.mem_ofFn.mp hpair
    simpa using (hnone i).symm

/-- One check fails exactly when a stored hash is there and another one has
been computed. -/
theorem checkHash_eq_false_iff {hashAct hashExp : Option Bytes} :
    checkHash hashAct hashExp = some false ↔
      ∃ act exp, hashAct = some act ∧ hashExp = some exp ∧ act ≠ exp := by
  cases hashAct <;> cases hashExp <;> simp [checkHash]

theorem exitCode_eq_failure_iff {stored : StoredHashes}
    {hashes : List (HashType × Bytes)} :
    exitCode (check stored hashes) = .failure ↔
      checkHash (hashes.lookup .md5) (stored.md5.map Vector.toList) =
          some false ∨
        checkHash (hashes.lookup .sha1) (stored.sha1.map Vector.toList) =
          some false := by
  have hcombine : ∀ l r, exitCode (combine l r) = .failure ↔
      l = some false ∨ r = some false := by decide
  exact hcombine _ _

theorem exitCode_of_digests {content : Bytes}
    {digests : List (HashType × Bytes)} (hwanted : Wanted extra stored htypes)
    (h : DigestsOf htypes digest content digests) :
    exitCode (check stored digests) = .failure ↔
      Mismatch stored digest content := by
  rw [exitCode_eq_failure_iff, checkHash_eq_false_iff, checkHash_eq_false_iff]
  apply or_congr
  · constructor
    · rintro ⟨act, exp, hact, hexp, hne⟩
      obtain ⟨md5, hmd5, rfl⟩ := Option.map_eq_some_iff.mp hexp
      obtain ⟨i, hi⟩ := (hwanted.mem_iff .md5).mpr
        (Or.inr (Or.inl ⟨rfl, by rw [hmd5]; rfl⟩))
      have hfound := h.found i
      rw [hi, hact] at hfound
      exact ⟨md5, hmd5, Option.some.inj hfound ▸ hne⟩
    · rintro ⟨md5, hmd5, hne⟩
      obtain ⟨i, hi⟩ := (hwanted.mem_iff .md5).mpr
        (Or.inr (Or.inl ⟨rfl, by rw [hmd5]; rfl⟩))
      exact ⟨_, _, hi ▸ h.found i, by rw [hmd5]; rfl, hne⟩
  · constructor
    · rintro ⟨act, exp, hact, hexp, hne⟩
      obtain ⟨sha1, hsha1, rfl⟩ := Option.map_eq_some_iff.mp hexp
      obtain ⟨i, hi⟩ := (hwanted.mem_iff .sha1).mpr
        (Or.inr (Or.inr ⟨rfl, by rw [hsha1]; rfl⟩))
      have hfound := h.found i
      rw [hi, hact] at hfound
      exact ⟨sha1, hsha1, Option.some.inj hfound ▸ hne⟩
    · rintro ⟨sha1, hsha1, hne⟩
      obtain ⟨i, hi⟩ := (hwanted.mem_iff .sha1).mpr
        (Or.inr (Or.inr ⟨rfl, by rw [hsha1]; rfl⟩))
      exact ⟨_, _, hi ▸ h.found i, by rw [hsha1]; rfl, hne⟩

/-- When everything is hashed, the digests are the ones of the content. -/
theorem Valid.digestsOf {s : State n}
    (h : Valid zlib sources reader htypes digest s)
    (hhashed : s.main = .hashed) :
    DigestsOf htypes digest (reader.content zlib sources)
      s.hasher.digests := by
  have hat := h.main
  rw [hhashed] at hat
  obtain ⟨hfinished, hsofar⟩ := hat
  have hfed : Hasher.fed s.calls s.calls.length =
      reader.content zlib sources := by
    rw [hsofar.fed_eq, List.take_of_length_le]
    rw [E01Reader.length_content]
  rw [h.hasher.digests_eq hfinished]
  unfold Hasher.allDigests
  rw [hfed]
  exact digestsOf_ofFn htypes digest _

end Verdict

end Verify
end E01
end ImageReader
