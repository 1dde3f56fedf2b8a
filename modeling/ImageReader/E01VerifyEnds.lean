import ImageReader.E01Verify

/-!
# Every run of the verifier ends

A rank of the state goes down in every step.  It looks first at what is left of
the image, then at where the main thread is, then at where it is in a call of
the hasher, and last at what the hashing workers still have to do.  A state in
which the main thread has not ended always has a step, so that no run is stuck
before there is a verdict.  The verdict is the right one.
-/

namespace ImageReader
namespace E01
namespace Verify

open Hasher (UpdateStep FinalizeStep callerRank callerRank_updateStep
  callerRank_finalizeStep workerRank workerRank_step sum_workerRank_lt)

/-! ## The hasher -/

section Hashers

variable {n : ℕ} {htypes : Fin n → HashType}
  {digest : HashType → Bytes → Bytes} {calls : List UpdateCall}
  {s s' : Hasher.State n}

/-- Somebody can take a step, also when there is no worker. -/
theorem Sound.progress (h : Sound calls htypes digest s)
    (hrunning : s.caller ≠ .finished) :
    ∃ s', Hasher.Step calls htypes digest s s' := by
  rcases h with ⟨hn, h⟩ | ⟨hn, h⟩
  · exact h.progress hn hrunning
  · subst hn
    rcases h.caller with ⟨k, hk, hcaller⟩ | hcaller | hcaller
    · rcases Nat.lt_or_eq_of_le hk with hlt | rfl
      · exact ⟨_, .update (.unhashed hcaller hlt rfl)⟩
      · exact ⟨_, .finalize (.enter hcaller)⟩
    · exact ⟨_, .finalize (.finish hcaller)⟩
    · exact absurd hcaller hrunning

theorem not_inFinalize_of_updateStep (hstep : UpdateStep calls s s') :
    ¬ InFinalize calls s.caller := by
  intro h
  cases hstep with
  | unhashed hcaller hk hnone =>
      rw [hcaller] at h
      exact Nat.lt_irrefl _ (h ▸ hk)
  | enter hcaller hk hsome =>
      rw [hcaller] at h
      exact Nat.lt_irrefl _ (h ▸ hk)
  | send hcaller => exact (hcaller ▸ h :)
  | sendClosed hcaller => exact (hcaller ▸ h :)
  | sent hcaller => exact (hcaller ▸ h :)
  | recv hcaller => exact (hcaller ▸ h :)
  | recvClosed hcaller => exact (hcaller ▸ h :)
  | intoInner hcaller => exact (hcaller ▸ h :)
  | notInner hcaller => exact (hcaller ▸ h :)

theorem inFinalize_of_finalizeStep
    (hstep : FinalizeStep calls htypes digest s s') :
    InFinalize calls s.caller := by
  cases hstep with
  | enter hcaller => rw [hcaller]; rfl
  | dropFull hcaller => rw [hcaller]; trivial
  | dropEmpty hcaller => rw [hcaller]; trivial
  | join hcaller => rw [hcaller]; trivial
  | finish hcaller => rw [hcaller]; trivial

end Hashers

/-! ## Progress -/

section Ends

variable {build : Build} {zlib : Zlib} {sources : ℕ → WorkerSource}
  {reader : E01Reader} {n : ℕ} {htypes : Fin n → HashType}
  {digest : HashType → Bytes → Bytes} {s s' : State n}

/-- At the head of the loop the image is read on, or has been read. -/
theorem progress_looping (hmain : s.main = .looping) :
    ∃ s', Step build zlib sources reader htypes digest s s' := by
  by_cases hmore : s.offset < reader.imageSize
  · obtain ⟨⟨result, pool⟩, cache, hends⟩ := (readAtOffset_live build zlib
      sources reader s.reader.workerPool s.offset s.buf).ends Thread.alone
      s.reader.decodedChunkCache
    have hreads : Reads build zlib sources reader s (result, pool) cache :=
      ⟨hmain, hmore, hends⟩
    cases result with
    | ok v =>
        obtain ⟨read, filled⟩ := v
        by_cases hlen : read ≤ filled.length
        · exact ⟨_, .read hreads hlen⟩
        · exact ⟨_, .overrun hreads hlen⟩
    | error e => exact ⟨_, .readFailed hreads⟩
    | panic fault =>
        exact ⟨_, .readPanicked hreads (Outcome.not_returns_panic fault)⟩
    | hang => exact ⟨_, .readPanicked hreads Outcome.not_returns_hang⟩
  · exact ⟨_, .endOfImage hmain hmore⟩

/-- In a call of `update` the hasher can take a step, or has returned. -/
theorem Valid.progress_updating
    (h : Valid zlib sources reader htypes digest s)
    (hfits : reader.imageSize + bufLen < wordLimit) {read : ℕ}
    (hmain : s.main = .updating read) :
    ∃ s', Step build zlib sources reader htypes digest s s' := by
  have hat := h.main
  rw [hmain] at hat
  obtain ⟨hin, -, hsofar, -⟩ := hat
  by_cases hidle : s.hasher.caller = .idle s.calls.length
  · have hle := hsofar.le
    exact ⟨_, .updated hmain hidle (Build.add_of_lt (by omega))⟩
  have hrunning : s.hasher.caller ≠ .finished := by
    intro hfinished
    rw [hfinished] at hin
    exact hin
  obtain ⟨hasher, hstep⟩ := h.hasher.progress hrunning
  cases hstep with
  | update hupdate => exact ⟨_, .update hmain hupdate⟩
  | finalize hfinalize =>
      have hfinal := inFinalize_of_finalizeStep hfinalize
      cases hcaller : s.hasher.caller with
      | idle k =>
          rw [hcaller] at hfinal
          exact absurd (hcaller.trans (congrArg Hasher.Caller.idle hfinal))
            hidle
      | sending k j => exact ((hcaller ▸ hfinal :) : False).elim
      | receiving k j last => exact ((hcaller ▸ hfinal :) : False).elim
      | droppingFull j => exact ((hcaller ▸ hin :) : False).elim
      | droppingEmpty j => exact ((hcaller ▸ hin :) : False).elim
      | joining j => exact ((hcaller ▸ hin :) : False).elim
      | finished => exact absurd hcaller hrunning
      | panicked => exact ((hcaller ▸ hin :) : False).elim
  | worker hworker => exact ⟨_, .worker hworker⟩

/-- Behind the loop the hasher can take a step, or has finished. -/
theorem Valid.progress_finalizing
    (h : Valid zlib sources reader htypes digest s)
    (hmain : s.main = .finalizing) :
    ∃ s', Step build zlib sources reader htypes digest s s' := by
  have hat := h.main
  rw [hmain] at hat
  by_cases hfinished : s.hasher.caller = .finished
  · exact ⟨_, .finalized hmain hfinished⟩
  obtain ⟨hasher, hstep⟩ := h.hasher.progress hfinished
  cases hstep with
  | update hupdate =>
      exact absurd hat.1 (not_inFinalize_of_updateStep hupdate)
  | finalize hfinalize => exact ⟨_, .finalize hmain hfinalize⟩
  | worker hworker => exact ⟨_, .worker hworker⟩

theorem Valid.progress (h : Valid zlib sources reader htypes digest s)
    (hfits : reader.imageSize + bufLen < wordLimit)
    (hrunning : ¬ s.main.Final) :
    ∃ s', Step build zlib sources reader htypes digest s s' := by
  cases hmain : s.main with
  | looping => exact progress_looping hmain
  | updating read => exact h.progress_updating hfits hmain
  | finalizing => exact h.progress_finalizing hmain
  | failed e => exact absurd (by rw [hmain]; trivial) hrunning
  | panicked => exact absurd (by rw [hmain]; trivial) hrunning
  | hashed => exact absurd (by rw [hmain]; trivial) hrunning

/-! ## Termination -/

def mainRank : Main → ℕ
  | .looping => 3
  | .updating _ => 2
  | .finalizing => 1
  | .failed _ | .panicked | .hashed => 0

/-- What is left to do. -/
def rank (reader : E01Reader) (s : State n) : ℕ ×ₗ ℕ ×ₗ ℕ ×ₗ ℕ :=
  toLex (reader.imageSize - s.offset, toLex (mainRank s.main,
    toLex (callerRank n s.calls.length s.hasher.caller,
      ∑ i, workerRank (s.hasher.workers i))))

theorem rank_lt_of_offset (hlt : s.offset < s'.offset)
    (hle : s'.offset ≤ reader.imageSize) : rank reader s' < rank reader s :=
  Prod.Lex.toLex_lt_toLex.mpr (Or.inl (by
    simp only
    omega))

theorem rank_lt_of_main (hoffset : s'.offset = s.offset)
    (hlt : mainRank s'.main < mainRank s.main) :
    rank reader s' < rank reader s :=
  Prod.Lex.toLex_lt_toLex.mpr (Or.inr ⟨by rw [hoffset],
    Prod.Lex.toLex_lt_toLex.mpr (Or.inl hlt)⟩)

theorem rank_lt_of_caller {hasher : Hasher.State n}
    (hlt : callerRank n s.calls.length hasher.caller <
      callerRank n s.calls.length s.hasher.caller) :
    rank reader { s with hasher } < rank reader s :=
  Prod.Lex.toLex_lt_toLex.mpr (Or.inr ⟨rfl,
    Prod.Lex.toLex_lt_toLex.mpr (Or.inr ⟨rfl,
      Prod.Lex.toLex_lt_toLex.mpr (Or.inl hlt)⟩)⟩)

theorem rank_lt_of_worker {i : Fin n} {worker : Hasher.Worker}
    (hlt : workerRank worker < workerRank (s.hasher.workers i)) :
    rank reader { s with hasher := s.hasher.setWorker i worker } <
      rank reader s := by
  refine Prod.Lex.toLex_lt_toLex.mpr (Or.inr ⟨rfl,
    Prod.Lex.toLex_lt_toLex.mpr (Or.inr ⟨rfl,
      Prod.Lex.toLex_lt_toLex.mpr (Or.inr ⟨rfl, ?_⟩)⟩)⟩)
  exact sum_workerRank_lt hlt

theorem Valid.rank_lt (h : Valid zlib sources reader htypes digest s)
    (hfits : reader.imageSize + bufLen < wordLimit)
    (hstep : Step build zlib sources reader htypes digest s s') :
    rank reader s' < rank reader s := by
  cases hstep with
  | read hreads hlen =>
      exact rank_lt_of_main rfl (by simp [hreads.1, mainRank])
  | overrun hreads hlen =>
      exact rank_lt_of_main rfl (by simp [hreads.1, mainRank])
  | readFailed hreads =>
      exact rank_lt_of_main rfl (by simp [hreads.1, mainRank])
  | readPanicked hreads hpanics =>
      exact rank_lt_of_main rfl (by simp [hreads.1, mainRank])
  | update hmain hupdate =>
      exact rank_lt_of_caller (callerRank_updateStep hupdate)
  | updated hmain hidle hadd =>
      have hat := h.main
      rw [hmain] at hat
      obtain ⟨-, hpos, hsofar, -⟩ := hat
      have hle := hsofar.le
      rw [Build.add_of_lt (by omega)] at hadd
      obtain rfl := Outcome.ok.inj hadd
      exact rank_lt_of_offset (by simp only; omega) hle
  | addPanicked hmain hidle hadd =>
      exact rank_lt_of_main rfl (by simp [hmain, mainRank])
  | updatePanicked hmain hcaller =>
      exact rank_lt_of_main rfl (by simp [hmain, mainRank])
  | endOfImage hmain hend =>
      exact rank_lt_of_main rfl (by simp [hmain, mainRank])
  | finalize hmain hfinalize =>
      exact rank_lt_of_caller (callerRank_finalizeStep hfinalize)
  | finalized hmain hcaller =>
      exact rank_lt_of_main rfl (by simp [hmain, mainRank])
  | worker hworker => exact rank_lt_of_worker (workerRank_step hworker)

/-- From any state which is reached, an end is. -/
theorem Reachable.exists_final
    (hreach : Reachable build zlib sources reader htypes digest s)
    (hreadable : reader.Readable zlib sources)
    (hfits : reader.imageSize + bufLen < wordLimit) :
    ∃ s', Reachable build zlib sources reader htypes digest s' ∧
      s'.main.Final := by
  induction hrank : rank reader s using WellFoundedLT.induction
    generalizing s with
  | ind left ih =>
      subst hrank
      by_cases hfinal : s.main.Final
      · exact ⟨s, hreach, hfinal⟩
      · have hvalid := hreach.valid hreadable hfits
        obtain ⟨s', hstep⟩ := hvalid.progress hfits hfinal
        exact ih _ (hvalid.rank_lt hfits hstep) (hreach.tail hstep) rfl

/-! ## The verdict -/

/-- In every run of the verifier nothing panics, only a chunk which does not
decode makes it fail, and once everything is hashed, the digests are those of
the content, and the exit code says whether a stored hash is another one. -/
theorem verify_sound {extra : List HashType} {stored : StoredHashes}
    (hreadable : reader.Readable zlib sources)
    (hfits : reader.imageSize + bufLen < wordLimit)
    (hwanted : Wanted extra stored htypes)
    (hreach : Reachable build zlib sources reader htypes digest s) :
    s.main ≠ .panicked ∧
    (∀ e, s.main = .failed e → ∃ offset n, 0 < n ∧
      offset + n ≤ reader.imageSize ∧
      reader.SomeFails zlib sources offset n) ∧
    (s.main = .hashed →
      DigestsOf htypes digest (reader.content zlib sources)
        s.hasher.digests ∧
      (exitCode (check stored s.hasher.digests) = .failure ↔
        Mismatch stored digest (reader.content zlib sources))) := by
  have hvalid := hreach.valid hreadable hfits
  have hat := hvalid.main
  refine ⟨?_, ?_, ?_⟩
  · intro hpanicked
    rw [hpanicked] at hat
    exact hat
  · intro e hfailed
    rw [hfailed] at hat
    exact hat
  · intro hhashed
    have hdigests := hvalid.digestsOf hhashed
    exact ⟨hdigests, exitCode_of_digests hwanted hdigests⟩

/-- The reader of two chunks, with zeros for the one with the wrong
checksum. -/
def zeroingReader : E01Reader :=
  { twoChunkReader with options := ⟨.zero, false, false, false⟩ }

theorem zeroingReader_content :
    zeroingReader.content noStream (fun _ => twoChunkSource) = [0, 7] := by
  decide

theorem zeroingReader_decodes (offset n : ℕ) :
    ¬ zeroingReader.SomeFails noStream (fun _ => twoChunkSource) offset n := by
  rintro ⟨i, -, chunk, hchunk, hfails⟩
  obtain ⟨e, herror⟩ := hfails []
  have hmem : chunk ∈ [(⟨0, 0, 5, false⟩ : Chunk), ⟨0, 5, 10, false⟩] :=
    List.mem_of_getElem? hchunk
  have hpolicy : (zeroingReader.coding noStream).policy ≠ .error := by decide
  have haccepted : chunk.compressed = false ∧
      (zeroingReader.coding noStream).Bounded chunk ∧
      (zeroingReader.coding noStream).Accepted twoChunkSource chunk := by
    rcases List.mem_pair.mp hmem with rfl | rfl
    · exact ⟨rfl, by decide, by decide, _, rfl, fun h => absurd h hpolicy⟩
    · exact ⟨rfl, by decide, by decide, _, rfl, fun h => absurd h hpolicy⟩
  obtain ⟨payload, hpayload, -⟩ := (Coding.payload_uncompressed_iff
    haccepted.1 haccepted.2.1 twoChunkSource i [] fun _ => True).mpr
      ⟨haccepted.2.2, trivial⟩
  rw [hpayload] at herror
  simp at herror

/-- A digest which has the bytes of short contents. -/
def paddedDigest (_ : HashType) (bytes : Bytes) : Bytes :=
  bytes ++ List.replicate (16 - bytes.length) 0

/-- The MD5 hash, computed by one of two workers, is the stored one. -/
theorem verify_sound_zeroing :
    let stored : StoredHashes :=
      ⟨some #v[0, 7, 0, 0, 0, 0, 0, 0, 0, 0, 0, 0, 0, 0, 0, 0], none⟩
    ∃ s : State 2, Reachable .release noStream (fun _ => twoChunkSource)
        zeroingReader ![.md5, .sha1] paddedDigest s ∧
      s.main = .hashed ∧
      s.hasher.digests.lookup .md5 = some (paddedDigest .md5 [0, 7]) ∧
      exitCode (check stored s.hasher.digests) ≠ .failure := by
  intro stored
  have hreadable : zeroingReader.Readable noStream fun _ => twoChunkSource :=
    readable_twoChunks _
  have hwanted : Wanted [.sha1] stored ![.md5, .sha1] := by
    refine ⟨by decide, fun htype => ?_⟩
    rw [Fin.exists_fin_two]
    cases htype <;> simp [stored]
  have hstart : Reachable .release noStream (fun _ => twoChunkSource)
      zeroingReader ![.md5, .sha1] paddedDigest (.new 2) := .refl
  obtain ⟨s, hreach, hfinal⟩ := hstart.exists_final hreadable (by decide)
  obtain ⟨hcalm, hfailed, hverdict⟩ :=
    verify_sound hreadable (by decide) hwanted hreach
  have hhashed : s.main = .hashed := by
    cases hmain : s.main with
    | hashed => rfl
    | failed e =>
        obtain ⟨offset, n, -, -, hfails⟩ := hfailed e hmain
        exact absurd hfails (zeroingReader_decodes offset n)
    | panicked => exact absurd hmain hcalm
    | looping => simp [hmain, Main.Final] at hfinal
    | updating read => simp [hmain, Main.Final] at hfinal
    | finalizing => simp [hmain, Main.Final] at hfinal
  obtain ⟨hdigests, hexit⟩ := hverdict hhashed
  rw [zeroingReader_content] at hdigests hexit
  refine ⟨s, hreach, hhashed, hdigests.found 0, ?_⟩
  rw [Ne, hexit]
  rintro (⟨md5, hmd5, hne⟩ | ⟨sha1, hsha1, -⟩)
  · obtain rfl := Option.some.inj hmd5
    exact hne (by decide)
  · simp [stored] at hsha1

/-! ## The end -/

/-- The verifier comes to an end: no run is stuck before the main thread has
ended, and none goes on forever. -/
theorem verify_ends (hreadable : reader.Readable zlib sources)
    (hfits : reader.imageSize + bufLen < wordLimit) (build : Build)
    (htypes : Fin n → HashType) (digest : HashType → Bytes → Bytes) :
    (∀ s : State n, Reachable build zlib sources reader htypes digest s →
      ¬ s.main.Final →
      ∃ s', Step build zlib sources reader htypes digest s s') ∧
    WellFounded fun s' s : State n =>
      Reachable build zlib sources reader htypes digest s ∧
        Step build zlib sources reader htypes digest s s' := by
  constructor
  · intro s hreach hrunning
    exact (hreach.valid hreadable hfits).progress hfits hrunning
  · refine Subrelation.wf ?_ (InvImage.wf (rank reader) wellFounded_lt)
    rintro s' s ⟨hreach, hstep⟩
    exact (hreach.valid hreadable hfits).rank_lt hfits hstep

theorem verify_ends_two :
    (∀ s : State 2, Reachable .release noStream (fun _ => twoChunkSource)
        twoChunkReader ![.md5, .sha1] paddedDigest s →
      ¬ s.main.Final →
      ∃ s', Step .release noStream (fun _ => twoChunkSource) twoChunkReader
        ![.md5, .sha1] paddedDigest s s') ∧
    WellFounded fun s' s : State 2 =>
      Reachable .release noStream (fun _ => twoChunkSource) twoChunkReader
          ![.md5, .sha1] paddedDigest s ∧
        Step .release noStream (fun _ => twoChunkSource) twoChunkReader
          ![.md5, .sha1] paddedDigest s s' :=
  verify_ends (readable_twoChunks _) (by decide) _ _ _

end Ends

end Verify
end E01
end ImageReader
