import ImageReader.VmdkStorage

/-!
# Grains out of a stream

A decoder is a stream when the pieces it hands out are, one behind the other,
a fixed output, whatever buffers it is given, and when it ends or fails only
behind the last of them.  The decoding loop then depends on the output alone:
where one piece ends and the next begins makes no difference to the grain.
-/

namespace ImageReader
namespace Vmdk

variable {δ : Type}

/-- `remaining` is the output a decoder still owes, and `ending` the failure,
if any, behind it. -/
structure Inflater.Streams (inflater : Inflater δ) (remaining : δ → Bytes)
    (ending : δ → Option ℕ) : Prop where
  delivers : ∀ decoder want, 0 < want → remaining decoder ≠ [] →
    ∃ piece decoder', inflater.read decoder want = .ok (piece, decoder') ∧
      piece ≠ [] ∧ remaining decoder = piece ++ remaining decoder' ∧
      ending decoder' = ending decoder
  ends : ∀ decoder want, 0 < want → remaining decoder = [] →
    ending decoder = none →
    ∃ decoder', inflater.read decoder want = .ok ([], decoder')
  fails : ∀ decoder want code, 0 < want → remaining decoder = [] →
    ending decoder = some code → inflater.read decoder want = .error code

/-- What the decoding loop makes of an output and its ending. -/
def decodedGrain (grainIndex grainSize : ℕ) (output : Bytes)
    (ending : Option ℕ) : Outcome IoError Bytes :=
  if grainSize < output.length then .error (.crazyGrainIndex grainIndex)
  else
    match ending with
    | some code => .error (.decoder code)
    | none => .ok output

section Decoded

variable {grainIndex grainSize : ℕ} {output : Bytes}

theorem decodedGrain_of_long (hlong : grainSize < output.length)
    (ending : Option ℕ) :
    decodedGrain grainIndex grainSize output ending =
      .error (.crazyGrainIndex grainIndex) := if_pos hlong

theorem decodedGrain_failing (hfits : output.length ≤ grainSize) (code : ℕ) :
    decodedGrain grainIndex grainSize output (some code) =
      .error (.decoder code) := if_neg (not_lt.mpr hfits)

theorem decodedGrain_of_fits (hfits : output.length ≤ grainSize) :
    decodedGrain grainIndex grainSize output none = .ok output :=
  if_neg (not_lt.mpr hfits)

end Decoded

/-- A grain in a file, as far as its size, its zlib header and its deflated
bytes. -/
structure StoredGrain (build : Build) (file : BackingFile)
    (pos grainSize : ℕ) (data : Bytes) : Prop where
  lba : ∃ lba, file.readExact pos 8 = .ok lba
  size : ∃ dataSize limit, file.readExact (pos + 8) 4 = .ok dataSize ∧
    (build.mul 2 grainSize : Outcome IoError ℕ) = .ok limit ∧
    fromLE dataSize ≤ limit ∧
    file.readExact (pos + 14) (fromLE dataSize) = .ok data
  zlib : ∃ header, file.readExact (pos + 12) 2 = .ok header ∧
    zlibHeaderOk (fromBE header) = true

section Decoding

variable {inflater : Inflater δ} {remaining : δ → Bytes}
  {ending : δ → Option ℕ} {grainIndex grainSize : ℕ} {out : Bytes}
  {decoder : δ}

theorem decodeGrainBody_of_full (hstreams : inflater.Streams remaining ending)
    (hfull : out.length = grainSize) :
    decodeGrainBody inflater grainIndex grainSize (out, decoder) =
      (decodedGrain grainIndex grainSize (out ++ remaining decoder)
        (ending decoder)).map .done := by
  simp only [decodeGrainBody, decodedGrain]
  rw [if_pos hfull, List.length_append]
  by_cases hrest : remaining decoder = []
  · -- the last read tells an end from a failure
    rw [hrest, List.length_nil, if_neg (by omega), List.append_nil]
    cases hending : ending decoder with
    | none =>
        obtain ⟨decoder', hread⟩ :=
          hstreams.ends decoder 1 Nat.one_pos hrest hending
        simp [hread, Outcome.map]
    | some code =>
        rw [hstreams.fails decoder 1 code Nat.one_pos hrest hending]
        rfl
  · obtain ⟨piece, decoder', hread, hpiece, _⟩ :=
      hstreams.delivers decoder 1 Nat.one_pos hrest
    have hpos : 0 < (remaining decoder).length := List.length_pos_iff.mpr hrest
    have hover : piece.length ≠ 0 := by simpa using hpiece
    rw [hread, if_pos (show grainSize < _ by omega)]
    simp only [if_pos hover]
    rfl

theorem decodeGrainBody_of_room (hstreams : inflater.Streams remaining ending)
    (hroom : out.length < grainSize) (grainIndex : ℕ) (decoder : δ) :
    (remaining decoder = [] ∧
        decodeGrainBody inflater grainIndex grainSize (out, decoder) =
          (decodedGrain grainIndex grainSize (out ++ remaining decoder)
            (ending decoder)).map .done) ∨
      ∃ piece decoder', piece ≠ [] ∧ out.length + piece.length ≤ grainSize ∧
        decodeGrainBody inflater grainIndex grainSize (out, decoder) =
          .ok (.next (out ++ piece, decoder')) ∧
        remaining decoder = piece ++ remaining decoder' ∧
        ending decoder' = ending decoder := by
  have hwant : 0 < grainSize - out.length := by omega
  simp only [decodeGrainBody, decodedGrain]
  rw [if_neg hroom.ne]
  by_cases hrest : remaining decoder = []
  · refine Or.inl ⟨hrest, ?_⟩
    rw [hrest, List.append_nil, if_neg (by omega)]
    cases hending : ending decoder with
    | none =>
        obtain ⟨decoder', hread⟩ :=
          hstreams.ends decoder _ hwant hrest hending
        simp [hread, Outcome.map]
    | some code =>
        rw [hstreams.fails decoder _ code hwant hrest hending]
        rfl
  · obtain ⟨piece, decoder', hread, hpiece, hremaining, hending⟩ :=
      hstreams.delivers decoder _ hwant hrest
    have hlength := inflater.read_le _ _ _ _ hread
    have hmore : piece.length ≠ 0 := by simpa using hpiece
    refine Or.inr ⟨piece, decoder', hpiece, by omega, ?_, hremaining, hending⟩
    rw [hread]
    simp only [if_neg hmore]

/-- The loop returns what the output comes to. -/
theorem decodeGrain_eq (hstreams : inflater.Streams remaining ending) :
    loop (decodeGrainBody inflater grainIndex grainSize) (grainSize + 2)
        ([], decoder) =
      decodedGrain grainIndex grainSize (remaining decoder)
        (ending decoder) := by
  -- what has been decoded and what is still owed stay the output
  apply loop_rule
    (fun state : Bytes × δ => state.1.length ≤ grainSize ∧
      remaining decoder = state.1 ++ remaining state.2 ∧
      ending state.2 = ending decoder)
    (fun state : Bytes × δ => grainSize - state.1.length)
    (fun outcome : Outcome IoError Bytes => outcome =
      decodedGrain grainIndex grainSize (remaining decoder) (ending decoder))
  · rintro ⟨out, decoder'⟩ ⟨hle, hremaining, hending⟩
    simp only at hle hremaining hending
    rw [hremaining, ← hending]
    have hleave : ∀ outcome : Outcome IoError Bytes,
        Iterates (fun state : Bytes × δ => state.1.length ≤ grainSize ∧
            out ++ remaining decoder' = state.1 ++ remaining state.2 ∧
            ending state.2 = ending decoder')
          (fun state : Bytes × δ => grainSize - state.1.length)
          (fun result => result = outcome) (grainSize - out.length)
          (outcome.map .done) := by
      intro outcome
      cases outcome <;> rfl
    rcases Nat.lt_or_eq_of_le hle with hroom | hfull
    · have hstep := decodeGrainBody_of_room hstreams hroom
      rcases hstep grainIndex decoder' with
        ⟨_, hbody⟩ | ⟨piece, decoder'', hpiece, hfits, hbody, hnext, hnext'⟩
      · rw [hbody]
        exact hleave _
      · have hpos : 0 < piece.length := List.length_pos_iff.mpr hpiece
        rw [hbody]
        refine ⟨⟨?_, ?_, hnext'⟩, ?_⟩
        · simpa using hfits
        · rw [hnext, List.append_assoc]
        · simp only [List.length_append]
          omega
    · rw [decodeGrainBody_of_full hstreams hfull]
      exact hleave _
  · exact ⟨Nat.zero_le _, rfl, rfl⟩
  · simp

end Decoding

/-! ## The whole grain -/

section Grain

variable {build : Build} {file : BackingFile} {pos grainSize : ℕ}
  {data : Bytes}

theorem readAndDecompressGrain_of_stored
    (hstored : StoredGrain build file pos grainSize data)
    (inflater : Inflater δ) (grainIndex : ℕ) :
    readAndDecompressGrain build inflater file pos grainIndex grainSize =
      (do
        let out ← loop (decodeGrainBody inflater grainIndex grainSize)
          (grainSize + 2) ([], inflater.init data)
        pure (out ++ List.replicate (grainSize - out.length) 0)) := by
  obtain ⟨lba, hlba⟩ := hstored.lba
  obtain ⟨dataSize, limit, hsize, hlimit, hle, hdata⟩ := hstored.size
  obtain ⟨header, hheader, hzlib⟩ := hstored.zlib
  unfold readAndDecompressGrain ioResult
  rw [hlba, hsize, hlimit, hheader]
  simp [Outcome.mapError, not_lt.mpr hle, hzlib, hdata]

/-- A stored grain of a decoder which is a stream: it is returned exactly when
the output fits and no failure follows, as the output and zeros behind it; an
output that does not fit is reported. -/
theorem readAndDecompressGrain_exact {inflater : Inflater δ}
    {remaining : δ → Bytes} {ending : δ → Option ℕ}
    (hstreams : inflater.Streams remaining ending)
    (hstored : StoredGrain build file pos grainSize data) (grainIndex : ℕ) :
    let output := remaining (inflater.init data)
    let failure := ending (inflater.init data)
    let result :=
      readAndDecompressGrain build inflater file pos grainIndex grainSize
    result.Returns ∧
      ((∃ grain, result = .ok grain) ↔
        failure = none ∧ output.length ≤ grainSize) ∧
      (∀ grain, result = .ok grain → grain.length = grainSize ∧
        grain = output ++ List.replicate (grainSize - output.length) 0) ∧
      (grainSize < output.length →
        result = .error (.crazyGrainIndex grainIndex)) ∧
      ∀ code, failure = some code → output.length ≤ grainSize →
        result = .error (.decoder code) := by
  intro output failure result
  have hresult : result = (do
      let out ← decodedGrain grainIndex grainSize output failure
      pure (out ++ List.replicate (grainSize - out.length) 0)) := by
    simp only [result, output, failure]
    rw [readAndDecompressGrain_of_stored hstored, decodeGrain_eq hstreams]
  rcases Nat.lt_or_ge grainSize output.length with hlong | hfits
  · rw [decodedGrain_of_long hlong, Outcome.error_bind] at hresult
    rw [hresult]
    exact ⟨by simp, by simp [not_le.mpr hlong], by simp, fun _ => rfl,
      fun _ _ hfits => absurd hlong (not_lt.mpr hfits)⟩
  · have hshort : ¬ grainSize < output.length := not_lt.mpr hfits
    cases hfailure : failure with
    | some code =>
        rw [hfailure, decodedGrain_failing hfits, Outcome.error_bind] at hresult
        rw [hresult]
        exact ⟨by simp, by simp, by simp, fun hlong => absurd hlong hshort,
          by simp⟩
    | none =>
        rw [hfailure, decodedGrain_of_fits hfits, Outcome.ok_bind] at hresult
        rw [hresult]
        refine ⟨by simp, by simp [hfits], ?_, fun hlong => absurd hlong hshort,
          by simp⟩
        intro grain hgrain
        obtain rfl := Outcome.ok.inj hgrain
        refine ⟨?_, rfl⟩
        rw [List.length_append, List.length_replicate]
        omega

/-! ## A decoder that hands out single bytes -/

/-- The deflated bytes are the output, and every piece is one byte. -/
def bytewiseInflater : Inflater Bytes where
  init := id
  read := fun rest want => .ok (rest.take (min 1 want), rest.drop (min 1 want))
  read_le := by
    rintro rest want out decoder' ⟨⟩
    simp only [List.length_take]
    omega

theorem bytewiseInflater_streams :
    bytewiseInflater.Streams id (fun _ => none) where
  delivers := by
    intro rest want hwant hrest
    refine ⟨rest.take (min 1 want), rest.drop (min 1 want), rfl, ?_, ?_, rfl⟩
    · rw [Ne, List.take_eq_nil_iff]
      simp only [id] at hrest
      simp [hrest]
      omega
    · exact (List.take_append_drop _ _).symm
  ends := by
    rintro rest want hwant hrest _
    obtain rfl : rest = [] := hrest
    exact ⟨[], by simp [bytewiseInflater]⟩
  fails := by simp

/-- A grain of three bytes, behind its header. -/
def storedFile : BackingFile where
  content := [0, 0, 0, 0, 0, 0, 0, 0, 3, 0, 0, 0, 0x78, 0x9c, 7, 8, 9]
  fault := fun _ _ => none

theorem storedFile_stored : StoredGrain .release storedFile 0 4 [7, 8, 9] where
  lba := ⟨_, rfl⟩
  size := by
    have hsize : fromLE [3, 0, 0, 0] = 3 := by decide +kernel
    have hlimit : 2 * 4 < wordLimit := by
      rw [wordLimit_eq]
      norm_num
    refine ⟨[3, 0, 0, 0], 8, rfl, Build.mul_of_lt hlimit, ?_⟩
    rw [hsize]
    exact ⟨by decide, rfl⟩
  zlib := ⟨[0x78, 0x9c], rfl, by decide +kernel⟩

theorem readAndDecompressGrain_exact_bytewise :
    let result := readAndDecompressGrain .release bytewiseInflater storedFile 0
      5 4
    result.Returns ∧
      ((∃ grain, result = .ok grain) ↔
        (none : Option ℕ) = none ∧ [7, 8, 9].length ≤ 4) ∧
      (∀ grain, result = .ok grain → grain.length = 4 ∧
        grain = [7, 8, 9] ++ List.replicate (4 - [7, 8, 9].length) 0) ∧
      (4 < [7, 8, 9].length → result = .error (.crazyGrainIndex 5)) ∧
      ∀ code, none = some code → [7, 8, 9].length ≤ 4 →
        result = .error (.decoder code) := by
  exact readAndDecompressGrain_exact bytewiseInflater_streams storedFile_stored
    5

end Grain

end Vmdk
end ImageReader
