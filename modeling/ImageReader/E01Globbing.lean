import ImageReader.SegmentProbes

/-!
# The segments a glob returns

The names of a sequence are probed in its order, each in upper case and then in
lower case.  Against a fixed set of names the glob returns the names of the
longest prefix of the sequence that is there, under the base of the prototype.
Which sequence that is follows from the first letter of the named segment: past
`EZZ` the sequence of `E01` holds extensions which begin with another letter,
and one of these names another sequence.
-/

namespace ImageReader
namespace E01

open Rawdisk (Path ExistsChecker)

/-! ## Globs with their probes -/

/-- A result with the names that were probed for it. -/
structure Probes (α : Type) where
  names : List Path
  result : Outcome SegPathError α

namespace Probes

variable {α β : Type}

def lift (x : Outcome SegPathError α) : Probes α := ⟨[], x⟩

def bind (x : Probes α) (f : α → Probes β) : Probes β where
  names := x.names ++
    match x.result with
    | .ok a => (f a).names
    | _ => []
  result := x.result >>= fun a => (f a).result

instance : Monad Probes where
  pure a := lift (.ok a)
  bind := bind

def segmentExists (checker : ExistsChecker) (path : Path) : Probes Bool :=
  ⟨[path], E01.segmentExists checker path⟩

@[simp] theorem result_lift (x : Outcome SegPathError α) :
    (lift x).result = x := rfl

@[simp] theorem result_pure (a : α) : (pure a : Probes α).result = .ok a := rfl

@[simp] theorem result_bind (x : Probes α) (f : α → Probes β) :
    (x >>= f).result = x.result >>= fun a => (f a).result := rfl

@[simp] theorem result_segmentExists (checker : ExistsChecker) (path : Path) :
    (segmentExists checker path).result = E01.segmentExists checker path := rfl

theorem error_bind (e : SegPathError) (f : α → Probes β) :
    lift (.error e) >>= f = lift (.error e) := rfl

def globFrom (checker : ExistsChecker) (basePath : Path) :
    List Path → List Path → Probes (List Path)
  | [], paths => pure paths
  | ext :: rest, paths => do
      let segPathUc := basePath ++ '.' :: ext
      if ← segmentExists checker segPathUc then
        globFrom checker basePath rest (paths ++ [segPathUc])
      else
        let segPathLc := basePath ++ '.' :: toAsciiLowercase ext
        if ← segmentExists checker segPathLc then
          globFrom checker basePath rest (paths ++ [segPathLc])
        else pure paths

def validatedSegmentPaths (checker : ExistsChecker)
    (exampleSegmentPath : Path) : Probes (List Path) := do
  let protoPath := exampleSegmentPath
  let protoExt ← lift (Outcome.ofExcept (validateProtoExtension protoPath))
  match protoExt.head? with
  | none => lift (.error (.unrecognizedExtension protoPath))
  | some extStart =>
      match rsplitOnce '.' protoPath with
      | none => lift (.error (.unrecognizedExtension protoPath))
      | some (basePath, _) =>
          globFrom checker basePath (segmentExtIter extStart) []

theorem result_globFrom (checker : ExistsChecker) (basePath : Path)
    (exts paths : List Path) :
    (globFrom checker basePath exts paths).result =
      E01.globFrom checker basePath exts paths := by
  induction exts generalizing paths with
  | nil => rfl
  | cons ext rest ih =>
      unfold globFrom E01.globFrom
      simp only [result_bind, result_segmentExists]
      congr 1
      funext upper
      split_ifs
      · exact ih _
      · simp only [result_bind, result_segmentExists]
        congr 1
        funext lower
        split_ifs
        · exact ih _
        · rfl

/-- Keeping the names does not change what a glob returns. -/
theorem result_validatedSegmentPaths (checker : ExistsChecker)
    (exampleSegmentPath : Path) :
    (validatedSegmentPaths checker exampleSegmentPath).result =
      E01.validatedSegmentPaths checker exampleSegmentPath := by
  unfold validatedSegmentPaths E01.validatedSegmentPaths
  simp only [result_bind, result_lift]
  congr 1
  funext protoExt
  cases protoExt.head? with
  | none => rfl
  | some extStart =>
      cases rsplitOnce '.' exampleSegmentPath with
      | none => rfl
      | some parts => exact result_globFrom checker parts.1 _ []

end Probes

/-! ## Prototypes -/

variable {present : Path → Bool} {checker : ExistsChecker}
  {proto base : Path} {first : Char}

/-- The path is `base`, a dot and an accepted extension which begins with
`first`. -/
structure Prototype (proto base : Path) (first : Char) : Prop where
  split : ∃ raw, proto = base ++ '.' :: raw ∧ '.' ∉ raw
  accepted : ∃ ext, validateProtoExtension proto = .ok ext ∧
    ext.head? = some first

theorem toUpper_eq_dot_iff (c : Char) : c.toUpper = '.' ↔ c = '.' := by
  unfold Char.toUpper
  split_ifs with hlower
  · rw [Char.ext_iff, Char.ext_iff]
    simp only [← UInt32.toNat_inj, UInt32.toNat_add, UInt32.toNat_sub]
    have hlow : 97 ≤ c.val.toNat := UInt32.le_iff_toNat_le.mp hlower.1
    have hhigh : c.val.toNat ≤ 122 := UInt32.le_iff_toNat_le.mp hlower.2
    change (c.val.toNat + (2 ^ 32 - 97 + 65) % 2 ^ 32) % 2 ^ 32 = 46 ↔
      c.val.toNat = 46
    omega
  · rfl

theorem validateProtoExtension_eq_ok_iff {ext : Path} :
    validateProtoExtension proto = .ok ext ↔
      ∃ base raw, rsplitOnce '.' proto = some (base, raw) ∧
        toAsciiUppercase raw = ext ∧ validProtoSegmentExt ext = true := by
  unfold validateProtoExtension toAsciiUppercase
  rw [rsplitOnce_map toUpper_eq_dot_iff]
  cases rsplitOnce '.' proto with
  | none => simp
  | some parts =>
      obtain ⟨base, raw⟩ := parts
      simp only [Option.map_some, Prod.map, Option.some.injEq, Prod.mk.injEq]
      constructor
      · intro h
        split_ifs at h with hvalid
        obtain rfl : raw.map Char.toUpper = ext := by simpa using h
        exact ⟨base, raw, ⟨rfl, rfl⟩, rfl, hvalid⟩
      · rintro ⟨_, _, ⟨rfl, rfl⟩, rfl, hvalid⟩
        rw [if_pos hvalid]

theorem exists_prototype {ext : Path}
    (h : validateProtoExtension proto = .ok ext) :
    ∃ base first, Prototype proto base first := by
  obtain ⟨base, raw, hsplit, -, hvalid⟩ := validateProtoExtension_eq_ok_iff.mp h
  cases ext with
  | nil => exact absurd hvalid (by decide)
  | cons first rest =>
      refine ⟨base, first, ⟨raw, eq_of_rsplitOnce hsplit, ?_⟩, _, h, rfl⟩
      exact not_mem_of_rsplitOnce hsplit

/-- A prototype is globbed by its base and its first letter. -/
theorem Prototype.validatedSegmentPaths_eq (h : Prototype proto base first) :
    validatedSegmentPaths checker proto =
      globFrom checker base (segmentExtIter first) [] := by
  obtain ⟨⟨raw, rfl, hraw⟩, ext, hext, hfirst⟩ := h
  unfold validatedSegmentPaths
  simp only [hext, Outcome.ofExcept_ok, Outcome.ok_bind, hfirst,
    rsplitOnce_append base hraw]

/-- Nothing is probed for a path without an accepted extension. -/
theorem Probes.validatedSegmentPaths_of_rejected
    (h : ∀ ext, validateProtoExtension proto ≠ .ok ext) :
    Probes.validatedSegmentPaths checker proto =
      ⟨[], .error (.unrecognizedExtension proto)⟩ := by
  have herror : validateProtoExtension proto =
      .error (.unrecognizedExtension proto) := by
    unfold validateProtoExtension at h ⊢
    split at h
    · split_ifs at h with hvalid
      · exact absurd rfl (h _)
      · rw [if_neg hvalid]
    · rfl
  unfold Probes.validatedSegmentPaths
  simp only [herror, Outcome.ofExcept_error, error_bind]
  rfl

/-! ## The names that are there -/

/-- The spelling a segment is found under: upper case goes first. -/
def spelling (present : Path → Bool) (base ext : Path) : Path :=
  if present (base ++ '.' :: ext) then base ++ '.' :: ext
  else base ++ '.' :: toAsciiLowercase ext

/-- `paths` are the spellings of as many extensions as are there one after the
other. -/
structure MaximalPrefix (present : Path → Bool) (base : Path)
    (exts paths : List Path) : Prop where
  spelled : List.Forall₂
    (fun ext path => path = spelling present base ext ∧ present path = true)
    (exts.take paths.length) paths
  ended : ∀ ext, exts[paths.length]? = some ext →
    present (base ++ '.' :: ext) = false ∧
      present (base ++ '.' :: toAsciiLowercase ext) = false

theorem maximalPrefix_nil (present : Path → Bool) (base : Path) :
    MaximalPrefix present base [] [] :=
  ⟨.nil, by simp⟩

theorem MaximalPrefix.cons {ext : Path} {exts paths : List Path}
    (h : MaximalPrefix present base exts paths)
    (hext : present (spelling present base ext) = true) :
    MaximalPrefix present base (ext :: exts)
      (spelling present base ext :: paths) :=
  ⟨.cons ⟨rfl, hext⟩ h.spelled, h.ended⟩

theorem maximalPrefix_stop {ext : Path} (exts : List Path)
    (hupper : present (base ++ '.' :: ext) = false)
    (hlower : present (base ++ '.' :: toAsciiLowercase ext) = false) :
    MaximalPrefix present base (ext :: exts) [] where
  spelled := .nil
  ended := by
    intro ext' hext'
    obtain rfl : ext = ext' := by simpa using hext'
    exact ⟨hupper, hlower⟩

@[simp] theorem segmentExists_answeringChecker (path : Path) :
    segmentExists (answeringChecker present) path = .ok (present path) := rfl

theorem spelling_absent_iff {ext : Path} :
    present (spelling present base ext) = false ↔
      present (base ++ '.' :: ext) = false ∧
        present (base ++ '.' :: toAsciiLowercase ext) = false := by
  unfold spelling
  cases hupper : present (base ++ '.' :: ext) with
  | true => simp [hupper]
  | false => simp

theorem globFrom_cons (present : Path → Bool) (base ext : Path)
    (rest paths : List Path) :
    globFrom (answeringChecker present) base (ext :: rest) paths =
      if present (spelling present base ext) then
        globFrom (answeringChecker present) base rest
          (paths ++ [spelling present base ext])
      else .ok paths := by
  rw [globFrom]
  simp only [segmentExists_answeringChecker, Outcome.ok_bind]
  unfold spelling
  cases hupper : present (base ++ '.' :: ext) with
  | true => rw [if_pos rfl, if_pos rfl, if_pos hupper]
  | false =>
      rw [if_neg Bool.false_ne_true, if_neg Bool.false_ne_true]
      rfl

/-- A glob goes on with the maximal prefix of the extensions that are left. -/
theorem globFrom_spec (present : Path → Bool) (base : Path)
    (exts paths : List Path) :
    ∃ found, globFrom (answeringChecker present) base exts paths =
        .ok (paths ++ found) ∧ MaximalPrefix present base exts found := by
  induction exts generalizing paths with
  | nil =>
      exact ⟨[], by simp [globFrom], maximalPrefix_nil present base⟩
  | cons ext rest ih =>
      rw [globFrom_cons]
      cases hext : present (spelling present base ext) with
      | true =>
          obtain ⟨found, hrun, hfound⟩ :=
            ih (paths ++ [spelling present base ext])
          refine ⟨spelling present base ext :: found, ?_, hfound.cons hext⟩
          rw [if_pos rfl, hrun, List.append_assoc]
          rfl
      | false =>
          obtain ⟨hupper, hlower⟩ := spelling_absent_iff.mp hext
          refine ⟨[], ?_, maximalPrefix_stop rest hupper hlower⟩
          rw [if_neg Bool.false_ne_true, List.append_nil]

/-- An accepted prototype is globbed to the maximal prefix which is there of
its sequence, whichever prototype with its base and its first letter is named.
Every other path is rejected before a name is probed. -/
theorem glob_returns_maximal_prefix (present : Path → Bool) (proto : Path) :
    (∀ ext, validateProtoExtension proto = .ok ext →
      ∃ base raw first paths,
        (proto = base ++ '.' :: raw ∧ '.' ∉ raw) ∧
          ext = toAsciiUppercase raw ∧ ext.head? = some first ∧
          (Probes.validatedSegmentPaths (answeringChecker present)
            proto).result = .ok paths ∧
          MaximalPrefix present base (segmentExtIter first) paths ∧
          ∀ named, Prototype named base first →
            (Probes.validatedSegmentPaths (answeringChecker present)
              named).result = .ok paths) ∧
      ((∀ ext, validateProtoExtension proto ≠ .ok ext) →
        ∀ checker, Probes.validatedSegmentPaths checker proto =
          ⟨[], .error (.unrecognizedExtension proto)⟩) := by
  constructor
  · intro ext hext
    obtain ⟨base, first, hproto⟩ := exists_prototype hext
    obtain ⟨⟨raw, hsplit, hraw⟩, ext', hext', hfirst⟩ := id hproto
    obtain rfl : ext = ext' := by simpa [hext] using hext'
    have hupper : ext = toAsciiUppercase raw := by
      obtain ⟨base', raw', hrsplit, hupper, -⟩ :=
        validateProtoExtension_eq_ok_iff.mp hext
      rw [hsplit, rsplitOnce_append base hraw] at hrsplit
      obtain ⟨rfl, rfl⟩ : base = base' ∧ raw = raw' := by simpa using hrsplit
      exact hupper.symm
    obtain ⟨paths, hrun, hpaths⟩ :=
      globFrom_spec present base (segmentExtIter first) []
    have hnamed : ∀ named, Prototype named base first →
        (Probes.validatedSegmentPaths (answeringChecker present)
          named).result = .ok paths := by
      intro named hnamed
      rw [Probes.result_validatedSegmentPaths, hnamed.validatedSegmentPaths_eq]
      exact hrun
    exact ⟨base, raw, first, paths, ⟨hsplit, hraw⟩, hupper, hfirst,
      hnamed proto hproto, hpaths, hnamed⟩
  · exact fun h checker => Probes.validatedSegmentPaths_of_rejected h

theorem head_or_letter_of_mem_segmentExtIter {start : Char} {ext : Path}
    (h : ext ∈ segmentExtIter start) :
    ext.head? = some start ∨ ∃ b ∈ charRange 'A' 'Z', ext[1]? = some b := by
  unfold segmentExtIter at h
  rcases List.mem_append.mp h with h | h
  · obtain ⟨n, -, rfl⟩ := List.mem_map.mp h
    exact Or.inl rfl
  · obtain ⟨a, -, h⟩ := List.mem_flatMap.mp h
    obtain ⟨b, hb, h⟩ := List.mem_flatMap.mp h
    obtain ⟨c, -, rfl⟩ := List.mem_map.mp h
    exact Or.inr ⟨b, hb, rfl⟩

/-- Every name of the sequence of `E01` is there, and `LAA` is one of them.
Named, it is taken for a prototype of the sequence of `L01`. -/
theorem later_segment_names_another_sequence :
    let named : Path → Path := fun ext => "i".toList ++ '.' :: ext
    let present : Path → Bool := fun path =>
      decide (path ∈ (segmentExtIter 'E').map named)
    "LAA".toList ∈ segmentExtIter 'E' ∧
      validateProtoExtension (named "LAA".toList) = .ok "LAA".toList ∧
      validatedSegmentPaths (answeringChecker present)
          (named "LAA".toList) = .ok [] ∧
      validatedSegmentPaths (answeringChecker present)
          (named "E01".toList) ≠ .ok [] := by
  intro named present
  have hin : "LAA".toList ∈ segmentExtIter 'E' := by
    apply List.mem_append_right
    exact List.mem_flatMap.mpr ⟨'L', by decide, List.mem_flatMap.mpr ⟨'A',
      by decide, List.mem_map.mpr ⟨'A', by decide, rfl⟩⟩⟩
  have hpresent : ∀ ext, present (named ext) = true ↔
      ext ∈ segmentExtIter 'E' := by
    intro ext
    rw [decide_eq_true_iff]
    refine ⟨fun h => ?_, List.mem_map_of_mem⟩
    obtain ⟨ext', hext', heq⟩ := List.mem_map.mp h
    obtain rfl : ext' = ext := by simpa [named] using heq
    exact hext'
  have habsent : ∀ ext, ext.head? ≠ some 'E' → ext[1]? = some '0' →
      present (named ext) = false := by
    intro ext hhead hsecond
    rw [← Bool.not_eq_true, hpresent]
    intro h
    rcases head_or_letter_of_mem_segmentExtIter h with h | ⟨b, hb, h⟩
    · exact hhead h
    · obtain rfl : '0' = b := by simpa [hsecond] using h
      exact absurd hb (by decide)
  have hl : Prototype (named "LAA".toList) "i".toList 'L' :=
    ⟨⟨"LAA".toList, rfl, by decide⟩, "LAA".toList, by decide, rfl⟩
  have he : Prototype (named "E01".toList) "i".toList 'E' :=
    ⟨⟨"E01".toList, rfl, by decide⟩, "E01".toList, by decide, rfl⟩
  refine ⟨hin, by decide, ?_, ?_⟩
  · obtain ⟨rest, hseq⟩ : ∃ rest, segmentExtIter 'L' = "L01".toList :: rest :=
      ⟨_, rfl⟩
    have hnone : present (spelling present "i".toList "L01".toList) = false :=
      spelling_absent_iff.mpr ⟨habsent "L01".toList (by decide) rfl,
        habsent "l01".toList (by decide) rfl⟩
    rw [hl.validatedSegmentPaths_eq, hseq, globFrom_cons, hnone,
      if_neg Bool.false_ne_true]
  · obtain ⟨rest, hseq⟩ : ∃ rest, segmentExtIter 'E' = "E01".toList :: rest :=
      ⟨_, rfl⟩
    have hfirst : present (named "E01".toList) = true := by
      rw [hpresent, hseq]
      exact List.mem_cons_self
    have hspell : spelling present "i".toList "E01".toList =
        named "E01".toList := if_pos hfirst
    obtain ⟨found, hrun, -⟩ := globFrom_spec present "i".toList rest
      ([] ++ [named "E01".toList])
    rw [he.validatedSegmentPaths_eq, hseq, globFrom_cons, hspell, hfirst,
      if_pos rfl, hrun]
    simp

end E01
end ImageReader
