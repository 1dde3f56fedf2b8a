import ImageReader.E01SegPath
import ImageReader.RawdiskDiscovery

/-!
# Probes without an answer

A checker which cannot tell whether a name is there answers with an error.
Both discoveries pass such an error on from every probe, before anything that
depends on the answer is decided.  So a run with unanswered names ends as the
run in which every name is answered, or it reports one of those names as
undetermined.
-/

namespace ImageReader

open Outcome (AgreesUnless)
open Rawdisk (Path ExistsError ExistsChecker)

/-- The checker which answers every name. -/
def answeringChecker (present : Path → Bool) : ExistsChecker := fun path =>
  .ok (present path)

/-- The checker which answers as `present` does, except for the names with a
`failure`. -/
def partialChecker (present : Path → Bool) (failure : Path → Option ℕ) :
    ExistsChecker := fun path =>
  match failure path with
  | some code => .error { path, code }
  | none => .ok (present path)

/-- The names without an answer. -/
def Unanswered (failure : Path → Option ℕ) (path : Path) : Prop :=
  (failure path).isSome = true

theorem partialChecker_agrees (present : Path → Bool)
    (failure : Path → Option ℕ) (path : Path) :
    AgreesUnless (fun err : ExistsError => Unanswered failure err.path)
      (Outcome.ofExcept (partialChecker present failure path))
      (Outcome.ofExcept (answeringChecker present path)) := by
  unfold partialChecker
  cases hfailure : failure path with
  | some code =>
      exact Or.inr ⟨{ path, code }, rfl, by simp [Unanswered, hfailure]⟩
  | none => exact .refl _

namespace Rawdisk

variable {present : Path → Bool} {failure : Path → Option ℕ} {build : Build}
  {stem : Path} {width : ℕ}

/-- The error which names an unanswered probe. -/
def NamesUnanswered (failure : Path → Option ℕ) (e : DiscoveryError) : Prop :=
  ∃ err, e = .undetermined err ∧ Unanswered failure err.path

theorem existsAt_agrees (path : Path) :
    AgreesUnless (NamesUnanswered failure)
      (existsAt (partialChecker present failure) path)
      (existsAt (answeringChecker present) path) :=
  (partialChecker_agrees present failure path).mapError fun err herr =>
    ⟨err, rfl, herr⟩

theorem probe_agrees (n : ℕ) :
    AgreesUnless (NamesUnanswered failure)
      (probe (partialChecker present failure) stem width n)
      (probe (answeringChecker present) stem width n) := by
  unfold probe
  apply (AgreesUnless.refl _).bind
  intro path
  exact existsAt_agrees path

theorem walkUpBody_agrees (state : ℕ × List Path) :
    AgreesUnless (NamesUnanswered failure)
      (walkUpBody build (partialChecker present failure) stem width state)
      (walkUpBody build (answeringChecker present) stem width state) := by
  unfold walkUpBody
  apply (AgreesUnless.refl _).bind
  intro path
  apply (existsAt_agrees path).bind
  intro found
  exact .refl _

theorem fromStart_agrees (fuel first num : ℕ) :
    AgreesUnless (NamesUnanswered failure)
      (fromStart build (partialChecker present failure) stem width fuel first
        num)
      (fromStart build (answeringChecker present) stem width fuel first
        num) := by
  unfold fromStart
  apply (AgreesUnless.loop walkUpBody_agrees fuel (first, [])).bind
  rintro ⟨n, paths⟩
  simp only
  split_ifs
  · exact .refl _
  · exact .refl _
  · apply (AgreesUnless.refl _).bind
    intro beyond
    apply (probe_agrees beyond).bind
    intro past
    exact .refl _

theorem walkDown_agrees (num : ℕ) :
    AgreesUnless (NamesUnanswered failure)
      (walkDown (partialChecker present failure) stem width num)
      (walkDown (answeringChecker present) stem width num) := by
  induction num with
  | zero => exact .refl _
  | succ lowest ih =>
      unfold walkDown
      apply (probe_agrees lowest).bind
      intro found
      split_ifs
      · exact ih
      · exact .refl _

theorem missingStart_agrees (num : ℕ) :
    AgreesUnless (NamesUnanswered failure)
      (missingStart (partialChecker present failure) stem width num)
      (missingStart (answeringChecker present) stem width num) := by
  unfold missingStart
  apply (walkDown_agrees num).bind
  intro lowest
  exact .refl _

theorem probeBelow_agrees (num : ℕ) :
    AgreesUnless (NamesUnanswered failure)
      (probeBelow (partialChecker present failure) stem width num)
      (probeBelow (answeringChecker present) stem width num) := by
  unfold probeBelow
  split_ifs
  · exact probe_agrees _
  · exact .refl _

theorem probeAbove_agrees (num : ℕ) :
    AgreesUnless (NamesUnanswered failure)
      (probeAbove (partialChecker present failure) stem width num)
      (probeAbove (answeringChecker present) stem width num) := by
  unfold probeAbove
  cases checkedAdd num 1 with
  | some next => exact probe_agrees next
  | none => exact .refl _

theorem withoutStart_agrees (example_ : Path) (num : ℕ) :
    AgreesUnless (NamesUnanswered failure)
      (withoutStart build (partialChecker present failure) stem width example_
        num)
      (withoutStart build (answeringChecker present) stem width example_
        num) := by
  unfold withoutStart
  apply (AgreesUnless.refl _).bind
  intro isPadded
  split_ifs
  · exact .refl _
  · apply (probeBelow_agrees num).bind
    intro below
    apply (probeAbove_agrees num).bind
    intro above
    split_ifs
    · exact missingStart_agrees num
    · exact .refl _

theorem segmentPaths_agrees (build : Build) (present : Path → Bool)
    (failure : Path → Option ℕ) (fuel : ℕ) (example_ : Path) :
    AgreesUnless (NamesUnanswered failure)
      (segmentPaths build (partialChecker present failure) fuel example_)
      (segmentPaths build (answeringChecker present) fuel example_) := by
  unfold segmentPaths
  cases splitNumericSuffix example_ with
  | none => exact .refl _
  | some parts =>
      obtain ⟨stem, num, width⟩ := parts
      simp only
      apply (probe_agrees 0).bind
      intro zero
      split_ifs
      · exact fromStart_agrees fuel 0 num
      · apply (probe_agrees 1).bind
        intro one
        split_ifs
        · exact fromStart_agrees fuel 1 num
        · exact withoutStart_agrees example_ num

end Rawdisk

namespace E01

variable {present : Path → Bool} {failure : Path → Option ℕ}

/-- The error which names an unanswered probe. -/
def NamesUnanswered (failure : Path → Option ℕ) (e : SegPathError) : Prop :=
  ∃ err, e = .undetermined err ∧ Unanswered failure err.path

theorem segmentExists_agrees (path : Path) :
    AgreesUnless (NamesUnanswered failure)
      (segmentExists (partialChecker present failure) path)
      (segmentExists (answeringChecker present) path) :=
  (partialChecker_agrees present failure path).mapError fun err herr =>
    ⟨err, rfl, herr⟩

theorem globFrom_agrees (basePath : Path) (exts paths : List Path) :
    AgreesUnless (NamesUnanswered failure)
      (globFrom (partialChecker present failure) basePath exts paths)
      (globFrom (answeringChecker present) basePath exts paths) := by
  induction exts generalizing paths with
  | nil => exact .refl _
  | cons ext rest ih =>
      unfold globFrom
      apply (segmentExists_agrees _).bind
      intro upper
      split_ifs
      · exact ih _
      · apply (segmentExists_agrees _).bind
        intro lower
        split_ifs
        · exact ih _
        · exact .refl _

theorem validatedSegmentPaths_agrees (present : Path → Bool)
    (failure : Path → Option ℕ) (exampleSegmentPath : Path) :
    AgreesUnless (NamesUnanswered failure)
      (validatedSegmentPaths (partialChecker present failure)
        exampleSegmentPath)
      (validatedSegmentPaths (answeringChecker present)
        exampleSegmentPath) := by
  unfold validatedSegmentPaths
  apply (AgreesUnless.refl _).bind
  intro protoExt
  cases protoExt.head? with
  | none => exact .refl _
  | some extStart =>
      cases rsplitOnce '.' exampleSegmentPath with
      | none => exact .refl _
      | some parts => exact globFrom_agrees parts.1 _ []

end E01

/-- An unanswerable probe never changes the image: each discovery ends as with
every name answered, or reports a name without an answer as undetermined. -/
theorem discovery_agrees_unless_undetermined (build : Build)
    (present : Path → Bool) (failure : Path → Option ℕ) (fuel : ℕ)
    (example_ : Path) :
    (Rawdisk.segmentPaths build (partialChecker present failure) fuel
          example_ =
        Rawdisk.segmentPaths build (answeringChecker present) fuel example_ ∨
      ∃ err, Rawdisk.segmentPaths build (partialChecker present failure) fuel
          example_ = .error (.undetermined err) ∧
        (failure err.path).isSome = true) ∧
    (E01.validatedSegmentPaths (partialChecker present failure) example_ =
        E01.validatedSegmentPaths (answeringChecker present) example_ ∨
      ∃ err, E01.validatedSegmentPaths (partialChecker present failure)
          example_ = .error (.undetermined err) ∧
        (failure err.path).isSome = true) := by
  constructor
  · rcases Rawdisk.segmentPaths_agrees build present failure fuel example_
      with heq | ⟨e, hrun, err, rfl, herr⟩
    · exact Or.inl heq
    · exact Or.inr ⟨err, hrun, herr⟩
  · rcases E01.validatedSegmentPaths_agrees present failure example_ with
      heq | ⟨e, hrun, err, rfl, herr⟩
    · exact Or.inl heq
    · exact Or.inr ⟨err, hrun, herr⟩

end ImageReader
