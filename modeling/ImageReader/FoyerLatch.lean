import ImageReader.ByteOrder
import ImageReader.Pool

/-!
# The group latch of the block cache

Callers that miss on one fetch group share a single read of the source.  The
first of them puts the read under its key; those that find one there join it.
When the read is over, with bytes, with an error or by a panic, its entry is
retired first, and only then do its callers wake.  Each of these is a step of
its own, and the steps of all callers and reads interleave.
-/

namespace ImageReader
namespace Foyer

/-- A source index and the beginning of a group. -/
abbrev GroupKey := ℕ × ℕ

/-- How the future of a source read ends. -/
inductive ReadOutcome where
  | ok (bytes : Bytes)
  | error (code : ℕ)
  | panic
  deriving DecidableEq, Repr

inductive FetchError where
  | source (code : ℕ)
  /-- `source {idx}: panicked reading [{gbeg},{gend})` -/
  | panicked (idx gbeg gend : ℕ)
  deriving DecidableEq, Repr

abbrev GroupResult := Except FetchError Bytes

inductive FetchStatus where
  | reading
  | read (result : GroupResult)
  | retired (result : GroupResult)
  deriving DecidableEq

/-- A shared future. -/
structure Fetch where
  key : GroupKey
  gend : ℕ
  status : FetchStatus
  deriving DecidableEq

/-- `bytes.catch_unwind()`, with a panic as an ordinary error -/
def Fetch.resultOf (fetch : Fetch) : ReadOutcome → GroupResult
  | .ok bytes => .ok bytes
  | .error code => .error (.source code)
  | .panic => .error (.panicked fetch.key.1 fetch.key.2 fetch.gend)

theorem Fetch.resultOf_status (fetch : Fetch) (status : FetchStatus)
    (outcome : ReadOutcome) :
    Fetch.resultOf { fetch with status } outcome = fetch.resultOf outcome := by
  cases outcome <;> rfl

/-- A call of `fetch`, with the read it waits for. -/
structure LatchCaller where
  key : GroupKey
  fetch : ℕ
  owner : Bool
  result : Option GroupResult
  deriving DecidableEq

structure GroupLatch where
  inflight : GroupKey → Option ℕ
  fetches : List Fetch
  callers : List LatchCaller

def Fetch.Retired (fetch : Fetch) : Prop :=
  ∃ result, fetch.status = .retired result

theorem Fetch.not_retired_of_reading {fetch : Fetch}
    (h : fetch.status = .reading) : ¬ fetch.Retired := by
  rintro ⟨result, hretired⟩
  simp [h] at hretired

theorem Fetch.not_retired_of_read {fetch : Fetch} {result : GroupResult}
    (h : fetch.status = .read result) : ¬ fetch.Retired := by
  rintro ⟨result', hretired⟩
  simp [h] at hretired

namespace GroupLatch

def new : GroupLatch := ⟨fun _ => none, [], []⟩

/-- The caller which creates a read. -/
def startFetch (s : GroupLatch) (key : GroupKey) (gend : ℕ) : GroupLatch where
  inflight := Function.update s.inflight key (some s.fetches.length)
  fetches := s.fetches ++ [⟨key, gend, .reading⟩]
  callers := s.callers ++ [⟨key, s.fetches.length, true, none⟩]

/-- The caller which finds a read of its group. -/
def joinFetch (s : GroupLatch) (key : GroupKey) (f : ℕ) : GroupLatch :=
  { s with callers := s.callers ++ [⟨key, f, false, none⟩] }

def finishRead (s : GroupLatch) (f : ℕ) (fetch : Fetch)
    (outcome : ReadOutcome) : GroupLatch :=
  { s with fetches :=
      s.fetches.set f { fetch with status := .read (fetch.resultOf outcome) } }

def retire (s : GroupLatch) (f : ℕ) (fetch : Fetch) (result : GroupResult) :
    GroupLatch :=
  { s with
    inflight := Function.update s.inflight fetch.key none
    fetches := s.fetches.set f { fetch with status := .retired result } }

def wake (s : GroupLatch) (c : ℕ) (caller : LatchCaller)
    (result : GroupResult) : GroupLatch :=
  { s with callers := s.callers.set c { caller with result := some result } }

inductive Step : GroupLatch → GroupLatch → Prop
  | join {s : GroupLatch} {key : GroupKey} {f : ℕ}
      (hinflight : s.inflight key = some f) : Step s (s.joinFetch key f)
  | start {s : GroupLatch} {key : GroupKey} {gend : ℕ}
      (hinflight : s.inflight key = none) : Step s (s.startFetch key gend)
  | finish {s : GroupLatch} {f : ℕ} {fetch : Fetch} {outcome : ReadOutcome}
      (hfetch : s.fetches[f]? = some fetch) (hstatus : fetch.status = .reading) :
      Step s (s.finishRead f fetch outcome)
  | retire {s : GroupLatch} {f : ℕ} {fetch : Fetch} {result : GroupResult}
      (hfetch : s.fetches[f]? = some fetch)
      (hstatus : fetch.status = .read result) :
      Step s (s.retire f fetch result)
  | wake {s : GroupLatch} {c : ℕ} {caller : LatchCaller} {fetch : Fetch}
      {result : GroupResult} (hcaller : s.callers[c]? = some caller)
      (hwaits : caller.result = none)
      (hfetch : s.fetches[caller.fetch]? = some fetch)
      (hstatus : fetch.status = .retired result) :
      Step s (s.wake c caller result)

abbrev Steps := Relation.ReflTransGen Step

def Reachable (s : GroupLatch) : Prop := Steps new s

/-! ## What a step keeps -/

/-- Reads are known by their keys until they are retired. -/
structure Good (s : GroupLatch) : Prop where
  inflight : ∀ (key : GroupKey) (f : ℕ), s.inflight key = some f →
    ∃ fetch, s.fetches[f]? = some fetch ∧ fetch.key = key ∧ ¬ fetch.Retired
  unretired : ∀ (f : ℕ) (fetch : Fetch), s.fetches[f]? = some fetch →
    ¬ fetch.Retired → s.inflight fetch.key = some f
  callers : ∀ (c : ℕ) (caller : LatchCaller), s.callers[c]? = some caller →
    ∃ fetch, s.fetches[caller.fetch]? = some fetch ∧ fetch.key = caller.key ∧
      ∀ result, caller.result = some result → fetch.status = .retired result
  owners : ∀ f < s.fetches.length, ∃! c : ℕ, ∃ caller : LatchCaller,
    s.callers[c]? = some caller ∧ caller.owner = true ∧ caller.fetch = f

theorem good_new : Good new where
  inflight := by simp [new]
  unretired := by simp [new]
  callers := by simp [new]
  owners := by simp [new]

theorem Good.lt_of_caller {s : GroupLatch} (h : s.Good) {c : ℕ}
    {caller : LatchCaller} (hcaller : s.callers[c]? = some caller) :
    caller.fetch < s.fetches.length := by
  obtain ⟨fetch, hfetch, -, -⟩ := h.callers c caller hcaller
  exact (List.getElem?_eq_some_iff.mp hfetch).1

theorem Good.join {s : GroupLatch} (h : s.Good) {key : GroupKey} {f : ℕ}
    (hinflight : s.inflight key = some f) : (s.joinFetch key f).Good where
  inflight := h.inflight
  unretired := h.unretired
  callers := by
    intro c caller hcaller
    rcases getElem?_append_singleton hcaller with hold | ⟨-, rfl⟩
    · exact h.callers c caller hold
    · obtain ⟨fetch, hfetch, hkey, -⟩ := h.inflight key f hinflight
      exact ⟨fetch, hfetch, hkey, by simp⟩
  owners := by
    intro f' hf'
    obtain ⟨c, ⟨caller, hcaller, howner, hfetch⟩, hunique⟩ := h.owners f' hf'
    refine ⟨c, ⟨caller, getElem?_append_of_some hcaller _, howner, hfetch⟩, ?_⟩
    rintro c' ⟨caller', hcaller', howner', hfetch'⟩
    rcases getElem?_append_singleton hcaller' with hold | ⟨-, rfl⟩
    · exact hunique c' ⟨caller', hold, howner', hfetch'⟩
    · simp at howner'

theorem Good.start {s : GroupLatch} (h : s.Good) {key : GroupKey} (gend : ℕ)
    (hinflight : s.inflight key = none) : (s.startFetch key gend).Good where
  inflight := by
    intro key' f hf
    by_cases hkey : key' = key
    · subst hkey
      obtain rfl : s.fetches.length = f := by simpa [startFetch] using hf
      exact ⟨⟨key', gend, .reading⟩, List.getElem?_concat_length, rfl,
        Fetch.not_retired_of_reading rfl⟩
    · have hold : s.inflight key' = some f := by
        simpa [startFetch, Function.update_of_ne hkey] using hf
      obtain ⟨fetch, hfetch, hkey', hlive⟩ := h.inflight key' f hold
      exact ⟨fetch, getElem?_append_of_some hfetch _, hkey', hlive⟩
  unretired := by
    intro f fetch hfetch hlive
    rcases getElem?_append_singleton hfetch with hold | ⟨rfl, rfl⟩
    · have hf := h.unretired f fetch hold hlive
      have hne : fetch.key ≠ key := by
        intro heq
        rw [heq, hinflight] at hf
        simp at hf
      simp only [startFetch, Function.update_of_ne hne]
      exact hf
    · simp [startFetch]
  callers := by
    intro c caller hcaller
    rcases getElem?_append_singleton hcaller with hold | ⟨-, rfl⟩
    · obtain ⟨fetch, hfetch, hkey, hresult⟩ := h.callers c caller hold
      exact ⟨fetch, getElem?_append_of_some hfetch _, hkey, hresult⟩
    · exact ⟨⟨key, gend, .reading⟩, List.getElem?_concat_length, rfl, by simp⟩
  owners := by
    intro f hf
    by_cases hnew : f = s.fetches.length
    · subst hnew
      refine ⟨s.callers.length,
        ⟨_, List.getElem?_concat_length, rfl, rfl⟩, ?_⟩
      rintro c ⟨caller, hcaller, -, hfetch⟩
      rcases getElem?_append_singleton hcaller with hold | ⟨rfl, -⟩
      · have hlt := h.lt_of_caller hold
        omega
      · rfl
    · have hlt : f < s.fetches.length := by
        simp only [startFetch, List.length_append, List.length_singleton] at hf
        omega
      obtain ⟨c, ⟨caller, hcaller, howner, hfetch⟩, hunique⟩ := h.owners f hlt
      refine ⟨c, ⟨caller, getElem?_append_of_some hcaller _, howner, hfetch⟩, ?_⟩
      rintro c' ⟨caller', hcaller', howner', hfetch'⟩
      rcases getElem?_append_singleton hcaller' with hold | ⟨-, rfl⟩
      · exact hunique c' ⟨caller', hold, howner', hfetch'⟩
      · exact absurd hfetch'.symm hnew

theorem Good.callers_set {s : GroupLatch} (h : s.Good) {f : ℕ} {fetch : Fetch}
    (status : FetchStatus) (hfetch : s.fetches[f]? = some fetch)
    (hlive : ¬ fetch.Retired) (c : ℕ) (caller : LatchCaller)
    (hcaller : s.callers[c]? = some caller) :
    ∃ fetch', (s.fetches.set f { fetch with status })[caller.fetch]? = some fetch' ∧
      fetch'.key = caller.key ∧
      ∀ result, caller.result = some result → fetch'.status = .retired result := by
  obtain ⟨fetch', hfetch', hkey, hresult⟩ := h.callers c caller hcaller
  by_cases hsame : f = caller.fetch
  · subst hsame
    obtain rfl : fetch = fetch' := by rwa [hfetch, Option.some_inj] at hfetch'
    refine ⟨_, getElem?_set_of_some hfetch, hkey, ?_⟩
    intro result hsome
    exact absurd ⟨result, hresult result hsome⟩ hlive
  · exact ⟨fetch', by rwa [List.getElem?_set_ne hsame], hkey, hresult⟩

theorem Good.finish {s : GroupLatch} (h : s.Good) {f : ℕ} {fetch : Fetch}
    (outcome : ReadOutcome) (hfetch : s.fetches[f]? = some fetch)
    (hstatus : fetch.status = .reading) : (s.finishRead f fetch outcome).Good where
  inflight := by
    intro key f' hf'
    obtain ⟨fetch', hfetch', hkey, hlive⟩ := h.inflight key f' hf'
    by_cases hsame : f = f'
    · subst hsame
      obtain rfl : fetch = fetch' := by rwa [hfetch, Option.some_inj] at hfetch'
      exact ⟨_, getElem?_set_of_some hfetch, hkey, Fetch.not_retired_of_read rfl⟩
    · exact ⟨fetch', by rwa [finishRead, List.getElem?_set_ne hsame], hkey, hlive⟩
  unretired := by
    intro f' fetch' hfetch' hlive
    rcases getElem?_set_cases hfetch' with ⟨rfl, rfl⟩ | ⟨-, hold⟩
    · refine h.unretired f' fetch hfetch ?_
      rintro ⟨result, hretired⟩
      simp [hstatus] at hretired
    · exact h.unretired f' fetch' hold hlive
  callers := h.callers_set _ hfetch (Fetch.not_retired_of_reading hstatus)
  owners := by
    intro f' hf'
    simp only [finishRead, List.length_set] at hf'
    exact h.owners f' hf'

theorem Good.retire {s : GroupLatch} (h : s.Good) {f : ℕ} {fetch : Fetch}
    {result : GroupResult} (hfetch : s.fetches[f]? = some fetch)
    (hstatus : fetch.status = .read result) :
    (s.retire f fetch result).Good where
  inflight := by
    intro key f' hf'
    have hne : key ≠ fetch.key := by
      rintro rfl
      simp [GroupLatch.retire] at hf'
    simp only [GroupLatch.retire, Function.update_of_ne hne] at hf'
    obtain ⟨fetch', hfetch', hkey, hlive⟩ := h.inflight key f' hf'
    have hother : f ≠ f' := by
      rintro rfl
      obtain rfl : fetch = fetch' := by rwa [hfetch, Option.some_inj] at hfetch'
      exact hne hkey.symm
    exact ⟨fetch', by rwa [GroupLatch.retire, List.getElem?_set_ne hother], hkey, hlive⟩
  unretired := by
    intro f' fetch' hfetch' hlive
    rcases getElem?_set_cases hfetch' with ⟨rfl, rfl⟩ | ⟨hother, hold⟩
    · exact absurd ⟨result, rfl⟩ hlive
    · have hf' := h.unretired f' fetch' hold hlive
      have hf : s.inflight fetch.key = some f :=
        h.unretired f fetch hfetch (Fetch.not_retired_of_read hstatus)
      have hne : fetch'.key ≠ fetch.key := by
        intro heq
        rw [heq, hf] at hf'
        exact hother (by simpa using hf'.symm)
      simp only [GroupLatch.retire, Function.update_of_ne hne]
      exact hf'
  callers := h.callers_set _ hfetch (Fetch.not_retired_of_read hstatus)
  owners := by
    intro f' hf'
    simp only [GroupLatch.retire, List.length_set] at hf'
    exact h.owners f' hf'

theorem Good.wake {s : GroupLatch} (h : s.Good) {c : ℕ} {caller : LatchCaller}
    {fetch : Fetch} {result : GroupResult} (hcaller : s.callers[c]? = some caller)
    (hfetch : s.fetches[caller.fetch]? = some fetch)
    (hstatus : fetch.status = .retired result) : (s.wake c caller result).Good where
  inflight := h.inflight
  unretired := h.unretired
  callers := by
    intro c' caller' hcaller'
    rcases getElem?_set_cases hcaller' with ⟨rfl, rfl⟩ | ⟨-, hold⟩
    · obtain ⟨fetch', hfetch', hkey, -⟩ := h.callers c' caller hcaller
      obtain rfl : fetch = fetch' := by rwa [hfetch, Option.some_inj] at hfetch'
      refine ⟨fetch, hfetch, hkey, ?_⟩
      intro result' hsome
      obtain rfl : result = result' := by simpa using hsome
      exact hstatus
    · exact h.callers c' caller' hold
  owners := by
    intro f hf
    obtain ⟨o, ⟨owner, howner, hflag, hof⟩, hunique⟩ := h.owners f hf
    have hback : ∀ (c' : ℕ) (caller' : LatchCaller),
        (s.wake c caller result).callers[c']? = some caller' →
        ∃ old : LatchCaller, s.callers[c']? = some old ∧
          old.owner = caller'.owner ∧ old.fetch = caller'.fetch := by
      intro c' caller' hcaller'
      rcases getElem?_set_cases hcaller' with ⟨rfl, rfl⟩ | ⟨-, hold⟩
      · exact ⟨caller, hcaller, rfl, rfl⟩
      · exact ⟨caller', hold, rfl, rfl⟩
    refine ⟨o, ?_, ?_⟩
    · by_cases hsame : c = o
      · subst hsame
        obtain rfl : caller = owner := by rwa [hcaller, Option.some_inj] at howner
        exact ⟨_, getElem?_set_of_some hcaller, hflag, hof⟩
      · exact ⟨owner, by rwa [GroupLatch.wake, List.getElem?_set_ne hsame], hflag, hof⟩
    · rintro c' ⟨caller', hcaller', hflag', hof'⟩
      obtain ⟨old, hold, hsameOwner, hsameFetch⟩ := hback c' caller' hcaller'
      exact hunique c' ⟨old, hold, by rw [hsameOwner, hflag'], by rw [hsameFetch, hof']⟩

theorem Step.good {s s' : GroupLatch} (hstep : Step s s') (h : s.Good) : s'.Good := by
  cases hstep with
  | join hinflight => exact h.join hinflight
  | start hinflight => exact h.start _ hinflight
  | finish hfetch hstatus => exact h.finish _ hfetch hstatus
  | retire hfetch hstatus => exact h.retire hfetch hstatus
  | wake hcaller _ hfetch hstatus => exact h.wake hcaller hfetch hstatus

theorem Steps.good {s s' : GroupLatch} (hsteps : Steps s s') (h : s.Good) :
    s'.Good := by
  induction hsteps with
  | refl => exact h
  | tail _ hstep ih => exact hstep.good ih

theorem Reachable.good {s : GroupLatch} (h : Reachable s) : s.Good :=
  Steps.good h good_new

/-! ## What is never taken back -/

/-- Reads keep their keys and ranges, and their results once they have one;
callers keep what they wait for, and their results. -/
structure Extends (s s' : GroupLatch) : Prop where
  fetches : ∀ (f : ℕ) (fetch : Fetch), s.fetches[f]? = some fetch →
    ∃ fetch', s'.fetches[f]? = some fetch' ∧ fetch'.key = fetch.key ∧
      fetch'.gend = fetch.gend ∧
      (fetch.status ≠ .reading → fetch'.status ≠ .reading) ∧
      ∀ result, fetch.status = .retired result → fetch'.status = .retired result
  callers : ∀ (c : ℕ) (caller : LatchCaller), s.callers[c]? = some caller →
    ∃ caller', s'.callers[c]? = some caller' ∧ caller'.key = caller.key ∧
      caller'.fetch = caller.fetch ∧ caller'.owner = caller.owner

theorem Extends.refl (s : GroupLatch) : s.Extends s where
  fetches := fun _ fetch hfetch =>
    ⟨fetch, hfetch, rfl, rfl, fun h => h, fun _ h => h⟩
  callers := fun _ caller hcaller => ⟨caller, hcaller, rfl, rfl, rfl⟩

theorem Extends.trans {s s' s'' : GroupLatch} (h : s.Extends s')
    (h' : s'.Extends s'') : s.Extends s'' where
  fetches := by
    intro f fetch hfetch
    obtain ⟨fetch', hfetch', hkey, hgend, hover, hkeep⟩ := h.fetches f fetch hfetch
    obtain ⟨fetch'', hfetch'', hkey', hgend', hover', hkeep'⟩ :=
      h'.fetches f fetch' hfetch'
    exact ⟨fetch'', hfetch'', hkey'.trans hkey, hgend'.trans hgend,
      fun hread => hover' (hover hread), fun result hresult => hkeep' result (hkeep result hresult)⟩
  callers := by
    intro c caller hcaller
    obtain ⟨caller', hcaller', hkey, hfetch, howner⟩ := h.callers c caller hcaller
    obtain ⟨caller'', hcaller'', hkey', hfetch', howner'⟩ :=
      h'.callers c caller' hcaller'
    exact ⟨caller'', hcaller'', hkey'.trans hkey, hfetch'.trans hfetch,
      howner'.trans howner⟩

theorem extends_of_set {s s' : GroupLatch} {f : ℕ} {fetch : Fetch}
    {status : FetchStatus} (hfetch : s.fetches[f]? = some fetch)
    (hlive : ¬ fetch.Retired) (hover : status ≠ .reading)
    (hfetches : s'.fetches = s.fetches.set f { fetch with status })
    (hcallers : s'.callers = s.callers) : s.Extends s' where
  fetches := by
    intro f' fetch' hfetch'
    rw [hfetches]
    by_cases hsame : f = f'
    · subst hsame
      obtain rfl : fetch = fetch' := by rwa [hfetch, Option.some_inj] at hfetch'
      exact ⟨_, getElem?_set_of_some hfetch, rfl, rfl, fun _ => hover,
        fun result hresult => absurd ⟨result, hresult⟩ hlive⟩
    · exact ⟨fetch', by rwa [List.getElem?_set_ne hsame], rfl, rfl, fun h => h,
        fun _ h => h⟩
  callers := by
    intro c caller hcaller
    exact ⟨caller, by rwa [hcallers], rfl, rfl, rfl⟩

theorem Step.extends {s s' : GroupLatch} (hstep : Step s s') : s.Extends s' := by
  cases hstep with
  | join hinflight =>
      exact ⟨(Extends.refl s).fetches, fun c caller hcaller =>
        ⟨caller, getElem?_append_of_some hcaller _, rfl, rfl, rfl⟩⟩
  | start hinflight =>
      exact ⟨fun f fetch hfetch =>
          ⟨fetch, getElem?_append_of_some hfetch _, rfl, rfl, fun h => h,
            fun _ h => h⟩,
        fun c caller hcaller =>
          ⟨caller, getElem?_append_of_some hcaller _, rfl, rfl, rfl⟩⟩
  | finish hfetch hstatus =>
      exact extends_of_set hfetch (Fetch.not_retired_of_reading hstatus) (by simp)
        rfl rfl
  | retire hfetch hstatus =>
      exact extends_of_set hfetch (Fetch.not_retired_of_read hstatus) (by simp)
        rfl rfl
  | @wake c caller fetch result hcaller hwaits hfetch hstatus =>
      refine ⟨(Extends.refl s).fetches, ?_⟩
      intro c' caller' hcaller'
      by_cases hsame : c = c'
      · subst hsame
        obtain rfl : caller = caller' := by rwa [hcaller, Option.some_inj] at hcaller'
        exact ⟨_, getElem?_set_of_some hcaller, rfl, rfl, rfl⟩
      · exact ⟨caller', by rwa [GroupLatch.wake, List.getElem?_set_ne hsame], rfl, rfl, rfl⟩

theorem extends_of_steps {s s' : GroupLatch} (h : Steps s s') : s.Extends s' :=
  rel_of_steps Extends.refl (fun _ _ _ => Extends.trans) (fun _ _ => Step.extends) h

/-! ## The latch -/

/-- At most one read of a group is going on. -/
def OneInFlight (s : GroupLatch) : Prop :=
  ∀ (f f' : ℕ) (fetch fetch' : Fetch), s.fetches[f]? = some fetch →
    s.fetches[f']? = some fetch' → fetch.status = .reading →
    fetch'.status = .reading → fetch.key = fetch'.key → f = f'

/-- Each read has one owner among the callers. -/
def OneOwner (s : GroupLatch) : Prop :=
  ∀ f < s.fetches.length, ∃! c : ℕ, ∃ caller : LatchCaller,
    s.callers[c]? = some caller ∧ caller.owner = true ∧ caller.fetch = f

/-- The step is the call of `caller`. -/
def Enters (s s' : GroupLatch) (caller : LatchCaller) : Prop :=
  Step s s' ∧ s'.callers = s.callers ++ [caller]

/-- A caller which enters gets the result of a read of its own group that was
not retired then. -/
def ServedLive (s : GroupLatch) : Prop :=
  ∀ (s' : GroupLatch) (caller : LatchCaller), s.Enters s' caller →
    (∀ fetch, s.fetches[caller.fetch]? = some fetch → ¬ fetch.Retired) ∧
    ∀ (s'' : GroupLatch) (caller' : LatchCaller), Steps s' s'' →
      s''.callers[s.callers.length]? = some caller' →
      ∀ result, caller'.result = some result →
        ∃ fetch, s''.fetches[caller.fetch]? = some fetch ∧
          fetch.key = caller.key ∧ fetch.status = .retired result

/-- When a read is retired, with whatever result, the next caller of its group
starts another one. -/
def FreshAfterRetired (s : GroupLatch) : Prop :=
  ∀ (f : ℕ) (fetch : Fetch) (result : GroupResult),
    s.fetches[f]? = some fetch → fetch.status = .read result →
    ∀ s', Steps (s.retire f fetch result) s' →
      (∀ c caller, s'.callers[c]? = some caller → caller.key = fetch.key →
        c < s.callers.length) →
      ∀ s'' caller, s'.Enters s'' caller → caller.key = fetch.key →
        caller.owner = true ∧ caller.fetch = s'.fetches.length ∧
          ∃ gend, s''.fetches = s'.fetches ++ [⟨fetch.key, gend, .reading⟩]

/-- Every caller can be given a result. -/
def AllServed (s : GroupLatch) : Prop :=
  ∀ (c : ℕ) (caller : LatchCaller), s.callers[c]? = some caller →
    caller.result = none → ∃ (s' : GroupLatch) (result : GroupResult),
      Steps s s' ∧ s'.callers[c]? = some { caller with result := some result }

theorem Enters.cases {s s' : GroupLatch} {caller : LatchCaller}
    (h : s.Enters s' caller) :
    (∃ f, s.inflight caller.key = some f ∧ s' = s.joinFetch caller.key f ∧
      caller.fetch = f ∧ caller.owner = false) ∨
    (∃ gend, s.inflight caller.key = none ∧ s' = s.startFetch caller.key gend ∧
      caller.fetch = s.fetches.length ∧ caller.owner = true) := by
  obtain ⟨hstep, hcallers⟩ := h
  cases hstep with
  | join hinflight =>
      obtain rfl := by simpa [joinFetch] using hcallers
      exact Or.inl ⟨_, hinflight, rfl, rfl, rfl⟩
  | start hinflight =>
      obtain rfl := by simpa [startFetch] using hcallers
      exact Or.inr ⟨_, hinflight, rfl, rfl, rfl⟩
  | finish _ _ => simp [finishRead] at hcallers
  | retire _ _ => simp [GroupLatch.retire] at hcallers
  | wake _ _ _ _ =>
      have hlength := congrArg List.length hcallers
      simp [GroupLatch.wake] at hlength

theorem Good.oneInFlight {s : GroupLatch} (h : s.Good) : s.OneInFlight := by
  intro f f' fetch fetch' hfetch hfetch' hstatus hstatus' hkey
  have hf := h.unretired f fetch hfetch (Fetch.not_retired_of_reading hstatus)
  have hf' := h.unretired f' fetch' hfetch' (Fetch.not_retired_of_reading hstatus')
  rw [hkey, hf'] at hf
  simpa using hf.symm

theorem Good.servedLive {s : GroupLatch} (h : s.Good) : s.ServedLive := by
  intro s' caller henters
  have hgood : s'.Good := henters.1.good h
  have hcaller : s'.callers[s.callers.length]? = some caller := by
    rw [henters.2]
    exact List.getElem?_concat_length
  refine ⟨?_, ?_⟩
  · intro fetch hfetch
    rcases henters.cases with ⟨f, hinflight, -, rfl, -⟩ | ⟨gend, -, -, hnew, -⟩
    · obtain ⟨fetch', hfetch', -, hlive⟩ := h.inflight caller.key _ hinflight
      obtain rfl : fetch' = fetch := by rwa [hfetch', Option.some_inj] at hfetch
      exact hlive
    · have hlt := (List.getElem?_eq_some_iff.mp hfetch).1
      omega
  · intro s'' caller' hsteps hcaller' result hresult
    have hextends := extends_of_steps hsteps
    have hgood' : s''.Good := Steps.good hsteps hgood
    obtain ⟨later, hlater, hkey, hfetch, -⟩ := hextends.callers _ caller hcaller
    obtain rfl : later = caller' := by rwa [hlater, Option.some_inj] at hcaller'
    obtain ⟨fetch, hfetch', hkey', hstatus⟩ := hgood'.callers _ later hlater
    rw [hfetch] at hfetch'
    exact ⟨fetch, hfetch', hkey'.trans hkey, hstatus result hresult⟩

theorem Good.freshAfterRetired {s : GroupLatch} (h : s.Good) :
    s.FreshAfterRetired := by
  intro f fetch result hfetch hstatus s' hsteps hnone s'' caller henters hkey
  have hretired : (s.retire f fetch result).Good := h.retire hfetch hstatus
  have hgood : s'.Good := Steps.good hsteps hretired
  have hextends := extends_of_steps hsteps
  -- a read of the group would have an owner, which would have entered since
  have hempty : s'.inflight fetch.key = none := by
    by_contra hsome
    obtain ⟨f', hf'⟩ := Option.ne_none_iff_exists'.mp hsome
    obtain ⟨fetch', hfetch', hkey', hlive⟩ := hgood.inflight fetch.key f' hf'
    obtain ⟨c, ⟨owner, howner, -, hof⟩, -⟩ :=
      hgood.owners f' (List.getElem?_eq_some_iff.mp hfetch').1
    obtain ⟨fetch'', hfetch'', howns, -⟩ := hgood.callers c owner howner
    rw [hof, hfetch', Option.some_inj] at hfetch''
    subst hfetch''
    have hlt := hnone c owner howner (howns.symm.trans hkey')
    obtain ⟨old, hold⟩ : ∃ old, s.callers[c]? = some old :=
      ⟨_, List.getElem?_eq_getElem hlt⟩
    obtain ⟨later, hlater, -, holdFetch, -⟩ := hextends.callers c old hold
    obtain rfl : later = owner := by rwa [hlater, Option.some_inj] at howner
    rw [hof] at holdFetch
    obtain ⟨before, hbefore, -, -⟩ := hretired.callers c old hold
    rw [← holdFetch] at hbefore
    obtain ⟨after, hafter, hafterKey, -, -, hkeep⟩ := hextends.fetches f' before hbefore
    rw [hfetch', Option.some_inj] at hafter
    subst hafter
    have hinflight := hretired.unretired f' before hbefore fun ⟨r, hr⟩ =>
      hlive ⟨r, hkeep r hr⟩
    rw [← hafterKey, hkey'] at hinflight
    simp [GroupLatch.retire] at hinflight
  rw [← hkey] at hempty
  rcases henters.cases with ⟨f', hinflight, -, -, -⟩ | ⟨gend, -, rfl, hnew, howner⟩
  · rw [hempty] at hinflight
    simp at hinflight
  · refine ⟨howner, hnew, gend, ?_⟩
    rw [← hkey]
    rfl

theorem Good.allServed {s : GroupLatch} (h : s.Good) : s.AllServed := by
  intro c caller hcaller hwaits
  obtain ⟨fetch, hfetch, -, -⟩ := h.callers c caller hcaller
  have hretired : ∀ (s' : GroupLatch) (fetch' : Fetch) (result : GroupResult),
      s'.callers[c]? = some caller → s'.fetches[caller.fetch]? = some fetch' →
      fetch'.status = .retired result →
      ∃ s'' result, Steps s' s'' ∧
        s''.callers[c]? = some { caller with result := some result } := by
    intro s' fetch' result hcaller' hfetch' hstatus
    exact ⟨_, result, .single (.wake hcaller' hwaits hfetch' hstatus),
      getElem?_set_of_some hcaller'⟩
  have hread : ∀ (s' : GroupLatch) (fetch' : Fetch) (result : GroupResult),
      s'.callers[c]? = some caller → s'.fetches[caller.fetch]? = some fetch' →
      fetch'.status = .read result →
      ∃ s'' result, Steps s' s'' ∧
        s''.callers[c]? = some { caller with result := some result } := by
    intro s' fetch' result hcaller' hfetch' hstatus
    obtain ⟨s'', result', hsteps, hcaller''⟩ := hretired
      (s'.retire caller.fetch fetch' result) _ result hcaller'
      (getElem?_set_of_some hfetch') rfl
    exact ⟨s'', result', .head (.retire hfetch' hstatus) hsteps, hcaller''⟩
  cases hstatus : fetch.status with
  | reading =>
      obtain ⟨s', result, hsteps, hcaller'⟩ := hread
        (s.finishRead caller.fetch fetch (.ok [])) _ _ hcaller
        (getElem?_set_of_some hfetch) rfl
      exact ⟨s', result, .head (.finish hfetch hstatus) hsteps, hcaller'⟩
  | read result => exact hread s fetch result hcaller hfetch hstatus
  | retired result => exact hretired s fetch result hcaller hfetch hstatus

/-- One live read for a group, and no dead ones. -/
theorem groupLatch_correct {s : GroupLatch} (h : Reachable s) :
    s.OneInFlight ∧ s.OneOwner ∧ s.ServedLive ∧ s.FreshAfterRetired ∧
      s.AllServed :=
  ⟨h.good.oneInFlight, h.good.owners, h.good.servedLive,
    h.good.freshAfterRetired, h.good.allServed⟩

theorem groupLatch_correct_joined :
    let s := (new.startFetch (0, 0) 4).joinFetch (0, 0) 0
    s.OneInFlight ∧ s.OneOwner ∧ s.ServedLive ∧ s.FreshAfterRetired ∧
      s.AllServed :=
  groupLatch_correct
    ((Relation.ReflTransGen.single (Step.start rfl)).tail (Step.join rfl))

end GroupLatch

end Foyer
end ImageReader
