import Mathlib.Tactic

/-!
# Threads over a shared state

A thread is a program whose only contact with the others is through atomic
steps on a shared state.  It may branch on what a step saw, on a choice the
scheduler makes for it, and on the results of children which it runs side by
side and waits for until they are `ready`; a child which has no result by then
is dropped.

`Keeps` is the rule of reasoning: every atomic step keeps an invariant of the
shared state, whatever state of the invariant it meets, and the results
satisfy a postcondition.  `Runs.keeps` carries it through every interleaving,
also with an environment that keeps the invariant.

A state behind a lock is a `Mutex`: what a thread does while it holds the lock
is one step, and a panic in it poisons the lock.
-/

namespace ImageReader

open Relation (ReflTransGen) in
/-- What holds of each step, of no step and of two runs behind one another,
holds of a run. -/
theorem rel_of_steps {σ : Type} {step rel : σ → σ → Prop} {s s' : σ}
    (hrefl : ∀ s, rel s s) (htrans : ∀ s s' s'', rel s s' → rel s' s'' → rel s s'')
    (hstep : ∀ s s', step s s' → rel s s') (h : ReflTransGen step s s') :
    rel s s' := by
  have : Std.Refl rel := ⟨hrefl⟩
  have : IsTrans σ rel := ⟨htrans⟩
  rw [← @Relation.reflTransGen_eq_self σ rel]
  exact ReflTransGen.mono hstep _ _ h

inductive Thread (σ : Type) : Type → Type 1 where
  | done {α : Type} (result : α) : Thread σ α
  /-- `next` is given the state before the update -/
  | atomic {α : Type} (update : σ → σ) (next : σ → Thread σ α) : Thread σ α
  | choose {α : Type} (next : ℕ → Thread σ α) : Thread σ α
  | join {α β : Type} {n : ℕ} (children : Fin n → Thread σ β)
      (ready : (Fin n → Option β) → Prop)
      (next : (Fin n → Option β) → Thread σ α) : Thread σ α

namespace Thread

variable {σ α β γ : Type}

def bind {α β : Type} : Thread σ α → (α → Thread σ β) → Thread σ β
  | done a, f => f a
  | atomic update next, f => atomic update fun s => (next s).bind f
  | choose next, f => choose fun n => (next n).bind f
  | join children ready next, f =>
      join children ready fun results => (next results).bind f

instance : Monad (Thread σ) where
  pure := done
  bind := bind

@[simp] theorem pure_eq (a : α) : (pure a : Thread σ α) = done a := rfl

@[simp] theorem done_bind (a : α) (f : α → Thread σ β) :
    (done a : Thread σ α).bind f = f a := rfl

@[simp] theorem bind_eq (t : Thread σ α) (f : α → Thread σ β) :
    (t >>= f) = t.bind f := rfl

def result? {α : Type} : Thread σ α → Option α
  | done a => some a
  | _ => none

/-! ## Runs -/

/-- One step of a thread or of its environment. -/
inductive Step (env : σ → σ → Prop) :
    {α : Type} → σ → Thread σ α → σ → Thread σ α → Prop
  | env {α : Type} {s s' : σ} {t : Thread σ α} (h : env s s') :
      Step env s t s' t
  | atomic {α : Type} {s : σ} {update : σ → σ} {next : σ → Thread σ α} :
      Step env s (.atomic update next) (update s) (next s)
  | choose {α : Type} {s : σ} {next : ℕ → Thread σ α} (n : ℕ) :
      Step env s (.choose next) s (next n)
  | child {α β : Type} {n : ℕ} {s s' : σ} {children : Fin n → Thread σ β}
      {ready : (Fin n → Option β) → Prop}
      {next : (Fin n → Option β) → Thread σ α} {t : Thread σ β} (i : Fin n)
      (h : Step env s (children i) s' t) :
      Step env s (.join children ready next) s'
        (.join (Function.update children i t) ready next)
  | join {α β : Type} {n : ℕ} {s : σ} {children : Fin n → Thread σ β}
      {ready : (Fin n → Option β) → Prop}
      {next : (Fin n → Option β) → Thread σ α}
      (h : ready fun i => (children i).result?) :
      Step env s (.join children ready next) s
        (next fun i => (children i).result?)

inductive Runs (env : σ → σ → Prop) {α : Type} :
    σ → Thread σ α → σ → Thread σ α → Prop
  | refl {s : σ} {t : Thread σ α} : Runs env s t s t
  | head {s s' s'' : σ} {t t' t'' : Thread σ α} (hstep : Step env s t s' t')
      (hrest : Runs env s' t' s'' t'') : Runs env s t s'' t''

/-- A run to the end. -/
def Ends (env : σ → σ → Prop) (s : σ) (t : Thread σ α) (a : α) (s' : σ) :
    Prop :=
  Runs env s t s' (.done a)

variable {env : σ → σ → Prop} {s s' s'' : σ} {t t' t'' : Thread σ α}

theorem Runs.trans (h : Runs env s t s' t') (h' : Runs env s' t' s'' t'') :
    Runs env s t s'' t'' := by
  induction h with
  | refl => exact h'
  | head hstep _ ih => exact .head hstep (ih h')

theorem Step.bind {f : α → Thread σ β} (h : Step env s t s' t') :
    Step env s (t.bind f) s' (t'.bind f) := by
  cases h with
  | env h => exact .env h
  | atomic => exact .atomic
  | choose n => exact .choose n
  | child i h => exact .child i h
  | join h => exact .join h

theorem Runs.bind {f : α → Thread σ β} (h : Runs env s t s' t') :
    Runs env s (t.bind f) s' (t'.bind f) := by
  induction h with
  | refl => exact .refl
  | head hstep _ ih => exact .head hstep.bind ih

theorem Ends.bind {f : α → Thread σ β} {a : α} {b : β}
    (h : Ends env s t a s') (h' : Ends env s' (f a) b s'') :
    Ends env s (t.bind f) b s'' :=
  Runs.trans (Runs.bind h) h'

theorem Runs.child {n : ℕ} {children : Fin n → Thread σ α}
    {ready : (Fin n → Option α) → Prop}
    {next : (Fin n → Option α) → Thread σ β} (i : Fin n)
    (h : Runs env s t s' t') (hchild : children i = t) :
    Runs env s (.join children ready next) s'
      (.join (Function.update children i t') ready next) := by
  induction h generalizing children with
  | @refl s t =>
      have hsame : Function.update children i t = children := by
        rw [← hchild, Function.update_eq_self]
      rw [hsame]
      exact .refl
  | @head s s' s'' t t' t'' hstep _ ih =>
      have hstep' : Step env s (.join children ready next) s'
          (.join (Function.update children i t') ready next) :=
        .child i (by rw [hchild]; exact hstep)
      have hrest := @ih (Function.update children i t')
        (Function.update_self i t' children)
      rw [Function.update_idem] at hrest
      exact .head hstep' hrest

theorem Step.mono {env' : σ → σ → Prop} (henv : ∀ s s', env s s' → env' s s')
    (h : Step env s t s' t') : Step env' s t s' t' := by
  induction h with
  | env h => exact .env (henv _ _ h)
  | atomic => exact .atomic
  | choose n => exact .choose n
  | child i _ ih => exact .child i ih
  | join h => exact .join h

theorem Runs.mono {env' : σ → σ → Prop} (henv : ∀ s s', env s s' → env' s s')
    (h : Runs env s t s' t') : Runs env' s t s' t' := by
  induction h with
  | refl => exact .refl
  | head hstep _ ih => exact .head (hstep.mono henv) ih

/-! ## Threads which run alone -/

/-- No other thread and no environment. -/
def alone (_ _ : σ) : Prop := False

/-- A thread can run alone also next to others. -/
theorem Ends.of_alone {a : α} (h : Ends alone s t a s') : Ends env s t a s' :=
  Runs.mono (fun _ _ h => h.elim) h

theorem runs_done_iff {a : α} :
    Runs alone s (.done a) s' t' ↔ s' = s ∧ t' = .done a := by
  constructor
  · intro h
    cases h with
    | refl => exact ⟨rfl, rfl⟩
    | head hstep _ =>
        cases hstep with
        | env h => exact h.elim
  · rintro ⟨rfl, rfl⟩
    exact .refl

theorem ends_done_iff {a b : α} :
    Ends alone s (.done a) b s' ↔ b = a ∧ s' = s := by
  unfold Ends
  rw [runs_done_iff]
  constructor
  · rintro ⟨hs, ht⟩
    exact ⟨by simpa using ht, hs⟩
  · rintro ⟨hb, hs⟩
    exact ⟨hs, by rw [hb]⟩

theorem ends_atomic_iff {update : σ → σ} {next : σ → Thread σ α} {b : α} :
    Ends alone s (.atomic update next) b s' ↔
      Ends alone (update s) (next s) b s' := by
  constructor
  · intro h
    cases h with
    | head hstep hrest =>
        cases hstep with
        | env h => exact h.elim
        | atomic => exact hrest
  · exact fun h => .head .atomic h

/-! ## The rule -/

/-- Every atomic step keeps the invariant, and the result satisfies the
postcondition. -/
def Keeps (Inv : σ → Prop) {α : Type} : Thread σ α → (α → Prop) → Prop
  | done a, Post => Post a
  | atomic update next, Post =>
      ∀ s, Inv s → Inv (update s) ∧ (next s).Keeps Inv Post
  | choose next, Post => ∀ n, (next n).Keeps Inv Post
  | @join _ _ β n children ready next, Post =>
      ∃ Mid : Fin n → β → Prop,
        (∀ i, (children i).Keeps Inv (Mid i)) ∧
        ∀ results, ready results →
          (∀ i b, results i = some b → Mid i b) →
          (next results).Keeps Inv Post

variable {Inv : σ → Prop} {Post : α → Prop}

theorem Keeps.mono {Post' : α → Prop} (h : t.Keeps Inv Post)
    (himp : ∀ a, Post a → Post' a) : t.Keeps Inv Post' := by
  induction t with
  | done a => exact himp a h
  | atomic update next ih =>
      intro s hs
      exact ⟨(h s hs).1, ih s (h s hs).2 himp⟩
  | choose next ih => exact fun n => ih n (h n) himp
  | join children ready next _ ih =>
      obtain ⟨Mid, hchildren, hnext⟩ := h
      refine ⟨Mid, hchildren, ?_⟩
      intro results hready hresults
      exact ih results (hnext results hready hresults) himp

/-- Two postconditions under one invariant. -/
theorem Keeps.and {Post' : α → Prop} (h : t.Keeps Inv Post)
    (h' : t.Keeps Inv Post') : t.Keeps Inv fun a => Post a ∧ Post' a := by
  induction t with
  | done a => exact ⟨h, h'⟩
  | atomic update next ih =>
      intro s hs
      exact ⟨(h s hs).1, ih s (h s hs).2 (h' s hs).2⟩
  | choose next ih => exact fun n => ih n (h n) (h' n)
  | join children ready next ihchildren ih =>
      obtain ⟨Mid, hchildren, hnext⟩ := h
      obtain ⟨Mid', hchildren', hnext'⟩ := h'
      refine ⟨fun i b => Mid i b ∧ Mid' i b,
        fun i => ihchildren i (hchildren i) (hchildren' i), ?_⟩
      intro results hready hresults
      exact ih results
        (hnext results hready fun i b hb => (hresults i b hb).1)
        (hnext' results hready fun i b hb => (hresults i b hb).2)

theorem Keeps.bind {f : α → Thread σ β} {Post' : β → Prop}
    (h : t.Keeps Inv Post) (hf : ∀ a, Post a → (f a).Keeps Inv Post') :
    (t.bind f).Keeps Inv Post' := by
  induction t with
  | done a => exact hf a h
  | atomic update next ih =>
      intro s hs
      exact ⟨(h s hs).1, ih s (h s hs).2 hf⟩
  | choose next ih => exact fun n => ih n (h n) hf
  | join children ready next _ ih =>
      obtain ⟨Mid, hchildren, hnext⟩ := h
      refine ⟨Mid, hchildren, ?_⟩
      intro results hready hresults
      exact ih results (hnext results hready hresults) hf

/-- There is always something that a thread keeps. -/
theorem keeps_true (t : Thread σ α) : t.Keeps (fun _ => True) fun _ => True := by
  induction t with
  | done a => trivial
  | atomic update next ih => exact fun s _ => ⟨trivial, ih s⟩
  | choose next ih => exact ih
  | join children ready next ihchildren ih =>
      exact ⟨fun _ _ => True, ihchildren, fun results _ _ => ih results⟩

theorem Keeps.result? {a : α} (h : t.Keeps Inv Post)
    (hresult : t.result? = some a) : Post a := by
  cases t with
  | done b =>
      obtain rfl : b = a := by simpa [Thread.result?] using hresult
      exact h
  | atomic => simp [Thread.result?] at hresult
  | choose => simp [Thread.result?] at hresult
  | join => simp [Thread.result?] at hresult

theorem Step.keeps (henv : ∀ s s', env s s' → Inv s → Inv s')
    (hstep : Step env s t s' t') (hs : Inv s) (h : t.Keeps Inv Post) :
    Inv s' ∧ t'.Keeps Inv Post := by
  induction hstep with
  | env hchange => exact ⟨henv _ _ hchange hs, h⟩
  | atomic => exact h _ hs
  | choose n => exact ⟨hs, h n⟩
  | @child _ _ _ s s' children ready next t i hstep ih =>
      obtain ⟨Mid, hchildren, hnext⟩ := h
      obtain ⟨hs', hchild⟩ := ih hs (hchildren i)
      refine ⟨hs', Mid, ?_, hnext⟩
      intro j
      by_cases hj : j = i
      · subst hj
        rw [Function.update_self]
        exact hchild
      · rw [Function.update_of_ne hj]
        exact hchildren j
  | join hready =>
      obtain ⟨Mid, hchildren, hnext⟩ := h
      exact ⟨hs, hnext _ hready fun i b hb => (hchildren i).result? hb⟩

theorem Runs.keeps (henv : ∀ s s', env s s' → Inv s → Inv s')
    (hrun : Runs env s t s' t') (hs : Inv s) (h : t.Keeps Inv Post) :
    Inv s' ∧ t'.Keeps Inv Post := by
  induction hrun with
  | refl => exact ⟨hs, h⟩
  | head hstep _ ih =>
      obtain ⟨hs', h'⟩ := hstep.keeps henv hs h
      exact ih hs' h'

theorem Ends.keeps {a : α} (henv : ∀ s s', env s s' → Inv s → Inv s')
    (hrun : Ends env s t a s') (hs : Inv s) (h : t.Keeps Inv Post) :
    Inv s' ∧ Post a :=
  Runs.keeps henv hrun hs h

/-! ## Runs to the end -/

/-- Every join is ready once all its children have a result. -/
def Live {α : Type} : Thread σ α → Prop
  | done _ => True
  | atomic _ next => ∀ s, (next s).Live
  | choose next => ∀ n, (next n).Live
  | @join _ _ β n children ready next =>
      (∀ i, (children i).Live) ∧
        (∀ results : Fin n → β, ready fun i => some (results i)) ∧
        ∀ results, (next results).Live

theorem Live.bind {f : α → Thread σ β} (h : t.Live) (hf : ∀ a, (f a).Live) :
    (t.bind f).Live := by
  induction t with
  | done a => exact hf a
  | atomic update next ih => exact fun s => ih s (h s) hf
  | choose next ih => exact fun n => ih n (h n) hf
  | join children ready next _ ih =>
      exact ⟨h.1, h.2.1, fun results => ih results (h.2.2 results) hf⟩

theorem Step.live (hstep : Step env s t s' t') (h : t.Live) : t'.Live := by
  induction hstep with
  | env _ => exact h
  | @atomic _ s _ _ => exact h s
  | choose n => exact h n
  | @child _ _ _ _ _ children _ _ t i _ ih =>
      refine ⟨?_, h.2⟩
      intro j
      by_cases hj : j = i
      · subst hj
        rw [Function.update_self]
        exact ih (h.1 j)
      · rw [Function.update_of_ne hj]
        exact h.1 j
  | join _ => exact h.2.2 _

theorem Runs.live (hrun : Runs env s t s' t') (h : t.Live) : t'.Live := by
  induction hrun with
  | refl => exact h
  | head hstep _ ih => exact ih (hstep.live h)

/-- Children which can be run to their ends can be run there one after
another. -/
theorem Runs.children {n : ℕ} {children : Fin n → Thread σ α}
    (ready : (Fin n → Option α) → Prop)
    (next : (Fin n → Option α) → Thread σ β) (Mid : Fin n → α → Prop)
    (h : ∀ i s, Inv s → ∃ a s', Ends env s (children i) a s' ∧ Inv s' ∧ Mid i a)
    (hs : Inv s) :
    ∃ results : Fin n → α, (∀ i, Mid i (results i)) ∧
      ∃ s', Inv s' ∧ Runs env s (.join children ready next) s'
        (.join (fun i => .done (results i)) ready next) := by
  have hprogress : ∀ k ≤ n, ∃ (children' : Fin n → Thread σ α) (s' : σ),
      Inv s' ∧
      Runs env s (.join children ready next) s' (.join children' ready next) ∧
      ∀ i : Fin n, (i.val < k → ∃ a, Mid i a ∧ children' i = .done a) ∧
        (k ≤ i.val → children' i = children i) := by
    intro k
    induction k with
    | zero =>
        intro _
        exact ⟨children, s, hs, .refl,
          fun i => ⟨fun hi => absurd hi (Nat.not_lt_zero _), fun _ => rfl⟩⟩
    | succ k ih =>
        intro hk
        obtain ⟨children', s', hs', hrun, hchildren⟩ := ih (by omega)
        obtain ⟨a, s'', hends, hs'', ha⟩ := h ⟨k, hk⟩ s' hs'
        refine ⟨Function.update children' ⟨k, hk⟩ (.done a), s'', hs'',
          hrun.trans (Runs.child ⟨k, hk⟩ hends
            ((hchildren ⟨k, hk⟩).2 (le_refl k))), ?_⟩
        intro i
        by_cases hi : i = ⟨k, hk⟩
        · subst hi
          rw [Function.update_self]
          exact ⟨fun _ => ⟨a, ha, rfl⟩, fun hle => absurd hle (by simp)⟩
        · have hne : i.val ≠ k := fun hval => hi (Fin.ext hval)
          rw [Function.update_of_ne hi]
          exact ⟨fun hlt => (hchildren i).1 (by omega),
            fun hle => (hchildren i).2 (by omega)⟩
  obtain ⟨children', s', hs', hrun, hchildren⟩ := hprogress n le_rfl
  choose results hresults using fun i : Fin n => (hchildren i).1 i.isLt
  refine ⟨results, fun i => (hresults i).1, s', hs', ?_⟩
  rwa [show children' = fun i => .done (results i) from
    funext fun i => (hresults i).2] at hrun

/-- A live thread can be run to its end, from any state. -/
theorem Live.ends (env : σ → σ → Prop) (h : t.Live) (s : σ) :
    ∃ a s', Ends env s t a s' := by
  induction t generalizing s with
  | done a => exact ⟨a, s, .refl⟩
  | atomic update next ih =>
      obtain ⟨a, s', hends⟩ := ih s (h s) (update s)
      exact ⟨a, s', .head .atomic hends⟩
  | choose next ih =>
      obtain ⟨a, s', hends⟩ := ih 0 (h 0) s
      exact ⟨a, s', .head (.choose 0) hends⟩
  | @join α β n children ready next ihchildren ih =>
      have hchildren : ∀ i s, True →
          ∃ a s', Ends env s (children i) a s' ∧ True ∧ True := by
        intro i s _
        obtain ⟨a, s', hends⟩ := ihchildren i (h.1 i) s
        exact ⟨a, s', hends, trivial, trivial⟩
      obtain ⟨results, -, s', -, hrun⟩ := Runs.children ready next
        (fun _ _ => True) hchildren (s := s) trivial
      obtain ⟨a, s'', hends⟩ := ih (fun i => some (results i)) (h.2.2 _) s'
      exact ⟨a, s'', hrun.trans (.head (.join (h.2.1 results)) hends)⟩

/-- A run of the thread can always be taken to an end, and each end satisfies
the postcondition. -/
def Always (env : σ → σ → Prop) (s : σ) (t : Thread σ α) (Post : α → Prop) :
    Prop :=
  (∀ s' t', Runs env s t s' t' → ∃ a s'', Ends env s' t' a s'') ∧
    ∀ a s', Ends env s t a s' → Post a

theorem Always.mono {Post' : α → Prop} (h : Always env s t Post)
    (himp : ∀ a, Post a → Post' a) : Always env s t Post' :=
  ⟨h.1, fun a s' hends => himp a (h.2 a s' hends)⟩

theorem always_of_keeps (henv : ∀ s s', env s s' → Inv s → Inv s')
    (hs : Inv s) (hlive : t.Live) (h : t.Keeps Inv Post) :
    Always env s t Post :=
  ⟨fun s' _ hrun => (hrun.live hlive).ends env s',
    fun _ _ hends => (hends.keeps henv hs h).2⟩

end Thread

/-! ## Values behind locks -/

/-- A value behind a lock, and whether a thread has panicked while it held the
lock. -/
structure Mutex (σ : Type) where
  value : σ
  poisoned : Bool

namespace Mutex

variable {σ : Type}

def new (value : σ) : Mutex σ := ⟨value, false⟩

/-- The value has the property, and a lock that is to be `clean` is not
poisoned. -/
structure Holds (clean : Prop) (P : σ → Prop) (mutex : Mutex σ) : Prop where
  value : P mutex.value
  unpoisoned : clean → mutex.poisoned = false

theorem holds_new {clean : Prop} {P : σ → Prop} {value : σ} (h : P value) :
    (new value).Holds clean P :=
  ⟨h, fun _ => rfl⟩

end Mutex

namespace Thread

variable {σ α : Type} {update : σ → Mutex σ} {poisoned : Thread (Mutex σ) α}
  {next : σ → Thread (Mutex σ) α}

/-- `update` while the lock is held, and on with the value it found; a thread
which finds the lock poisoned goes on with `poisoned`. -/
def lock (update : σ → Mutex σ) (poisoned : Thread (Mutex σ) α)
    (next : σ → Thread (Mutex σ) α) : Thread (Mutex σ) α :=
  .atomic (fun mutex => if mutex.poisoned then mutex else update mutex.value)
    fun mutex => if mutex.poisoned then poisoned else next mutex.value

theorem live_lock (update : σ → Mutex σ) (hpoisoned : poisoned.Live)
    (hnext : ∀ s, (next s).Live) : (lock update poisoned next).Live := by
  intro mutex
  simp only
  split
  · exact hpoisoned
  · exact hnext mutex.value

theorem keeps_lock {clean : Prop} {P : σ → Prop} {Post : α → Prop}
    (hpoisoned : ¬ clean → poisoned.Keeps (Mutex.Holds clean P) Post)
    (hnext : ∀ s, P s → (update s).Holds clean P ∧
      (next s).Keeps (Mutex.Holds clean P) Post) :
    (lock update poisoned next).Keeps (Mutex.Holds clean P) Post := by
  intro mutex hmutex
  by_cases hset : mutex.poisoned = true
  · simp only [if_pos hset]
    exact ⟨hmutex, hpoisoned fun hclean => by
      simp [hmutex.unpoisoned hclean] at hset⟩
  · simp only [if_neg hset]
    exact hnext mutex.value hmutex.value

theorem ends_lock_iff {mutex mutex' : Mutex σ} {a : α} :
    Ends alone mutex (lock update poisoned next) a mutex' ↔
      if mutex.poisoned then Ends alone mutex poisoned a mutex'
      else Ends alone (update mutex.value) (next mutex.value) a mutex' := by
  unfold lock
  rw [ends_atomic_iff]
  split_ifs <;> rfl

end Thread

end ImageReader
