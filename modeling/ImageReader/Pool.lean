import ImageReader.Interleave
import ImageReader.Outcome

/-!
# Pools of threads

A pool is a shared state with the threads of the calls made so far.  A thread
which goes on without its children, because it was ready before they were,
leaves them in the pool as detached threads, and so does one which spawns
another and does not wait.

`Upholds` is `Keeps` with a history.  A contract has an invariant of the
states and an order in which they grow.  What a thread has seen of a state can
be carried on as far as the order keeps it, so a postcondition may speak about
the state in which it is claimed, and holds in all later states.
-/

namespace ImageReader

/-! ## Lists which grow -/

section Lists

variable {α : Type*} {xs : List α} {a b : α} {i j : ℕ}

theorem getElem?_append_singleton (h : (xs ++ [a])[i]? = some b) :
    xs[i]? = some b ∨ i = xs.length ∧ b = a := by
  rcases Nat.lt_trichotomy i xs.length with hlt | rfl | hgt
  · rw [List.getElem?_append_left hlt] at h
    exact Or.inl h
  · rw [List.getElem?_concat_length] at h
    exact Or.inr ⟨rfl, by simpa using h.symm⟩
  · rw [List.getElem?_eq_none (by simp; omega)] at h
    simp at h

theorem getElem?_append_of_some (h : xs[i]? = some b) (ys : List α) :
    (xs ++ ys)[i]? = some b := by
  rw [List.getElem?_append_left (List.getElem?_eq_some_iff.mp h).1]
  exact h

theorem getElem?_set_cases (h : (xs.set i a)[j]? = some b) :
    j = i ∧ b = a ∨ j ≠ i ∧ xs[j]? = some b := by
  by_cases hj : i = j
  · subst hj
    have hlt : i < xs.length := by
      have := (List.getElem?_eq_some_iff.mp h).1
      simpa using this
    rw [List.getElem?_set_self hlt] at h
    exact Or.inl ⟨rfl, by simpa using h.symm⟩
  · rw [List.getElem?_set_ne hj] at h
    exact Or.inr ⟨Ne.symm hj, h⟩

theorem getElem?_set_of_some (h : xs[i]? = some b) :
    (xs.set i a)[i]? = some a :=
  List.getElem?_set_self (List.getElem?_eq_some_iff.mp h).1

end Lists

namespace Thread

variable {σ α β : Type}

/-- Start a thread and do not wait for it. -/
def spawn (t : Thread σ β) (next : Thread σ α) : Thread σ α :=
  .join (fun _ : Fin 1 => t) (fun _ => True) fun _ => next

/-- A thread of which only the steps matter. -/
def detach (t : Thread σ α) : Thread σ Unit := t.bind fun _ => .done ()

/-- One step of a thread, with the children which it leaves behind. -/
inductive Goes :
    {α : Type} → σ → Thread σ α → σ → Thread σ α → List (Thread σ Unit) → Prop
  | atomic {α : Type} {s : σ} {update : σ → σ} {next : σ → Thread σ α} :
      Goes s (.atomic update next) (update s) (next s) []
  | choose {α : Type} {s : σ} {next : ℕ → Thread σ α} (n : ℕ) :
      Goes s (.choose next) s (next n) []
  | child {α β : Type} {n : ℕ} {s s' : σ} {children : Fin n → Thread σ β}
      {ready : (Fin n → Option β) → Prop}
      {next : (Fin n → Option β) → Thread σ α} {t : Thread σ β}
      {left : List (Thread σ Unit)} (i : Fin n)
      (h : Goes s (children i) s' t left) :
      Goes s (.join children ready next) s'
        (.join (Function.update children i t) ready next) left
  | join {α β : Type} {n : ℕ} {s : σ} {children : Fin n → Thread σ β}
      {ready : (Fin n → Option β) → Prop}
      {next : (Fin n → Option β) → Thread σ α}
      (h : ready fun i => (children i).result?) :
      Goes s (.join children ready next) s
        (next fun i => (children i).result?)
        (List.ofFn fun i => (children i).detach)

variable {s s' : σ} {t t' : Thread σ α} {left : List (Thread σ Unit)}

theorem Goes.step (h : Goes s t s' t' left) : Step alone s t s' t' := by
  induction h with
  | atomic => exact .atomic
  | choose n => exact .choose n
  | child i _ ih => exact .child i ih
  | join h => exact .join h

theorem Step.goes (h : Step alone s t s' t') : ∃ left, Goes s t s' t' left := by
  induction h with
  | env h => exact h.elim
  | atomic => exact ⟨_, .atomic⟩
  | choose n => exact ⟨_, .choose n⟩
  | child i _ ih =>
      obtain ⟨left, hgoes⟩ := ih
      exact ⟨left, .child i hgoes⟩
  | join h => exact ⟨_, .join h⟩

end Thread

/-! ## Contracts -/

/-- What the threads of a pool owe one another. -/
structure Contract (σ : Type) where
  Inv : σ → Prop
  Grows : σ → σ → Prop
  refl : ∀ s, Grows s s
  trans : ∀ {s s' s''}, Grows s s' → Grows s' s'' → Grows s s''

namespace Contract

variable {σ : Type} (C : Contract σ)

structure Later (s s' : σ) : Prop where
  grows : C.Grows s s'
  inv : C.Inv s'

variable {C} {s s' s'' : σ}

theorem Later.rfl (h : C.Inv s) : C.Later s s := ⟨C.refl s, h⟩

theorem Later.trans (h : C.Later s s') (h' : C.Later s' s'') : C.Later s s'' :=
  ⟨C.trans h.grows h'.grows, h'.inv⟩

end Contract

namespace Thread

variable {σ α β : Type}

/-- From the state `s` on, every step of the thread keeps the contract, and
its result satisfies the postcondition. -/
def Upholds (C : Contract σ) {α : Type} :
    Thread σ α → σ → (α → σ → Prop) → Prop
  | done a, s, Post => ∀ s', C.Later s s' → Post a s'
  | atomic update next, s, Post =>
      ∀ s', C.Later s s' →
        C.Later s' (update s') ∧ (next s').Upholds C (update s') Post
  | choose next, s, Post => ∀ n, (next n).Upholds C s Post
  | @join _ _ β n children ready next, s, Post =>
      ∃ Mid : Fin n → β → σ → Prop,
        (∀ i, (children i).Upholds C s (Mid i)) ∧
        ∀ s' results, C.Later s s' → ready results →
          (∀ i b, results i = some b → Mid i b s') →
          (next results).Upholds C s' Post

variable {C : Contract σ} {s s' : σ} {t t' : Thread σ α}
  {Post Post' : α → σ → Prop} {left : List (Thread σ Unit)}

theorem Upholds.later (h : t.Upholds C s Post) (hlater : C.Later s s') :
    t.Upholds C s' Post := by
  induction t generalizing s s' with
  | done a => exact fun s'' hlater' => h s'' (hlater.trans hlater')
  | atomic update next ih => exact fun s'' hlater' => h s'' (hlater.trans hlater')
  | choose next ih => exact fun n => ih n (h n) hlater
  | join children ready next ihchildren ih =>
      obtain ⟨Mid, hchildren, hnext⟩ := h
      exact ⟨Mid, fun i => ihchildren i (hchildren i) hlater,
        fun s'' results hlater' => hnext s'' results (hlater.trans hlater')⟩

theorem Upholds.bind {f : α → Thread σ β} {Mid : α → σ → Prop}
    {Post : β → σ → Prop} (hs : C.Inv s) (h : t.Upholds C s Mid)
    (hf : ∀ a s', C.Later s s' → Mid a s' → (f a).Upholds C s' Post) :
    (t.bind f).Upholds C s Post := by
  induction t generalizing s with
  | done a => exact hf a s (.rfl hs) (h s (.rfl hs))
  | atomic update next ih =>
      intro s' hlater
      obtain ⟨hupdate, hnext⟩ := h s' hlater
      refine ⟨hupdate, ih s' hupdate.inv hnext ?_⟩
      exact fun a s'' hlater' => hf a s'' ((hlater.trans hupdate).trans hlater')
  | choose next ih => exact fun n => ih n hs (h n) hf
  | join children ready next _ ih =>
      obtain ⟨Mid', hchildren, hnext⟩ := h
      refine ⟨Mid', hchildren, ?_⟩
      intro s' results hlater hready hresults
      refine ih results hlater.inv (hnext s' results hlater hready hresults) ?_
      exact fun a s'' hlater' => hf a s'' (hlater.trans hlater')

theorem Upholds.mono (h : t.Upholds C s Post)
    (himp : ∀ a s', C.Later s s' → Post a s' → Post' a s') :
    t.Upholds C s Post' := by
  induction t generalizing s with
  | done a => exact fun s' hlater => himp a s' hlater (h s' hlater)
  | atomic update next ih =>
      intro s' hlater
      obtain ⟨hupdate, hnext⟩ := h s' hlater
      refine ⟨hupdate, ih s' hnext ?_⟩
      exact fun a s'' hlater' => himp a s'' ((hlater.trans hupdate).trans hlater')
  | choose next ih => exact fun n => ih n (h n) himp
  | join children ready next _ ih =>
      obtain ⟨Mid, hchildren, hnext⟩ := h
      refine ⟨Mid, hchildren, ?_⟩
      intro s' results hlater hready hresults
      refine ih results (hnext s' results hlater hready hresults) ?_
      exact fun a s'' hlater' => himp a s'' (hlater.trans hlater')

theorem Upholds.and (h : t.Upholds C s Post) (h' : t.Upholds C s Post') :
    t.Upholds C s fun a s' => Post a s' ∧ Post' a s' := by
  induction t generalizing s with
  | done a => exact fun s' hlater => ⟨h s' hlater, h' s' hlater⟩
  | atomic update next ih =>
      intro s' hlater
      obtain ⟨hupdate, hnext⟩ := h s' hlater
      exact ⟨hupdate, ih s' hnext (h' s' hlater).2⟩
  | choose next ih => exact fun n => ih n (h n) (h' n)
  | join children ready next ihchildren ih =>
      obtain ⟨Mid, hchildren, hnext⟩ := h
      obtain ⟨Mid', hchildren', hnext'⟩ := h'
      refine ⟨fun i b s' => Mid i b s' ∧ Mid' i b s', ?_, ?_⟩
      · exact fun i => ihchildren i (hchildren i) (hchildren' i)
      · intro s' results hlater hready hresults
        exact ih results
          (hnext s' results hlater hready fun i b hb => (hresults i b hb).1)
          (hnext' s' results hlater hready fun i b hb => (hresults i b hb).2)

theorem Upholds.detach (hs : C.Inv s) (h : t.Upholds C s Post) :
    t.detach.Upholds C s fun _ _ => True :=
  h.bind hs fun _ _ _ _ _ _ => trivial

theorem Upholds.spawn {u : Thread σ β} {Mid : β → σ → Prop}
    (hu : u.Upholds C s Mid)
    (ht : ∀ s', C.Later s s' → t.Upholds C s' Post) :
    (Thread.spawn u t).Upholds C s Post :=
  ⟨fun _ => Mid, fun _ => hu, fun s' _ hlater _ _ => ht s' hlater⟩

theorem Upholds.look {next : σ → Thread σ α}
    (h : ∀ s', C.Later s s' → (next s').Upholds C s' Post) :
    (Thread.atomic id next).Upholds C s Post :=
  fun s' hlater => ⟨.rfl hlater.inv, h s' hlater⟩

theorem Upholds.result? {a : α} (hs : C.Inv s) (h : t.Upholds C s Post)
    (hresult : t.result? = some a) : Post a s := by
  cases t with
  | done b =>
      obtain rfl : b = a := by simpa [Thread.result?] using hresult
      exact h s (.rfl hs)
  | atomic => simp [Thread.result?] at hresult
  | choose => simp [Thread.result?] at hresult
  | join => simp [Thread.result?] at hresult

theorem Goes.upholds (hgoes : Goes s t s' t' left) (hs : C.Inv s)
    (h : t.Upholds C s Post) :
    C.Later s s' ∧ t'.Upholds C s' Post ∧
      ∀ u ∈ left, u.Upholds C s' fun _ _ => True := by
  induction hgoes with
  | @atomic _ s _ _ =>
      obtain ⟨hlater, hnext⟩ := h s (.rfl hs)
      exact ⟨hlater, hnext, by simp⟩
  | choose n => exact ⟨.rfl hs, h n, by simp⟩
  | @child _ _ _ s s' children ready next t left i _ ih =>
      obtain ⟨Mid, hchildren, hnext⟩ := h
      obtain ⟨hlater, hchild, hleft⟩ := ih hs (hchildren i)
      refine ⟨hlater, ⟨Mid, ?_, ?_⟩, hleft⟩
      · intro j
        by_cases hj : j = i
        · subst hj
          rw [Function.update_self]
          exact hchild
        · rw [Function.update_of_ne hj]
          exact (hchildren j).later hlater
      · exact fun s'' results hlater' => hnext s'' results (hlater.trans hlater')
  | @join _ _ _ s children ready next hready =>
      obtain ⟨Mid, hchildren, hnext⟩ := h
      refine ⟨.rfl hs, ?_, ?_⟩
      · exact hnext s _ (.rfl hs) hready fun i b hb =>
          (hchildren i).result? hs hb
      · intro u hu
        obtain ⟨i, rfl⟩ := List.mem_ofFn.mp hu
        exact (hchildren i).detach hs

end Thread

/-! ## Pools -/

structure Pool (κ σ α : Type) where
  state : σ
  /-- the calls made so far, with what is left of their threads -/
  calls : List (κ × Thread σ α)
  detached : List (Thread σ Unit)

namespace Pool

variable {κ σ α : Type}

def start (s : σ) : Pool κ σ α := ⟨s, [], []⟩

/-- One step of a pool whose calls run `body`. -/
inductive Step (body : κ → Thread σ α) (env : σ → σ → Prop) :
    Pool κ σ α → Pool κ σ α → Prop
  | env {pool : Pool κ σ α} {s' : σ} (h : env pool.state s') :
      Step body env pool { pool with state := s' }
  | call {pool : Pool κ σ α} (k : κ) :
      Step body env pool { pool with calls := pool.calls ++ [(k, body k)] }
  | run {pool : Pool κ σ α} {i : ℕ} {k : κ} {t t' : Thread σ α} {s' : σ}
      {left : List (Thread σ Unit)} (hcall : pool.calls[i]? = some (k, t))
      (h : Thread.Goes pool.state t s' t' left) :
      Step body env pool
        ⟨s', pool.calls.set i (k, t'), pool.detached ++ left⟩
  | background {pool : Pool κ σ α} {i : ℕ} {t t' : Thread σ Unit} {s' : σ}
      {left : List (Thread σ Unit)} (hthread : pool.detached[i]? = some t)
      (h : Thread.Goes pool.state t s' t' left) :
      Step body env pool
        ⟨s', pool.calls, pool.detached.set i t' ++ left⟩

abbrev Steps (body : κ → Thread σ α) (env : σ → σ → Prop) :
    Pool κ σ α → Pool κ σ α → Prop :=
  Relation.ReflTransGen (Step body env)

variable {body : κ → Thread σ α} {env : σ → σ → Prop} {pool pool' : Pool κ σ α}
  {C : Contract σ} {K : κ → Prop} {Post : κ → α → σ → Prop}

/-- The calls that have been made are among `K`. -/
def CallsIn (K : κ → Prop) (pool : Pool κ σ α) : Prop :=
  ∀ call ∈ pool.calls, K call.1

theorem Step.callsIn (h : Step body env pool pool') (hcalls : pool'.CallsIn K) :
    pool.CallsIn K := by
  cases h with
  | env h => exact hcalls
  | call k => exact fun call hmem => hcalls call (List.mem_append_left _ hmem)
  | @run i k t t' s' left hcall h =>
      intro call hmem
      obtain ⟨j, hj⟩ := List.mem_iff_getElem?.mp hmem
      by_cases hji : j = i
      · subst hji
        obtain rfl : (k, t) = call := by rwa [hcall, Option.some_inj] at hj
        exact hcalls (k, t') (List.mem_of_getElem? (getElem?_set_of_some hcall))
      · refine hcalls call (List.mem_of_getElem? (i := j) ?_)
        show (pool.calls.set i (k, t'))[j]? = some call
        rw [List.getElem?_set_ne (Ne.symm hji)]
        exact hj
  | background hthread h => exact hcalls

/-- The threads of the pool uphold the contract. -/
structure Sound (C : Contract σ) (Post : κ → α → σ → Prop)
    (pool : Pool κ σ α) : Prop where
  inv : C.Inv pool.state
  calls : ∀ k t, (k, t) ∈ pool.calls → t.Upholds C pool.state (Post k)
  detached : ∀ t ∈ pool.detached, t.Upholds C pool.state fun _ _ => True

theorem Sound.later (h : pool.Sound C Post) {s' : σ}
    (hlater : C.Later pool.state s') :
    ({ pool with state := s' } : Pool κ σ α).Sound C Post where
  inv := hlater.inv
  calls := fun k t hmem => (h.calls k t hmem).later hlater
  detached := fun t hmem => (h.detached t hmem).later hlater

theorem Step.sound (henv : ∀ s s', env s s' → C.Inv s → C.Later s s')
    (hbody : ∀ k s, K k → C.Inv s → (body k).Upholds C s (Post k))
    (hstep : Step body env pool pool') (hcalls : pool'.CallsIn K)
    (h : pool.Sound C Post) : pool'.Sound C Post := by
  cases hstep with
  | env hchange => exact h.later (henv _ _ hchange h.inv)
  | call k =>
      refine ⟨h.inv, ?_, h.detached⟩
      intro k' t hmem
      rcases List.mem_append.mp hmem with hold | hnew
      · exact h.calls k' t hold
      · obtain ⟨rfl, rfl⟩ : k' = k ∧ t = body k := by simpa using hnew
        exact hbody k' _ (hcalls (k', body k') (List.mem_append_right _ (by simp)))
          h.inv
  | @run i k t t' s' left hcall hgoes =>
      obtain ⟨hlater, ht', hleft⟩ :=
        hgoes.upholds h.inv (h.calls k t (List.mem_of_getElem? hcall))
      have hpool := h.later hlater
      refine ⟨hlater.inv, ?_, ?_⟩
      · intro k' u hmem
        rcases List.mem_or_eq_of_mem_set hmem with hold | hnew
        · exact hpool.calls k' u hold
        · obtain ⟨rfl, rfl⟩ : k' = k ∧ u = t' := by simpa using hnew
          exact ht'
      · intro u hmem
        rcases List.mem_append.mp hmem with hold | hnew
        · exact hpool.detached u hold
        · exact hleft u hnew
  | @background i t t' s' left hthread hgoes =>
      obtain ⟨hlater, ht', hleft⟩ :=
        hgoes.upholds h.inv (h.detached t (List.mem_of_getElem? hthread))
      have hpool := h.later hlater
      refine ⟨hlater.inv, hpool.calls, ?_⟩
      intro u hmem
      rcases List.mem_append.mp hmem with hold | hnew
      · rcases List.mem_or_eq_of_mem_set hold with hold | rfl
        · exact hpool.detached u hold
        · exact ht'
      · exact hleft u hnew

/-- The rule: it is enough that each call upholds the contract. -/
theorem Steps.sound (henv : ∀ s s', env s s' → C.Inv s → C.Later s s')
    (hbody : ∀ k s, K k → C.Inv s → (body k).Upholds C s (Post k))
    (hsteps : Steps body env pool pool') (hcalls : pool'.CallsIn K)
    (h : pool.Sound C Post) : pool'.Sound C Post := by
  induction hsteps with
  | refl => exact h
  | tail _ hstep ih => exact hstep.sound henv hbody hcalls (ih (hstep.callsIn hcalls))

theorem sound_start {s : σ} (hs : C.Inv s) :
    (start s : Pool κ σ α).Sound C Post :=
  ⟨hs, by simp [start], by simp [start]⟩

theorem Sound.result {k : κ} {a : α} (h : pool.Sound C Post)
    (hmem : (k, .done a) ∈ pool.calls) : Post k a pool.state :=
  h.calls k _ hmem _ (.rfl h.inv)

/-! ## Progress -/

theorem Step.live (hbody : ∀ k, (body k).Live) (h : Step body env pool pool')
    (hlive : ∀ k t, (k, t) ∈ pool.calls → t.Live) :
    ∀ k t, (k, t) ∈ pool'.calls → t.Live := by
  cases h with
  | env h => exact hlive
  | call k =>
      intro k' t hmem
      rcases List.mem_append.mp hmem with hold | hnew
      · exact hlive k' t hold
      · obtain ⟨rfl, rfl⟩ : k' = k ∧ t = body k := by simpa using hnew
        exact hbody k'
  | @run i k t t' s' left hcall hgoes =>
      intro k' u hmem
      rcases List.mem_or_eq_of_mem_set hmem with hold | hnew
      · exact hlive k' u hold
      · obtain ⟨rfl, rfl⟩ : k' = k ∧ u = t' := by simpa using hnew
        exact hgoes.step.live (hlive k' t (List.mem_of_getElem? hcall))
  | background hthread h => exact hlive

theorem Steps.live (hbody : ∀ k, (body k).Live)
    (h : Steps body env pool pool')
    (hlive : ∀ k t, (k, t) ∈ pool.calls → t.Live) :
    ∀ k t, (k, t) ∈ pool'.calls → t.Live := by
  induction h with
  | refl => exact hlive
  | tail _ hstep ih => exact hstep.live hbody ih

theorem steps_of_runs {s s' : σ} {t t' : Thread σ α} {k : κ} {i : ℕ}
    (hrun : Thread.Runs Thread.alone s t s' t') {pool : Pool κ σ α}
    (hstate : pool.state = s) (hcall : pool.calls[i]? = some (k, t)) :
    ∃ pool', Steps body env pool pool' ∧ pool'.state = s' ∧
      pool'.calls[i]? = some (k, t') := by
  induction hrun generalizing pool with
  | refl => exact ⟨pool, .refl, hstate, hcall⟩
  | @head s s' s'' t t' t'' hstep _ ih =>
      obtain ⟨left, hgoes⟩ := hstep.goes
      rw [← hstate] at hgoes
      obtain ⟨pool'', hsteps, hstate', hcall'⟩ :=
        @ih ⟨s', pool.calls.set i (k, t'), pool.detached ++ left⟩ rfl
          (getElem?_set_of_some hcall)
      exact ⟨pool'', .head (.run hcall hgoes) hsteps, hstate', hcall'⟩

/-- Every call of live threads can be run to its end, whatever went before. -/
theorem Steps.ends (hbody : ∀ k, (body k).Live) {s : σ}
    (h : Steps body env (start s) pool) {i : ℕ} {k : κ} {t : Thread σ α}
    (hcall : pool.calls[i]? = some (k, t)) :
    ∃ pool' a, Steps body env pool pool' ∧
      pool'.calls[i]? = some (k, .done a) := by
  have hlive : t.Live :=
    h.live hbody (by simp [start]) k t (List.mem_of_getElem? hcall)
  obtain ⟨a, s', hends⟩ := hlive.ends Thread.alone pool.state
  obtain ⟨pool', hsteps, -, hcall'⟩ : ∃ pool', Steps body env pool pool' ∧
      pool'.state = s' ∧ pool'.calls[i]? = some (k, .done a) :=
    steps_of_runs hends rfl hcall
  exact ⟨pool', a, hsteps, hcall'⟩

end Pool

/-! ## Threads which may fail -/

namespace Thread

variable {σ ε α β : Type}

/-- Go on with a value, or end as it did. -/
def goOn (x : Outcome ε α) (f : α → Thread σ (Outcome ε β)) :
    Thread σ (Outcome ε β) :=
  match x with
  | .ok a => f a
  | .error e => .done (.error e)
  | .panic fault => .done (.panic fault)
  | .hang => .done .hang

@[simp] theorem goOn_ok (a : α) (f : α → Thread σ (Outcome ε β)) :
    goOn (.ok a : Outcome ε α) f = f a := rfl

@[simp] theorem goOn_panic (fault : Fault) (f : α → Thread σ (Outcome ε β)) :
    goOn (.panic fault : Outcome ε α) f = .done (.panic fault) := rfl

/-- `t.await?` -/
def attempt (t : Thread σ (Outcome ε α)) (f : α → Thread σ (Outcome ε β)) :
    Thread σ (Outcome ε β) :=
  t.bind fun x => goOn x f

/-- All have a value, or one has failed. -/
def TryJoined {n : ℕ} (results : Fin n → Option (Outcome ε α)) : Prop :=
  (∀ i, ∃ a, results i = some (.ok a)) ∨
    ∃ i x, results i = some x ∧ ∀ a, x ≠ .ok a

/-- The values, or the first failure there is. -/
def collect : List (Option (Outcome ε α)) → Outcome ε (List α)
  | [] => .ok []
  | some (.ok a) :: rest =>
      match collect rest with
      | .ok as => .ok (a :: as)
      | .error e => .error e
      | .panic fault => .panic fault
      | .hang => .hang
  | some (.error e) :: _ => .error e
  | some (.panic fault) :: _ => .panic fault
  | some .hang :: _ => .hang
  | none :: rest => collect rest

/-- `try_join_all(threads)` -/
def tryJoinAll (threads : List (Thread σ (Outcome ε α))) :
    Thread σ (Outcome ε (List α)) :=
  .join (fun i : Fin threads.length => threads.get i) TryJoined fun results =>
    .done (collect (List.ofFn results))

variable {C : Contract σ} {s s' : σ} {t : Thread σ (Outcome ε α)}

theorem Upholds.goOn {x : Outcome ε α} {f : α → Thread σ (Outcome ε β)}
    {Post : Outcome ε β → σ → Prop}
    (hok : ∀ a, x = .ok a → (f a).Upholds C s Post)
    (hfail : (∀ a, x ≠ .ok a) → ∀ y : Outcome ε β, (∀ b, y ≠ .ok b) →
      (x.Returns → y.Returns) → ∀ s', C.Later s s' → Post y s') :
    (Thread.goOn x f).Upholds C s Post := by
  cases x with
  | ok a => exact hok a rfl
  | error e => exact hfail (by simp) _ (by simp) (by simp)
  | panic fault => exact hfail (by simp) _ (by simp) (by simp)
  | hang => exact hfail (by simp) _ (by simp) (by simp)

theorem Upholds.attempt {f : α → Thread σ (Outcome ε β)}
    {Mid : Outcome ε α → σ → Prop} {Post : Outcome ε β → σ → Prop}
    (hs : C.Inv s) (h : t.Upholds C s Mid)
    (hok : ∀ a s', C.Later s s' → Mid (.ok a) s' → (f a).Upholds C s' Post)
    (hfail : ∀ x s', C.Later s s' → Mid x s' → (∀ a, x ≠ .ok a) →
      ∀ y : Outcome ε β, (∀ b, y ≠ .ok b) → (x.Returns → y.Returns) →
        ∀ s'', C.Later s' s'' → Post y s'') :
    (Thread.attempt t f).Upholds C s Post := by
  refine h.bind hs ?_
  intro x s' hlater hx
  refine Upholds.goOn ?_ ?_
  · rintro a rfl
    exact hok a s' hlater hx
  · exact fun hfailed => hfail x s' hlater hx hfailed

/-- What holds of a result when it is there holds from then on. -/
theorem Upholds.stable {t : Thread σ α} {Post : α → σ → Prop}
    (h : t.Upholds C s Post) :
    t.Upholds C s fun a s' => ∀ s'', C.Later s' s'' → Post a s'' := by
  induction t generalizing s with
  | done a => exact fun s' hlater s'' hlater' => h s'' (hlater.trans hlater')
  | atomic update next ih =>
      intro s' hlater
      obtain ⟨hupdate, hnext⟩ := h s' hlater
      exact ⟨hupdate, ih s' hnext⟩
  | choose next ih => exact fun n => ih n (h n)
  | join children ready next _ ih =>
      obtain ⟨Mid, hchildren, hnext⟩ := h
      exact ⟨Mid, hchildren, fun s' results hlater hready hresults =>
        ih results (hnext s' results hlater hready hresults)⟩

theorem collect_ok {rs : List (Option (Outcome ε α))} {as : List α}
    (hall : ∀ r ∈ rs, ∃ a, r = some (.ok a)) (h : collect rs = .ok as) :
    as.length = rs.length ∧
      ∀ (i : ℕ) (a : α), as[i]? = some a → rs[i]? = some (some (.ok a)) := by
  induction rs generalizing as with
  | nil =>
      obtain rfl : [] = as := by simpa [collect] using h
      simp
  | cons r rest ih =>
      obtain ⟨a, rfl⟩ := hall r (by simp)
      simp only [collect] at h
      cases hrest : collect rest with
      | ok as' =>
          rw [hrest] at h
          obtain rfl : a :: as' = as := by simpa using h
          obtain ⟨hlen, hget⟩ :=
            ih (fun r hr => hall r (List.mem_cons_of_mem _ hr)) hrest
          refine ⟨by simp [hlen], ?_⟩
          intro i b hb
          cases i with
          | zero => simpa using hb
          | succ i => simpa using hget i b (by simpa using hb)
      | error e => simp [hrest] at h
      | panic fault => simp [hrest] at h
      | hang => simp [hrest] at h

theorem collect_of_all {rs : List (Option (Outcome ε α))}
    (hall : ∀ r ∈ rs, ∃ a, r = some (.ok a)) : ∃ as, collect rs = .ok as := by
  induction rs with
  | nil => exact ⟨[], rfl⟩
  | cons r rest ih =>
      obtain ⟨a, rfl⟩ := hall r (by simp)
      obtain ⟨as, has⟩ := ih fun r hr => hall r (List.mem_cons_of_mem _ hr)
      exact ⟨a :: as, by simp [collect, has]⟩

theorem collect_of_failed {rs : List (Option (Outcome ε α))} {x : Outcome ε α}
    (hmem : some x ∈ rs) (hx : ∀ a, x ≠ .ok a) : ∀ as, collect rs ≠ .ok as := by
  induction rs with
  | nil => simp at hmem
  | cons r rest ih =>
      intro as
      match r, hmem with
      | none, hmem => exact ih (by simpa using hmem) as
      | some (.error e), _ => simp [collect]
      | some (.panic fault), _ => simp [collect]
      | some .hang, _ => simp [collect]
      | some (.ok a), hmem =>
          have hrest : some x ∈ rest := by
            rcases List.mem_cons.mp hmem with heq | hrest
            · exact absurd (Option.some.inj heq) (hx a)
            · exact hrest
          have hfailed := ih hrest
          simp only [collect]
          cases hcase : collect rest with
          | ok as' => exact absurd hcase (hfailed as')
          | error e => simp
          | panic fault => simp
          | hang => simp

theorem collect_returns {rs : List (Option (Outcome ε α))}
    (h : ∀ x, some x ∈ rs → x.Returns) : (collect rs).Returns := by
  induction rs with
  | nil => exact Outcome.returns_ok _
  | cons r rest ih =>
      have hrest := ih fun x hx => h x (List.mem_cons_of_mem _ hx)
      match r, h with
      | none, _ => exact hrest
      | some (.error e), _ => exact Outcome.returns_error _
      | some (.panic fault), h =>
          exact absurd (h (.panic fault) (by simp))
            (Outcome.not_returns_panic fault)
      | some .hang, h => exact absurd (h .hang (by simp)) Outcome.not_returns_hang
      | some (.ok a), _ =>
          simp only [collect]
          rcases hrest with ⟨as, has⟩ | ⟨e, he⟩
          · rw [has]
            exact Outcome.returns_ok _
          · rw [he]
            exact Outcome.returns_error _

theorem collect_eq_error {rs : List (Option (Outcome ε α))} {e : ε}
    (h : collect rs = .error e) : some (.error e) ∈ rs := by
  induction rs with
  | nil => simp [collect] at h
  | cons r rest ih =>
      match r, h with
      | none, h => exact List.mem_cons_of_mem _ (ih h)
      | some (.error e'), h =>
          obtain rfl := Outcome.error.inj h
          exact List.mem_cons_self
      | some (.panic fault), h => simp [collect] at h
      | some .hang, h => simp [collect] at h
      | some (.ok a), h =>
          refine List.mem_cons_of_mem _ (ih ?_)
          simp only [collect] at h
          cases hrest : collect rest with
          | ok as => simp [hrest] at h
          | error e' => simpa [hrest] using h
          | panic fault => simp [hrest] at h
          | hang => simp [hrest] at h

theorem collect_of_error {rs : List (Option (Outcome ε α))} {e : ε}
    (hmem : some (.error e) ∈ rs)
    (hothers : ∀ r ∈ rs, r = none ∨ r = some (.error e)) :
    collect rs = .error e := by
  induction rs with
  | nil => simp at hmem
  | cons r rest ih =>
      rcases hothers r (by simp) with rfl | rfl
      · exact ih (by simpa using hmem) fun r hr => hothers r (List.mem_cons_of_mem _ hr)
      · rfl

/-- One thread that fails while the others have not begun. -/
theorem Ends.tryJoinAll {env : σ → σ → Prop} {e : ε}
    {threads : List (Thread σ (Outcome ε α))} (hmem : t ∈ threads)
    (hothers : ∀ u ∈ threads, u.result? = none) (h : Ends env s t (.error e) s') :
    Ends env s (Thread.tryJoinAll threads) (.error e) s' := by
  obtain ⟨i, hi, rfl⟩ := List.mem_iff_getElem.mp hmem
  let children' : Fin threads.length → Thread σ (Outcome ε α) :=
    Function.update (fun i => threads.get i) ⟨i, hi⟩ (.done (.error e))
  have hrun : Runs env s (Thread.tryJoinAll threads) s'
      (.join children' TryJoined fun results => .done (collect (List.ofFn results))) :=
    Runs.child ⟨i, hi⟩ h rfl
  have hfailed : (children' ⟨i, hi⟩).result? = some (.error e) := by
    simp [children', Thread.result?]
  have hcollect : collect (List.ofFn fun j => (children' j).result?) = .error e := by
    refine collect_of_error (List.mem_ofFn.mpr ⟨⟨i, hi⟩, hfailed⟩) ?_
    intro r hr
    obtain ⟨j, rfl⟩ := List.mem_ofFn.mp hr
    by_cases hj : j = ⟨i, hi⟩
    · subst hj
      exact Or.inr hfailed
    · left
      have hsame : children' j = threads.get j := Function.update_of_ne hj _ _
      rw [hsame]
      exact hothers _ (List.getElem_mem _)
  refine Runs.trans hrun (.head (.join (Or.inr ⟨⟨i, hi⟩, .error e, hfailed, by simp⟩)) ?_)
  rw [hcollect]
  exact .refl

/-- Children which are joined have the results which are collected. -/
theorem Upholds.tryJoin {n : ℕ} {children : Fin n → Thread σ (Outcome ε α)}
    {Mid : Fin n → Outcome ε α → σ → Prop}
    (h : ∀ i, (children i).Upholds C s (Mid i)) :
    (Thread.join children TryJoined fun results =>
      .done (collect (List.ofFn results))).Upholds C s fun r s' =>
        ∃ results, TryJoined results ∧ r = collect (List.ofFn results) ∧
          ∀ i x, results i = some x → Mid i x s' := by
  refine ⟨fun i x s' => ∀ s'', C.Later s' s'' → Mid i x s'', ?_, ?_⟩
  · exact fun i => (h i).stable
  · intro s' results _ hready hresults s'' hlater
    exact ⟨results, hready, rfl, fun i x hx => hresults i x hx s'' hlater⟩

/-- The values of all threads, or a failure of one of them. -/
theorem Upholds.tryJoinAll {threads : List (Thread σ (Outcome ε α))}
    {Mid : ℕ → Outcome ε α → σ → Prop}
    (h : ∀ (i : ℕ) (t : Thread σ (Outcome ε α)), threads[i]? = some t →
      t.Upholds C s (Mid i)) :
    (Thread.tryJoinAll threads).Upholds C s fun r s' =>
      (∀ as, r = .ok as → as.length = threads.length ∧
        ∀ (i : ℕ) (a : α), as[i]? = some a → Mid i (.ok a) s') ∧
      ((∀ as, r ≠ .ok as) → ∃ i x, i < threads.length ∧ Mid i x s' ∧
        ∀ a, x ≠ .ok a) ∧
      ((∀ i x, i < threads.length → Mid i x s' → x.Returns) → r.Returns) ∧
      ∀ e, r = .error e → ∃ i, i < threads.length ∧ Mid i (.error e) s' := by
  have hjoin := Upholds.tryJoin (C := C) fun i : Fin threads.length =>
    h i (threads.get i) (by simp)
  refine hjoin.mono ?_
  rintro r s' - ⟨results, hready, rfl, hresults⟩
  have hmem : ∀ r, r ∈ List.ofFn results ↔ ∃ i, results i = r :=
    fun r => List.mem_ofFn
  refine ⟨?_, ?_, ?_, ?_⟩
  · intro as has
    rcases hready with hall | ⟨i, x, hi, hx⟩
    · have hall' : ∀ r ∈ List.ofFn results, ∃ a, r = some (.ok a) := by
        intro r hr
        obtain ⟨i, rfl⟩ := (hmem r).mp hr
        exact hall i
      obtain ⟨hlen, hget⟩ := collect_ok hall' has
      refine ⟨by simpa using hlen, ?_⟩
      intro i a ha
      have hi := hget i a ha
      rw [List.getElem?_ofFn] at hi
      split_ifs at hi with hlt
      exact hresults ⟨i, hlt⟩ _ (by simpa using hi)
    · exact absurd has (collect_of_failed ((hmem _).mpr ⟨i, hi⟩) hx as)
  · intro hfailed
    rcases hready with hall | ⟨i, x, hi, hx⟩
    · obtain ⟨as, has⟩ := collect_of_all fun r hr => by
        obtain ⟨i, rfl⟩ := (hmem r).mp hr
        exact hall i
      exact absurd has (hfailed as)
    · exact ⟨i, x, i.isLt, hresults i x hi, hx⟩
  · intro h
    refine collect_returns fun x hx => ?_
    obtain ⟨i, hi⟩ := (hmem _).mp hx
    exact h i x i.isLt (hresults i x hi)
  · intro e he
    obtain ⟨i, hi⟩ := (hmem _).mp (collect_eq_error he)
    exact ⟨i, i.isLt, hresults i _ hi⟩

/-! ## Progress of threads which may fail -/

theorem Live.goOn {x : Outcome ε α} {f : α → Thread σ (Outcome ε β)}
    (hf : ∀ a, (f a).Live) : (Thread.goOn x f).Live := by
  cases x with
  | ok a => exact hf a
  | error e => trivial
  | panic fault => trivial
  | hang => trivial

theorem Live.attempt {f : α → Thread σ (Outcome ε β)} (h : t.Live)
    (hf : ∀ a, (f a).Live) : (Thread.attempt t f).Live :=
  h.bind fun _ => .goOn hf

theorem Live.spawn {u : Thread σ β} {t : Thread σ α} (hu : u.Live)
    (ht : t.Live) : (Thread.spawn u t).Live :=
  ⟨fun _ => hu, fun _ => trivial, fun _ => ht⟩

theorem Live.tryJoinAll {threads : List (Thread σ (Outcome ε α))}
    (h : ∀ t ∈ threads, t.Live) : (Thread.tryJoinAll threads).Live := by
  refine ⟨fun i => h _ (List.getElem_mem _), ?_, fun _ => trivial⟩
  intro results
  by_cases hall : ∀ i, ∃ a, results i = .ok a
  · left
    intro i
    obtain ⟨a, ha⟩ := hall i
    exact ⟨a, congrArg some ha⟩
  · right
    push Not at hall
    obtain ⟨i, hi⟩ := hall
    exact ⟨i, results i, rfl, hi⟩

end Thread

end ImageReader
