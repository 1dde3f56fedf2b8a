import ImageReader.Pool

/-!
# Watching one call of a pool

`Moves` speaks of the atomic steps of a thread alone: each of them is one of a
relation, in whatever state it is taken.  `Ensures` is `Upholds` with the
roles changed: the steps of the thread are not asked to be of a kind, it is
known that they are.  A run of a pool which is watched for one call is a run
in which that is so of the steps of this call.
-/

namespace ImageReader

namespace Thread

variable {σ α β ε : Type}

/-- Every atomic step of the thread is one of `R`. -/
def Moves (R : σ → σ → Prop) {α : Type} : Thread σ α → Prop
  | done _ => True
  | atomic update next => ∀ s, R s (update s) ∧ (next s).Moves R
  | choose next => ∀ n, (next n).Moves R
  | @join _ _ _ _ children _ next =>
      (∀ i, (children i).Moves R) ∧ ∀ results, (next results).Moves R

section Moves

variable {R : σ → σ → Prop} {env : σ → σ → Prop} {s s' : σ} {t t' : Thread σ α}

theorem Moves.bind {f : α → Thread σ β} (h : t.Moves R)
    (hf : ∀ a, (f a).Moves R) : (t.bind f).Moves R := by
  induction t with
  | done a => exact hf a
  | atomic update next ih => exact fun s => ⟨(h s).1, ih s (h s).2 hf⟩
  | choose next ih => exact fun n => ih n (h n) hf
  | join children ready next _ ih =>
      exact ⟨h.1, fun results => ih results (h.2 results) hf⟩

theorem Moves.goOn {x : Outcome ε α} {f : α → Thread σ (Outcome ε β)}
    (hf : ∀ a, (f a).Moves R) : (Thread.goOn x f).Moves R := by
  cases x with
  | ok a => exact hf a
  | error e => trivial
  | panic fault => trivial
  | hang => trivial

theorem Moves.attempt {t : Thread σ (Outcome ε α)}
    {f : α → Thread σ (Outcome ε β)} (h : t.Moves R)
    (hf : ∀ a, (f a).Moves R) : (Thread.attempt t f).Moves R :=
  h.bind fun _ => .goOn hf

theorem Moves.spawn {u : Thread σ β} (hu : u.Moves R) (ht : t.Moves R) :
    (Thread.spawn u t).Moves R :=
  ⟨fun _ => hu, fun _ => ht⟩

theorem Moves.tryJoinAll {threads : List (Thread σ (Outcome ε α))}
    (h : ∀ t ∈ threads, t.Moves R) : (Thread.tryJoinAll threads).Moves R :=
  ⟨fun _ => h _ (List.getElem_mem _), fun _ => trivial⟩

/-- A step is one of the environment, or one of `R`, or leaves the state
alone. -/
theorem Step.moves (hstep : Step env s t s' t') (h : t.Moves R) :
    t'.Moves R ∧ (s' = s ∨ env s s' ∨ R s s') := by
  induction hstep with
  | env hchange => exact ⟨h, Or.inr (Or.inl hchange)⟩
  | @atomic _ s _ _ => exact ⟨(h s).2, Or.inr (Or.inr (h s).1)⟩
  | choose n => exact ⟨h n, Or.inl rfl⟩
  | @child _ _ _ _ _ children _ _ t i _ ih =>
      obtain ⟨hchild, hchange⟩ := ih (h.1 i)
      refine ⟨⟨?_, h.2⟩, hchange⟩
      intro j
      by_cases hj : j = i
      · subst hj
        rw [Function.update_self]
        exact hchild
      · rw [Function.update_of_ne hj]
        exact h.1 j
  | join _ => exact ⟨h.2 _, Or.inl rfl⟩

/-- A run goes by steps of the environment and of `R`. -/
theorem Runs.moves (hrun : Runs env s t s' t') (h : t.Moves R) :
    t'.Moves R ∧
      Relation.ReflTransGen (fun s s' => env s s' ∨ R s s') s s' := by
  induction hrun with
  | refl => exact ⟨h, .refl⟩
  | head hstep _ ih =>
      obtain ⟨h', hchange⟩ := hstep.moves h
      obtain ⟨hend, hrest⟩ := ih h'
      refine ⟨hend, ?_⟩
      rcases hchange with rfl | hchange
      · exact hrest
      · exact hrest.head hchange

theorem Moves.upholds {C : Contract σ} (h : t.Moves R)
    (hR : ∀ s s', C.Inv s → R s s' → C.Later s s') :
    t.Upholds C s fun _ _ => True := by
  induction t generalizing s with
  | done a => exact fun _ _ => trivial
  | atomic update next ih =>
      intro s' hlater
      exact ⟨hR _ _ hlater.inv (h s').1, ih s' (h s').2⟩
  | choose next ih => exact fun n => ih n (h n)
  | join children ready next ihchildren ih =>
      exact ⟨fun _ _ _ => True, fun i => ihchildren i (h.1 i),
        fun _ results _ _ _ => ih results (h.2 results)⟩

end Moves

/-- If the steps of the thread are among `own`, its result satisfies the
postcondition. -/
def Ensures (C : Contract σ) (own : σ → σ → Prop) {α : Type} :
    Thread σ α → σ → (α → σ → Prop) → Prop
  | done a, s, Post => ∀ s', C.Later s s' → Post a s'
  | atomic update next, s, Post =>
      ∀ s', C.Later s s' → C.Later s' (update s') → own s' (update s') →
        (next s').Ensures C own (update s') Post
  | choose next, s, Post => ∀ n, (next n).Ensures C own s Post
  | @join _ _ β n children ready next, s, Post =>
      ∃ Mid : Fin n → β → σ → Prop,
        (∀ i, (children i).Ensures C own s (Mid i)) ∧
        ∀ s' results, C.Later s s' → ready results →
          (∀ i b, results i = some b → Mid i b s') →
          (next results).Ensures C own s' Post

section Ensures

variable {C : Contract σ} {own : σ → σ → Prop} {s s' : σ} {t t' : Thread σ α}
  {Post : α → σ → Prop} {left : List (Thread σ Unit)}

theorem Ensures.later (h : t.Ensures C own s Post) (hlater : C.Later s s') :
    t.Ensures C own s' Post := by
  induction t generalizing s s' with
  | done a => exact fun s'' hlater' => h s'' (hlater.trans hlater')
  | atomic update next ih => exact fun s'' hlater' => h s'' (hlater.trans hlater')
  | choose next ih => exact fun n => ih n (h n) hlater
  | join children ready next ihchildren ih =>
      obtain ⟨Mid, hchildren, hnext⟩ := h
      exact ⟨Mid, fun i => ihchildren i (hchildren i) hlater,
        fun s'' results hlater' => hnext s'' results (hlater.trans hlater')⟩

theorem ensures_of_forall (t : Thread σ α) (h : ∀ a s, Post a s) (s : σ) :
    t.Ensures C own s Post := by
  induction t generalizing s with
  | done a => exact fun s' _ => h a s'
  | atomic update next ih => exact fun s' _ _ _ => ih s' h (update s')
  | choose next ih => exact fun n => ih n h s
  | join children ready next ihchildren ih =>
      exact ⟨fun _ _ _ => True, fun i => ihchildren i (fun _ _ => trivial) s,
        fun s' results _ _ _ => ih results h s'⟩

theorem Ensures.bind {f : α → Thread σ β} {Mid : α → σ → Prop}
    {Post : β → σ → Prop} (hs : C.Inv s) (h : t.Ensures C own s Mid)
    (hf : ∀ a s', C.Later s s' → Mid a s' → (f a).Ensures C own s' Post) :
    (t.bind f).Ensures C own s Post := by
  induction t generalizing s with
  | done a => exact hf a s (.rfl hs) (h s (.rfl hs))
  | atomic update next ih =>
      intro s' hlater hupdate hown
      refine ih s' hupdate.inv (h s' hlater hupdate hown) ?_
      exact fun a s'' hlater' => hf a s'' ((hlater.trans hupdate).trans hlater')
  | choose next ih => exact fun n => ih n hs (h n) hf
  | join children ready next _ ih =>
      obtain ⟨Mid', hchildren, hnext⟩ := h
      refine ⟨Mid', hchildren, ?_⟩
      intro s' results hlater hready hresults
      refine ih results hlater.inv (hnext s' results hlater hready hresults) ?_
      exact fun a s'' hlater' => hf a s'' (hlater.trans hlater')

theorem Ensures.mono {Post' : α → σ → Prop} (h : t.Ensures C own s Post)
    (himp : ∀ a s', Post a s' → Post' a s') : t.Ensures C own s Post' := by
  induction t generalizing s with
  | done a => exact fun s' hlater => himp a s' (h s' hlater)
  | atomic update next ih =>
      exact fun s' hlater hupdate hown => ih s' (h s' hlater hupdate hown) himp
  | choose next ih => exact fun n => ih n (h n) himp
  | join children ready next _ ih =>
      obtain ⟨Mid, hchildren, hnext⟩ := h
      exact ⟨Mid, hchildren, fun s' results hlater hready hresults =>
        ih results (hnext s' results hlater hready hresults) himp⟩

theorem Ensures.look {next : σ → Thread σ α}
    (h : ∀ s', C.Later s s' → (next s').Ensures C own s' Post) :
    (Thread.atomic id next).Ensures C own s Post :=
  fun s' hlater _ _ => h s' hlater

theorem Ensures.result? {a : α} (hs : C.Inv s) (h : t.Ensures C own s Post)
    (hresult : t.result? = some a) : Post a s := by
  cases t with
  | done b =>
      obtain rfl : b = a := by simpa [Thread.result?] using hresult
      exact h s (.rfl hs)
  | atomic => simp [Thread.result?] at hresult
  | choose => simp [Thread.result?] at hresult
  | join => simp [Thread.result?] at hresult

/-- A step of the thread which is one of its own. -/
theorem Goes.ensures (hgoes : Goes s t s' t' left) (hs : C.Inv s)
    (hlater : C.Later s s') (hown : own s s') (h : t.Ensures C own s Post) :
    t'.Ensures C own s' Post := by
  induction hgoes with
  | atomic => exact h _ (.rfl hs) hlater hown
  | choose n => exact h n
  | @child _ _ _ s s' children ready next t left i _ ih =>
      obtain ⟨Mid, hchildren, hnext⟩ := h
      refine ⟨Mid, ?_, ?_⟩
      · intro j
        by_cases hj : j = i
        · subst hj
          rw [Function.update_self]
          exact ih hs hlater hown (hchildren j)
        · rw [Function.update_of_ne hj]
          exact (hchildren j).later hlater
      · exact fun s'' results hlater' => hnext s'' results (hlater.trans hlater')
  | join hready =>
      obtain ⟨Mid, hchildren, hnext⟩ := h
      exact hnext _ _ (.rfl hs) hready fun i b hb => (hchildren i).result? hs hb

end Ensures

/-! ## Threads which may fail -/

section Failing

variable {C : Contract σ} {own : σ → σ → Prop} {s : σ}

/-- The result is a value, of which `P` holds. -/
def IfOk (P : α → σ → Prop) (r : Outcome ε α) (s : σ) : Prop :=
  ∀ a, r = .ok a → P a s

theorem ensures_done_ok {P : α → σ → Prop} {a : α}
    (h : ∀ s', C.Later s s' → P a s') :
    (Thread.done (.ok a) : Thread σ (Outcome ε α)).Ensures C own s (IfOk P) := by
  intro s' hlater b hb
  obtain rfl := Outcome.ok.inj hb
  exact h s' hlater

theorem ensures_done_failed {P : α → σ → Prop} {r : Outcome ε α}
    (hr : ∀ a, r ≠ .ok a) : (Thread.done r).Ensures C own s (IfOk P) :=
  fun _ _ a ha => absurd ha (hr a)

theorem Ensures.goOn {x : Outcome ε α} {f : α → Thread σ (Outcome ε β)}
    {P : β → σ → Prop} (hf : ∀ a, x = .ok a → (f a).Ensures C own s (IfOk P)) :
    (Thread.goOn x f).Ensures C own s (IfOk P) := by
  cases x with
  | ok a => exact hf a rfl
  | error e => exact ensures_done_failed (by simp)
  | panic fault => exact ensures_done_failed (by simp)
  | hang => exact ensures_done_failed (by simp)

theorem Ensures.attempt {t : Thread σ (Outcome ε α)}
    {f : α → Thread σ (Outcome ε β)} {Mid : α → σ → Prop} {P : β → σ → Prop}
    (hs : C.Inv s) (h : t.Ensures C own s (IfOk Mid))
    (hf : ∀ a s', C.Later s s' → Mid a s' → (f a).Ensures C own s' (IfOk P)) :
    (Thread.attempt t f).Ensures C own s (IfOk P) := by
  refine h.bind hs ?_
  intro x s' hlater hx
  exact Ensures.goOn fun a ha => hf a s' hlater (hx a ha)

/-- The values of all threads. -/
theorem Ensures.tryJoinAll {threads : List (Thread σ (Outcome ε α))}
    {Mid : ℕ → σ → Prop} (hstable : ∀ i s s', C.Later s s' → Mid i s → Mid i s')
    (h : ∀ (i : ℕ) (t : Thread σ (Outcome ε α)), threads[i]? = some t →
      t.Ensures C own s (IfOk fun _ => Mid i)) :
    (Thread.tryJoinAll threads).Ensures C own s
      (IfOk fun _ s' => ∀ i < threads.length, Mid i s') := by
  refine ⟨fun i => IfOk fun _ => Mid i, fun i => h i (threads.get i) (by simp), ?_⟩
  intro s' results _ hready hresults s'' hlater as has i hi
  rcases hready with hall | ⟨j, x, hj, hx⟩
  · obtain ⟨a, ha⟩ := hall ⟨i, hi⟩
    exact hstable i s' s'' hlater (hresults ⟨i, hi⟩ _ ha a rfl)
  · exact absurd has
      (collect_of_failed (List.mem_ofFn.mpr ⟨j, hj⟩) hx as)

end Failing

end Thread

/-! ## Pools -/

namespace Pool

variable {κ σ α : Type} {body : κ → Thread σ α} {env : σ → σ → Prop}
  {pool pool' : Pool κ σ α} {C : Contract σ} {Post : κ → α → σ → Prop}

/-- A step of call `i`. -/
def StepOf (i : ℕ) (pool pool' : Pool κ σ α) : Prop :=
  ∃ k t t' s' left, pool.calls[i]? = some (k, t) ∧
    Thread.Goes pool.state t s' t' left ∧
    pool' = ⟨s', pool.calls.set i (k, t'), pool.detached ++ left⟩

/-- Runs in which the steps of call `i` are among `own`. -/
abbrev Watched (body : κ → Thread σ α) (env : σ → σ → Prop) (i : ℕ)
    (own : σ → σ → Prop) : Pool κ σ α → Pool κ σ α → Prop :=
  Relation.ReflTransGen fun pool pool' =>
    Step body env pool pool' ∧ (StepOf i pool pool' → own pool.state pool'.state)

theorem Watched.steps {i : ℕ} {own : σ → σ → Prop}
    (h : Watched body env i own pool pool') : Steps body env pool pool' :=
  Relation.ReflTransGen.mono (fun _ _ hstep => hstep.1) _ _ h

theorem Step.later (henv : ∀ s s', env s s' → C.Inv s → C.Later s s')
    (hstep : Step body env pool pool') (h : pool.Sound C Post) :
    C.Later pool.state pool'.state := by
  cases hstep with
  | env hchange => exact henv _ _ hchange h.inv
  | call k => exact .rfl h.inv
  | run hcall hgoes =>
      exact (hgoes.upholds h.inv (h.calls _ _ (List.mem_of_getElem? hcall))).1
  | background hthread hgoes =>
      exact (hgoes.upholds h.inv
        (h.detached _ (List.mem_of_getElem? hthread))).1

/-- The rule: the threads uphold the contract, and the watched call ensures its
postcondition. -/
theorem Watched.ensures {i : ℕ} {own : σ → σ → Prop} {Mid : κ → α → σ → Prop}
    (henv : ∀ s s', env s s' → C.Inv s → C.Later s s')
    (hbody : ∀ k s, C.Inv s → (body k).Upholds C s (Post k))
    (hensures : ∀ k s, C.Inv s → (body k).Ensures C own s (Mid k))
    (hrun : Watched body env i own pool pool') (hsound : pool.Sound C Post)
    (h : ∀ k t, pool.calls[i]? = some (k, t) →
      t.Ensures C own pool.state (Mid k)) :
    pool'.Sound C Post ∧ ∀ k t, pool'.calls[i]? = some (k, t) →
      t.Ensures C own pool'.state (Mid k) := by
  induction hrun with
  | refl => exact ⟨hsound, h⟩
  | tail _ hlast ih =>
      obtain ⟨hstep, hown⟩ := hlast
      obtain ⟨hmiddle, hcall⟩ := ih
      have hlater := hstep.later henv hmiddle
      refine ⟨hstep.sound (K := fun _ => True) henv
        (fun k s _ => hbody k s) (fun _ _ => trivial) hmiddle, ?_⟩
      cases hstep with
      | env hchange => exact fun k t ht => (hcall k t ht).later hlater
      | call k =>
          intro k' t ht
          rcases getElem?_append_singleton ht with hold | ⟨-, hnew⟩
          · exact hcall k' t hold
          · obtain ⟨rfl, rfl⟩ := Prod.mk.inj hnew
            exact hensures _ _ hmiddle.inv
      | @run j k t t' s' left hj hgoes =>
          intro k' u hu
          rcases getElem?_set_cases hu with ⟨rfl, heq⟩ | ⟨-, hold⟩
          · obtain ⟨rfl, rfl⟩ := Prod.mk.inj heq
            exact hgoes.ensures hmiddle.inv hlater
              (hown ⟨_, t, _, s', left, hj, hgoes, rfl⟩) (hcall _ t hj)
          · exact (hcall k' u hold).later hlater
      | background hthread hgoes =>
          exact fun k t ht => (hcall k t ht).later hlater

end Pool

end ImageReader
