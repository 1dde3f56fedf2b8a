import ImageReader.Pool

/-!
# Threads among others

`Upholds` asks the same of all threads.  Where each of them works on a part of
the state which the others leave alone, a thread has a relation of its own for
what the others may do, and one for what it does itself.  The children of a
join may rely on one another: what one of them does is what each of the others
has to expect.
-/

namespace ImageReader
namespace Thread

open Relation (ReflTransGen)

variable {σ α β ε : Type}

/-- Among steps of `rely` every step of the thread is one of `guar`, and its
result satisfies the postcondition. -/
def Meets (rely guar : σ → σ → Prop) {α : Type} :
    Thread σ α → σ → (α → σ → Prop) → Prop
  | done a, s, Post => ∀ s', ReflTransGen rely s s' → Post a s'
  | atomic update next, s, Post =>
      ∀ s', ReflTransGen rely s s' →
        guar s' (update s') ∧ (next s').Meets rely guar (update s') Post
  | choose next, s, Post => ∀ n, (next n).Meets rely guar s Post
  | @join _ _ β n children ready next, s, Post =>
      ∃ (relies guars : Fin n → σ → σ → Prop) (Mid : Fin n → β → σ → Prop),
        (∀ i s s', rely s s' → relies i s s') ∧
        (∀ i j s s', i ≠ j → guars j s s' → relies i s s') ∧
        (∀ i s s', guars i s s' → guar s s') ∧
        (∀ i, (children i).Meets (relies i) (guars i) s (Mid i)) ∧
        ∀ s' results, ReflTransGen (fun s s' => rely s s' ∨ ∃ i, guars i s s') s s' →
          ready results → (∀ i b, results i = some b → Mid i b s') →
          (next results).Meets rely guar s' Post

variable {rely guar : σ → σ → Prop} {env : σ → σ → Prop} {s s' : σ}
  {t t' : Thread σ α} {Post Post' : α → σ → Prop}

/-- What the others do is part of what goes on. -/
theorem reach_of_rely (h : ReflTransGen rely s s') :
    ReflTransGen (fun s s' => rely s s' ∨ guar s s') s s' :=
  ReflTransGen.mono (fun _ _ => Or.inl) _ _ h

theorem reach_of_children {n : ℕ} {guars : Fin n → σ → σ → Prop}
    (hown : ∀ i s s', guars i s s' → guar s s')
    (h : ReflTransGen (fun s s' => rely s s' ∨ ∃ i, guars i s s') s s') :
    ReflTransGen (fun s s' => rely s s' ∨ guar s s') s s' := by
  refine ReflTransGen.mono ?_ _ _ h
  intro s s' hstep
  exact hstep.imp_right fun ⟨i, hi⟩ => hown i s s' hi

theorem Meets.later (h : t.Meets rely guar s Post) (hlater : ReflTransGen rely s s') :
    t.Meets rely guar s' Post := by
  induction t generalizing s s' rely guar with
  | done a => exact fun s'' hlater' => h s'' (hlater.trans hlater')
  | atomic update next ih => exact fun s'' hlater' => h s'' (hlater.trans hlater')
  | choose next ih => exact fun n => ih n (h n) hlater
  | join children ready next ihchildren ih =>
      obtain ⟨relies, guars, Mid, henv, hothers, hown, hchildren, hnext⟩ := h
      refine ⟨relies, guars, Mid, henv, hothers, hown, ?_, ?_⟩
      · exact fun i => ihchildren i (hchildren i) (ReflTransGen.mono (henv i) _ _ hlater)
      · intro s'' results hlater'
        exact hnext s'' results ((reach_of_rely hlater).trans hlater')

theorem Meets.mono (h : t.Meets rely guar s Post)
    (himp : ∀ a s', ReflTransGen (fun s s' => rely s s' ∨ guar s s') s s' →
      Post a s' → Post' a s') : t.Meets rely guar s Post' := by
  induction t generalizing s with
  | done a =>
      exact fun s' hlater => himp a s' (reach_of_rely hlater) (h s' hlater)
  | atomic update next ih =>
      intro s' hlater
      obtain ⟨hguar, hnext⟩ := h s' hlater
      have hreach := (reach_of_rely hlater).tail (Or.inr hguar)
      exact ⟨hguar, ih s' hnext fun a s'' hlater' => himp a s'' (hreach.trans hlater')⟩
  | choose next ih => exact fun n => ih n (h n) himp
  | join children ready next _ ih =>
      obtain ⟨relies, guars, Mid, henv, hothers, hown, hchildren, hnext⟩ := h
      refine ⟨relies, guars, Mid, henv, hothers, hown, hchildren, ?_⟩
      intro s' results hlater hready hresults
      exact ih results (hnext s' results hlater hready hresults)
        fun a s'' hlater' => himp a s'' ((reach_of_children hown hlater).trans hlater')

theorem Meets.bind {f : α → Thread σ β} {Mid : α → σ → Prop} {Post : β → σ → Prop}
    (h : t.Meets rely guar s Mid)
    (hf : ∀ a s', ReflTransGen (fun s s' => rely s s' ∨ guar s s') s s' → Mid a s' →
      (f a).Meets rely guar s' Post) : (t.bind f).Meets rely guar s Post := by
  induction t generalizing s with
  | done a => exact hf a s .refl (h s .refl)
  | atomic update next ih =>
      intro s' hlater
      obtain ⟨hguar, hnext⟩ := h s' hlater
      have hreach := (reach_of_rely hlater).tail (Or.inr hguar)
      exact ⟨hguar, ih s' hnext fun a s'' hlater' => hf a s'' (hreach.trans hlater')⟩
  | choose next ih => exact fun n => ih n (h n) hf
  | join children ready next _ ih =>
      obtain ⟨relies, guars, Mid', henv, hothers, hown, hchildren, hnext⟩ := h
      refine ⟨relies, guars, Mid', henv, hothers, hown, hchildren, ?_⟩
      intro s' results hlater hready hresults
      exact ih results (hnext s' results hlater hready hresults)
        fun a s'' hlater' => hf a s'' ((reach_of_children hown hlater).trans hlater')

theorem Meets.weaken {rely' guar' : σ → σ → Prop} (h : t.Meets rely guar s Post)
    (hrely : ∀ s s', rely' s s' → rely s s') (hguar : ∀ s s', guar s s' → guar' s s') :
    t.Meets rely' guar' s Post := by
  induction t generalizing s with
  | done a => exact fun s' hlater => h s' (ReflTransGen.mono hrely _ _ hlater)
  | atomic update next ih =>
      intro s' hlater
      obtain ⟨hown, hnext⟩ := h s' (ReflTransGen.mono hrely _ _ hlater)
      exact ⟨hguar _ _ hown, ih s' hnext⟩
  | choose next ih => exact fun n => ih n (h n)
  | join children ready next _ ih =>
      obtain ⟨relies, guars, Mid, henv, hothers, hown, hchildren, hnext⟩ := h
      refine ⟨relies, guars, Mid, fun i s s' hs => henv i s s' (hrely s s' hs), hothers,
        fun i s s' hs => hguar s s' (hown i s s' hs), hchildren, ?_⟩
      intro s' results hlater hready hresults
      refine ih results (hnext s' results ?_ hready hresults)
      exact ReflTransGen.mono (fun s s' => Or.imp_left (hrely s s')) _ _ hlater

/-- A thread of which nothing is asked but its result. -/
theorem Meets.unguarded (guar : σ → σ → Prop) (h : t.Meets rely guar s Post) :
    t.Meets rely (fun _ _ => True) s Post :=
  h.weaken (fun _ _ hrely => hrely) fun _ _ _ => trivial

theorem Meets.look {next : σ → Thread σ α} (hguar : ∀ s, guar s s)
    (h : ∀ s', ReflTransGen rely s s' → (next s').Meets rely guar s' Post) :
    (Thread.atomic id next).Meets rely guar s Post :=
  fun s' hlater => ⟨hguar s', h s' hlater⟩

theorem Meets.result? {a : α} (h : t.Meets rely guar s Post)
    (hresult : t.result? = some a) : Post a s := by
  cases t with
  | done b =>
      obtain rfl : b = a := by simpa [Thread.result?] using hresult
      exact h s .refl
  | atomic => simp [Thread.result?] at hresult
  | choose => simp [Thread.result?] at hresult
  | join => simp [Thread.result?] at hresult

/-- A step is one of the environment, or one of the thread, which may leave the
state alone. -/
theorem Step.meets (hstep : Step env s t s' t') (henv : ∀ s s', env s s' → rely s s')
    (h : t.Meets rely guar s Post) :
    t'.Meets rely guar s' Post ∧ (s' = s ∨ env s s' ∨ guar s s') := by
  induction hstep generalizing rely guar with
  | env hchange => exact ⟨h.later (.single (henv _ _ hchange)), Or.inr (Or.inl hchange)⟩
  | @atomic _ s _ _ =>
      obtain ⟨hguar, hnext⟩ := h s .refl
      exact ⟨hnext, Or.inr (Or.inr hguar)⟩
  | choose n => exact ⟨h n, Or.inl rfl⟩
  | @child _ _ _ s s' children ready next t i _ ih =>
      obtain ⟨relies, guars, Mid, hrely, hothers, hown, hchildren, hnext⟩ := h
      obtain ⟨hchild, hchange⟩ :=
        ih (fun s s' hchange => hrely i s s' (henv s s' hchange)) (hchildren i)
      -- what the step is to the other children, and to what comes after the join
      have hothers' : ∀ j, j ≠ i → ReflTransGen (relies j) s s' := by
        intro j hj
        rcases hchange with rfl | hchange | hchange
        · exact .refl
        · exact .single (hrely j s s' (henv s s' hchange))
        · exact .single (hothers j i s s' hj hchange)
      have hafter : ReflTransGen (fun s s' => rely s s' ∨ ∃ i, guars i s s') s s' := by
        rcases hchange with rfl | hchange | hchange
        · exact .refl
        · exact .single (Or.inl (henv s s' hchange))
        · exact .single (Or.inr ⟨i, hchange⟩)
      refine ⟨⟨relies, guars, Mid, hrely, hothers, hown, ?_, ?_⟩, ?_⟩
      · intro j
        by_cases hj : j = i
        · subst hj
          rw [Function.update_self]
          exact hchild
        · rw [Function.update_of_ne hj]
          exact (hchildren j).later (hothers' j hj)
      · exact fun s'' results hlater => hnext s'' results (hafter.trans hlater)
      · exact hchange.imp_right (Or.imp_right (hown i s s'))
  | join hready =>
      obtain ⟨relies, guars, Mid, -, -, -, hchildren, hnext⟩ := h
      refine ⟨?_, Or.inl rfl⟩
      exact hnext _ _ .refl hready fun i b hb => (hchildren i).result? hb

theorem Runs.meets (hrun : Runs env s t s' t') (henv : ∀ s s', env s s' → rely s s')
    (h : t.Meets rely guar s Post) :
    t'.Meets rely guar s' Post ∧ ReflTransGen (fun s s' => env s s' ∨ guar s s') s s' := by
  induction hrun with
  | refl => exact ⟨h, .refl⟩
  | head hstep _ ih =>
      obtain ⟨h', hchange⟩ := hstep.meets henv h
      obtain ⟨hend, hrest⟩ := ih h'
      refine ⟨hend, ?_⟩
      rcases hchange with rfl | hchange
      · exact hrest
      · exact hrest.head hchange

theorem Ends.meets {a : α} (hends : Ends env s t a s')
    (henv : ∀ s s', env s s' → rely s s') (h : t.Meets rely guar s Post) :
    Post a s' ∧ ReflTransGen (fun s s' => env s s' ∨ guar s s') s s' := by
  obtain ⟨hdone, hreach⟩ := Runs.meets hends henv h
  exact ⟨hdone s' .refl, hreach⟩

/-! ## Threads which do not fail -/

theorem Meets.attempt {t : Thread σ (Outcome ε α)} {f : α → Thread σ (Outcome ε β)}
    {Mid : Outcome ε α → σ → Prop} {Post : Outcome ε β → σ → Prop}
    (h : t.Meets rely guar s Mid) (hok : ∀ x s', Mid x s' → ∃ a, x = .ok a)
    (hf : ∀ a s', ReflTransGen (fun s s' => rely s s' ∨ guar s s') s s' →
      Mid (.ok a) s' → (f a).Meets rely guar s' Post) :
    (Thread.attempt t f).Meets rely guar s Post := by
  refine h.bind ?_
  intro x s' hlater hx
  obtain ⟨a, rfl⟩ := hok x s' hx
  exact hf a s' hlater hx

/-- Threads none of which fails, on parts of the state which are their own. -/
theorem Meets.tryJoinAll {threads : List (Thread σ (Outcome ε α))}
    (relies guars : ℕ → σ → σ → Prop) (Mid : ℕ → Outcome ε α → σ → Prop)
    (henv : ∀ i s s', rely s s' → relies i s s')
    (hothers : ∀ i j s s', i < threads.length → j < threads.length → i ≠ j →
      guars j s s' → relies i s s')
    (hown : ∀ i s s', i < threads.length → guars i s s' → guar s s')
    (hthreads : ∀ (i : ℕ) (t : Thread σ (Outcome ε α)), threads[i]? = some t →
      t.Meets (relies i) (guars i) s (Mid i))
    (hok : ∀ i x s', i < threads.length → Mid i x s' → ∃ a, x = .ok a)
    (hstable : ∀ i a s' s'', Mid i (.ok a) s' → ReflTransGen rely s' s'' →
      Mid i (.ok a) s'') :
    (Thread.tryJoinAll threads).Meets rely guar s fun r s' =>
      ∃ as, r = .ok as ∧ as.length = threads.length ∧
        ∀ (i : ℕ) (a : α), as[i]? = some a → Mid i (.ok a) s' := by
  refine ⟨fun i => relies i, fun i => guars i, fun i => Mid i, ?_, ?_, ?_, ?_, ?_⟩
  · exact fun i => henv i
  · exact fun i j s s' hij =>
      hothers i j s s' i.isLt j.isLt fun h => hij (Fin.ext h)
  · exact fun i s s' => hown i s s' i.isLt
  · exact fun i => hthreads i (threads.get i) (by simp)
  · intro s' results _ hready hresults s'' hlater
    have hall : ∀ i, ∃ a, results i = some (.ok a) := by
      rcases hready with hall | ⟨i, x, hi, hx⟩
      · exact hall
      · obtain ⟨a, rfl⟩ := hok i x s' i.isLt (hresults i x hi)
        exact absurd rfl (hx a)
    have hall' : ∀ r ∈ List.ofFn results, ∃ a, r = some (.ok a) := by
      intro r hr
      obtain ⟨i, rfl⟩ := List.mem_ofFn.mp hr
      exact hall i
    obtain ⟨as, has⟩ := collect_of_all hall'
    obtain ⟨hlen, hget⟩ := collect_ok hall' has
    refine ⟨as, has, by simpa using hlen, ?_⟩
    intro i a ha
    have hi := hget i a ha
    rw [List.getElem?_ofFn] at hi
    split_ifs at hi with hlt
    exact hstable i a s' s'' (hresults ⟨i, hlt⟩ _ (by simpa using hi)) hlater

end Thread
end ImageReader
