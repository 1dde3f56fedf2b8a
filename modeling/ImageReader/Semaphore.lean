import Mathlib.Tactic

/-!
# A semaphore which is fair

A `Semaphore` is what the caller of `tokio::sync::Semaphore` has of it: its
operations, and whom it has given a permit and in which order it gives the next
ones.  The caller numbers its requests.  `Lawful` says what the documentation
says of each operation: a request gets a permit which is free or waits its
turn, and a permit which comes back goes to the first who waits.

`Fair` is what this comes to over any sequence of operations: whoever has a
permit has asked for it before everybody who waits.  `TicketQueue` is a lawful
semaphore.
-/

namespace ImageReader

structure Semaphore (σ : Type) where
  new : ℕ → σ
  /-- `try_acquire_owned()` of a request -/
  tryAcquire : σ → ℕ → Option σ
  /-- the first poll of the `acquire()` of a request -/
  acquire : σ → ℕ → σ
  /-- the permit of a request is dropped -/
  release : σ → ℕ → σ
  /-- `available_permits()` -/
  available : σ → ℕ
  /-- the requests which have a permit -/
  held : σ → List ℕ
  /-- the requests which wait for one, the next first -/
  waiting : σ → List ℕ

namespace Semaphore

variable {σ : Type} {sem : Semaphore σ} {permits issued ticket : ℕ}
  {s s' : σ}

/-- A permit which was free is now that of the request. -/
structure Grants (sem : Semaphore σ) (ticket : ℕ) (s s' : σ) : Prop where
  available : sem.available s' + 1 = sem.available s
  held : (sem.held s').Perm (ticket :: sem.held s)
  waiting : sem.waiting s' = sem.waiting s

/-- The request waits behind the others. -/
structure Queues (sem : Semaphore σ) (ticket : ℕ) (s s' : σ) : Prop where
  available : sem.available s' = sem.available s
  held : (sem.held s').Perm (sem.held s)
  waiting : sem.waiting s' = sem.waiting s ++ [ticket]

/-- The permit of the request is free again. -/
structure Frees (sem : Semaphore σ) (ticket : ℕ) (s s' : σ) : Prop where
  available : sem.available s' = sem.available s + 1
  held : (sem.held s').Perm ((sem.held s).erase ticket)
  waiting : sem.waiting s' = sem.waiting s

/-- The permit of the request goes to the first who waits. -/
structure Passes (sem : Semaphore σ) (ticket next : ℕ) (rest : List ℕ)
    (s s' : σ) : Prop where
  available : sem.available s' = sem.available s
  held : (sem.held s').Perm (next :: (sem.held s).erase ticket)
  waiting : sem.waiting s' = rest

/-- What is documented of the operations. -/
structure Lawful (sem : Semaphore σ) : Prop where
  available_new : ∀ permits, sem.available (sem.new permits) = permits
  held_new : ∀ permits, sem.held (sem.new permits) = []
  waiting_new : ∀ permits, sem.waiting (sem.new permits) = []
  tryAcquire_none : ∀ s ticket, sem.available s = 0 →
    sem.tryAcquire s ticket = none
  tryAcquire_some : ∀ s ticket, 0 < sem.available s →
    ∃ s', sem.tryAcquire s ticket = some s' ∧ sem.Grants ticket s s'
  acquire_free : ∀ s ticket, 0 < sem.available s →
    sem.Grants ticket s (sem.acquire s ticket)
  acquire_none : ∀ s ticket, sem.available s = 0 →
    sem.Queues ticket s (sem.acquire s ticket)
  release_free : ∀ s ticket, ticket ∈ sem.held s → sem.waiting s = [] →
    sem.Frees ticket s (sem.release s ticket)
  release_next : ∀ s ticket next rest, ticket ∈ sem.held s →
    sem.waiting s = next :: rest →
    sem.Passes ticket next rest s (sem.release s ticket)

/-- The request has a permit or waits for one. -/
def Live (sem : Semaphore σ) (s : σ) (ticket : ℕ) : Prop :=
  ticket ∈ sem.held s ∨ ticket ∈ sem.waiting s

/-- `issued` requests were made, numbered in order. -/
structure Fair (sem : Semaphore σ) (permits issued : ℕ) (s : σ) : Prop where
  count : sem.available s + (sem.held s).length = permits
  none_free : sem.waiting s ≠ [] → sem.available s = 0
  nodup : (sem.held s).Nodup
  sorted : (sem.waiting s).Pairwise (· < ·)
  before : ∀ ticket ∈ sem.held s, ∀ later ∈ sem.waiting s, ticket < later
  issued : ∀ ticket, sem.Live s ticket → ticket < issued

theorem Lawful.fair_new (laws : sem.Lawful) (permits : ℕ) :
    sem.Fair permits 0 (sem.new permits) where
  count := by
    rw [laws.available_new, laws.held_new, List.length_nil, Nat.add_zero]
  none_free := fun h => absurd (laws.waiting_new permits) h
  nodup := laws.held_new permits ▸ List.nodup_nil
  sorted := laws.waiting_new permits ▸ .nil
  before := fun _ h => by simp [laws.held_new] at h
  issued := fun _ h => by simp [Live, laws.held_new, laws.waiting_new] at h

/-! ## Requests -/

theorem Fair.waiting_eq (h : sem.Fair permits issued s)
    (hfree : 0 < sem.available s) : sem.waiting s = [] := by
  by_contra hne
  have := h.none_free hne
  omega

theorem Fair.not_live_issued (h : sem.Fair permits issued s) :
    ¬ sem.Live s issued :=
  fun hlive => absurd (h.issued _ hlive) (lt_irrefl _)

theorem Fair.grants (h : sem.Fair permits issued s)
    (hgrants : sem.Grants issued s s') : sem.Fair permits (issued + 1) s' where
  count := by
    have hcount := h.count
    have havailable := hgrants.available
    rw [hgrants.held.length_eq, List.length_cons]
    omega
  none_free := by
    intro hne
    have havailable := hgrants.available
    rw [hgrants.waiting] at hne
    have := h.none_free hne
    omega
  nodup := hgrants.held.nodup_iff.mpr (List.nodup_cons.mpr
    ⟨fun hmem => h.not_live_issued (Or.inl hmem), h.nodup⟩)
  sorted := hgrants.waiting ▸ h.sorted
  before := by
    intro ticket _ later hlater
    have havailable := hgrants.available
    rw [hgrants.waiting, h.waiting_eq (by omega)] at hlater
    simp at hlater
  issued := by
    rintro ticket (hheld | hwaiting)
    · rcases List.mem_cons.mp (hgrants.held.mem_iff.mp hheld) with rfl | hold
      · exact Nat.lt_succ_self _
      · exact Nat.lt_succ_of_lt (h.issued ticket (Or.inl hold))
    · rw [hgrants.waiting] at hwaiting
      exact Nat.lt_succ_of_lt (h.issued ticket (Or.inr hwaiting))

theorem Fair.queues (h : sem.Fair permits issued s)
    (hnone : sem.available s = 0) (hqueues : sem.Queues issued s s') :
    sem.Fair permits (issued + 1) s' where
  count := by
    rw [hqueues.available, hqueues.held.length_eq]
    exact h.count
  none_free := fun _ => hqueues.available.trans hnone
  nodup := hqueues.held.nodup_iff.mpr h.nodup
  sorted := by
    rw [hqueues.waiting, List.pairwise_append]
    refine ⟨h.sorted, List.pairwise_singleton _ _, ?_⟩
    intro ticket hmem later hlater
    rw [List.mem_singleton.mp hlater]
    exact h.issued ticket (Or.inr hmem)
  before := by
    intro ticket hmem later hlater
    have hold := hqueues.held.mem_iff.mp hmem
    rw [hqueues.waiting] at hlater
    rcases List.mem_append.mp hlater with hwaits | hnew
    · exact h.before ticket hold later hwaits
    · rw [List.mem_singleton.mp hnew]
      exact h.issued ticket (Or.inl hold)
  issued := by
    rintro ticket (hheld | hwaiting)
    · exact Nat.lt_succ_of_lt
        (h.issued ticket (Or.inl (hqueues.held.mem_iff.mp hheld)))
    · rw [hqueues.waiting] at hwaiting
      rcases List.mem_append.mp hwaiting with hold | hnew
      · exact Nat.lt_succ_of_lt (h.issued ticket (Or.inr hold))
      · rw [List.mem_singleton.mp hnew]
        exact Nat.lt_succ_self _

theorem Lawful.tryAcquire_eq_some (laws : sem.Lawful)
    (h : sem.tryAcquire s ticket = some s') : sem.Grants ticket s s' := by
  rcases Nat.eq_zero_or_pos (sem.available s) with hnone | hfree
  · rw [laws.tryAcquire_none s ticket hnone] at h
    cases h
  · obtain ⟨s₁, hsome, hgrants⟩ := laws.tryAcquire_some s ticket hfree
    rw [h] at hsome
    obtain rfl := Option.some.inj hsome
    exact hgrants

theorem Lawful.fair_acquire (laws : sem.Lawful)
    (h : sem.Fair permits issued s) :
    sem.Fair permits (issued + 1) (sem.acquire s issued) := by
  rcases Nat.eq_zero_or_pos (sem.available s) with hnone | hfree
  · exact h.queues hnone (laws.acquire_none s issued hnone)
  · exact h.grants (laws.acquire_free s issued hfree)

theorem Grants.count (h : sem.Grants ticket s s') (other : ℕ) :
    (sem.held s').count other + (sem.waiting s').count other =
      (sem.held s).count other + (sem.waiting s).count other +
        [ticket].count other := by
  rw [h.held.count_eq, h.waiting, ← List.singleton_append, List.count_append]
  omega

theorem Lawful.count_acquire (laws : sem.Lawful) (s : σ) (ticket other : ℕ) :
    (sem.held (sem.acquire s ticket)).count other +
        (sem.waiting (sem.acquire s ticket)).count other =
      (sem.held s).count other + (sem.waiting s).count other +
        [ticket].count other := by
  rcases Nat.eq_zero_or_pos (sem.available s) with hnone | hfree
  · have hqueues := laws.acquire_none s ticket hnone
    rw [hqueues.held.count_eq, hqueues.waiting, List.count_append,
      Nat.add_assoc]
  · exact (laws.acquire_free s ticket hfree).count other

theorem Lawful.mem_held_acquire (laws : sem.Lawful) {other : ℕ}
    (h : other ∈ sem.held s) : other ∈ sem.held (sem.acquire s ticket) := by
  rcases Nat.eq_zero_or_pos (sem.available s) with hnone | hfree
  · exact (laws.acquire_none s ticket hnone).held.mem_iff.mpr h
  · exact (laws.acquire_free s ticket hfree).held.mem_iff.mpr
      (List.mem_cons_of_mem _ h)

/-! ## Releases -/

theorem Fair.frees (h : sem.Fair permits issued s)
    (hheld : ticket ∈ sem.held s) (hnone : sem.waiting s = [])
    (hfrees : sem.Frees ticket s s') : sem.Fair permits issued s' where
  count := by
    have hlength := List.length_erase_of_mem hheld
    have hpos := List.length_pos_of_mem hheld
    have hcount := h.count
    rw [hfrees.available, hfrees.held.length_eq]
    omega
  none_free := fun hne => absurd (hfrees.waiting.trans hnone) hne
  nodup := hfrees.held.nodup_iff.mpr (h.nodup.erase _)
  sorted := hfrees.waiting ▸ h.sorted
  before := by
    intro _ _ later hlater
    rw [hfrees.waiting, hnone] at hlater
    simp at hlater
  issued := by
    rintro other (hmem | hmem)
    · exact h.issued other
        (Or.inl (List.mem_of_mem_erase (hfrees.held.mem_iff.mp hmem)))
    · rw [hfrees.waiting] at hmem
      exact h.issued other (Or.inr hmem)

theorem Fair.passes (h : sem.Fair permits issued s) {next : ℕ}
    {rest : List ℕ} (hheld : ticket ∈ sem.held s)
    (hwaiting : sem.waiting s = next :: rest)
    (hpasses : sem.Passes ticket next rest s s') :
    sem.Fair permits issued s' := by
  have hnext : next ∈ sem.waiting s := hwaiting ▸ List.mem_cons_self
  have hrest : ∀ other ∈ rest, other ∈ sem.waiting s :=
    fun other hmem => hwaiting ▸ List.mem_cons_of_mem _ hmem
  have hsorted := h.sorted
  rw [hwaiting, List.pairwise_cons] at hsorted
  have hlive : ∀ other ∈ sem.held s', other = next ∨ other ∈ sem.held s := by
    intro other hmem
    rcases List.mem_cons.mp (hpasses.held.mem_iff.mp hmem) with rfl | hold
    · exact Or.inl rfl
    · exact Or.inr (List.mem_of_mem_erase hold)
  exact {
    count := by
      have hlength := List.length_erase_of_mem hheld
      have hpos := List.length_pos_of_mem hheld
      have hcount := h.count
      rw [hpasses.available, hpasses.held.length_eq, List.length_cons]
      omega
    none_free := fun _ =>
      hpasses.available.trans (h.none_free (List.ne_nil_of_mem hnext))
    nodup := by
      refine hpasses.held.nodup_iff.mpr (List.nodup_cons.mpr ⟨?_,
        h.nodup.erase _⟩)
      intro hmem
      exact absurd (h.before next (List.mem_of_mem_erase hmem) next hnext)
        (lt_irrefl _)
    sorted := hpasses.waiting ▸ hsorted.2
    before := by
      intro other hmem later hlater
      rw [hpasses.waiting] at hlater
      rcases hlive other hmem with rfl | hold
      · exact hsorted.1 later hlater
      · exact h.before other hold later (hrest later hlater)
    issued := by
      rintro other (hmem | hmem)
      · rcases hlive other hmem with rfl | hold
        · exact h.issued other (Or.inr hnext)
        · exact h.issued other (Or.inl hold)
      · rw [hpasses.waiting] at hmem
        exact h.issued other (Or.inr (hrest other hmem)) }

theorem Lawful.fair_release (laws : sem.Lawful)
    (h : sem.Fair permits issued s) (hheld : ticket ∈ sem.held s) :
    sem.Fair permits issued (sem.release s ticket) := by
  cases hwaiting : sem.waiting s with
  | nil =>
      exact h.frees hheld hwaiting (laws.release_free s ticket hheld hwaiting)
  | cons next rest =>
      exact h.passes hheld hwaiting
        (laws.release_next s ticket next rest hheld hwaiting)

theorem count_erase_add {tickets : List ℕ} (h : ticket ∈ tickets)
    (other : ℕ) :
    (tickets.erase ticket).count other + [ticket].count other =
      tickets.count other := by
  rw [(List.perm_cons_erase h).count_eq other, List.count_singleton,
    List.count_cons]

theorem Lawful.count_release (laws : sem.Lawful)
    (hheld : ticket ∈ sem.held s) (other : ℕ) :
    (sem.held (sem.release s ticket)).count other +
        (sem.waiting (sem.release s ticket)).count other +
          [ticket].count other =
      (sem.held s).count other + (sem.waiting s).count other := by
  have herase := count_erase_add hheld other
  cases hwaiting : sem.waiting s with
  | nil =>
      have hfrees := laws.release_free s ticket hheld hwaiting
      rw [hfrees.held.count_eq, hfrees.waiting, hwaiting]
      omega
  | cons next rest =>
      have hpasses := laws.release_next s ticket next rest hheld hwaiting
      rw [hpasses.held.count_eq, hpasses.waiting]
      simp only [List.count_cons]
      rw [List.count_cons] at herase
      omega

theorem Lawful.mem_held_release (laws : sem.Lawful)
    (hheld : ticket ∈ sem.held s) {other : ℕ} (h : other ∈ sem.held s)
    (hne : other ≠ ticket) : other ∈ sem.held (sem.release s ticket) := by
  have herase : other ∈ (sem.held s).erase ticket :=
    (List.mem_erase_of_ne hne).mpr h
  cases hwaiting : sem.waiting s with
  | nil =>
      exact (laws.release_free s ticket hheld hwaiting).held.mem_iff.mpr herase
  | cons next rest =>
      exact (laws.release_next s ticket next rest hheld
        hwaiting).held.mem_iff.mpr (List.mem_cons_of_mem _ herase)

end Semaphore

/-! ## A queue of tickets -/

structure TicketQueue where
  free : ℕ
  held : List ℕ
  waiting : List ℕ
  deriving DecidableEq, Repr

namespace TicketQueue

def grant (queue : TicketQueue) (ticket : ℕ) : TicketQueue :=
  { queue with free := queue.free - 1, held := ticket :: queue.held }

def release (queue : TicketQueue) (ticket : ℕ) : TicketQueue :=
  match queue.waiting with
  | [] => { queue with
      free := queue.free + 1, held := queue.held.erase ticket }
  | next :: rest => { queue with
      held := next :: queue.held.erase ticket, waiting := rest }

def semaphore : Semaphore TicketQueue where
  new permits := ⟨permits, [], []⟩
  tryAcquire queue ticket :=
    if 0 < queue.free then some (queue.grant ticket) else none
  acquire queue ticket :=
    if 0 < queue.free then queue.grant ticket
    else { queue with waiting := queue.waiting ++ [ticket] }
  release := release
  available := free
  held := held
  waiting := waiting

theorem grants_grant {queue : TicketQueue} (hfree : 0 < queue.free)
    (ticket : ℕ) : semaphore.Grants ticket queue (queue.grant ticket) where
  available := Nat.sub_add_cancel hfree
  held := .refl _
  waiting := rfl

theorem lawful : semaphore.Lawful where
  available_new := fun _ => rfl
  held_new := fun _ => rfl
  waiting_new := fun _ => rfl
  tryAcquire_none := fun queue _ hnone =>
    if_neg (show ¬ 0 < queue.free by rw [show queue.free = 0 from hnone]; simp)
  tryAcquire_some := fun queue ticket hfree =>
    ⟨_, if_pos hfree, grants_grant hfree ticket⟩
  acquire_free := by
    intro queue ticket hfree
    rw [show semaphore.acquire queue ticket = queue.grant ticket from
      if_pos hfree]
    exact grants_grant hfree ticket
  acquire_none := by
    intro queue ticket hnone
    have hqueue : semaphore.acquire queue ticket =
        { queue with waiting := queue.waiting ++ [ticket] } :=
      if_neg (show ¬ 0 < queue.free by
        rw [show queue.free = 0 from hnone]; simp)
    rw [hqueue]
    exact ⟨rfl, .refl _, rfl⟩
  release_free := by
    intro queue ticket _ hwaiting
    have hqueue : semaphore.release queue ticket = { queue with
        free := queue.free + 1, held := queue.held.erase ticket } := by
      change queue.release ticket = _
      rw [release, show queue.waiting = [] from hwaiting]
    rw [hqueue]
    exact ⟨rfl, .refl _, rfl⟩
  release_next := by
    intro queue ticket next rest _ hwaiting
    have hqueue : semaphore.release queue ticket = { queue with
        held := next :: queue.held.erase ticket, waiting := rest } := by
      change queue.release ticket = _
      rw [release, show queue.waiting = next :: rest from hwaiting]
    rw [hqueue]
    exact ⟨rfl, .refl _, rfl⟩

end TicketQueue
end ImageReader
