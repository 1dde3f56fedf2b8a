import Mathlib.Data.List.Nodup
import Mathlib.Logic.Function.Basic
import Mathlib.Logic.Relation
import Mathlib.Tactic

/-!
# Taking turns

Clients share a resource behind a lock.  A client arrives, waits for the lock,
works on the resource step by step while it holds the lock, and leaves when
its work is over.  Arrivals and the steps of the clients interleave freely.

`Serial` is the same without interleaving: one whole turn after the other.
Every run is serial (`reachable_ordered`): the clients which have left took
their turns one after the other, and the one which holds the lock started its
turn from the resource which the last of them left.
-/

namespace ImageReader
namespace Turns

open Relation (ReflTransGen)

variable {ι κ σ : Type}

/-- What a client does with the resource, and when its turn may end. -/
structure Discipline (κ σ : Type) where
  work : κ × σ → κ × σ → Prop
  ended : κ → Prop

/-- Where a client is, with what it came with and what it is by now. -/
inductive Place (κ : Type) where
  | away
  | waiting (came : κ)
  | holding (came now : κ)
  | left (came now : κ)

structure Shared (ι κ σ : Type) where
  place : ι → Place κ
  resource : σ

def Shared.new (start : σ) : Shared ι κ σ := ⟨fun _ => .away, start⟩

/-- The lock is free. -/
def Shared.Free (sys : Shared ι κ σ) : Prop :=
  ∀ i came now, sys.place i ≠ .holding came now

variable (d : Discipline κ σ)

/-- Whole turns, one after the other, each from the resource which the one
before it left. -/
inductive Serial (start : σ) : List (ι × κ × κ) → σ → Prop
  | nil : Serial start [] start
  | snoc {turns : List (ι × κ × κ)} {resource resource' : σ} {i : ι}
      {came now : κ} (h : Serial start turns resource)
      (hwork : ReflTransGen d.work (came, resource) (now, resource'))
      (hover : d.ended now) :
      Serial start (turns ++ [(i, came, now)]) resource'

/-- The turns which were taken, and the resource which the last of them
left. -/
structure Ordered (start : σ) (sys : Shared ι κ σ)
    (turns : List (ι × κ × κ)) (between : σ) : Prop where
  serial : Serial d start turns between
  nodup : (turns.map Prod.fst).Nodup
  left_iff : ∀ i came now,
    sys.place i = .left came now ↔ (i, came, now) ∈ turns
  exclusive : ∀ i j came came' now now', sys.place i = .holding came now →
    sys.place j = .holding came' now' → i = j
  holder : ∀ i came now, sys.place i = .holding came now →
    ReflTransGen d.work (came, between) (now, sys.resource)
  free : sys.Free → sys.resource = between

variable {d} {start between : σ} {sys sys' : Shared ι κ σ}
  {turns : List (ι × κ × κ)}

theorem ordered_new (d : Discipline κ σ) (start : σ) :
    Ordered d start (Shared.new start : Shared ι κ σ) [] start where
  serial := .nil
  nodup := by simp
  left_iff := by simp [Shared.new]
  exclusive := by simp [Shared.new]
  holder := by simp [Shared.new]
  free := fun _ => rfl

/-- What every turn of an admitted client keeps, holds of the resource after
any number of turns; what such a turn ensures, holds of every client which has
left. -/
theorem Serial.invariant (Admitted : κ → Prop) (Inv : σ → Prop)
    (Post : κ → κ → Prop)
    (hturn : ∀ came now resource resource', Admitted came → Inv resource →
      ReflTransGen d.work (came, resource) (now, resource') → d.ended now →
      Inv resource' ∧ Post came now)
    (hstart : Inv start) (h : Serial d start turns between)
    (hadmitted : ∀ turn ∈ turns, Admitted turn.2.1) :
    Inv between ∧ ∀ turn ∈ turns, Post turn.2.1 turn.2.2 := by
  induction h with
  | nil => exact ⟨hstart, by simp⟩
  | @snoc turns resource resource' i came now _ hwork hover ih =>
      obtain ⟨hinv, hpost⟩ := ih fun turn hmem =>
        hadmitted turn (List.mem_append_left _ hmem)
      obtain ⟨hinv', hnew⟩ := hturn came now resource resource'
        (hadmitted (i, came, now) (List.mem_append_right _
          (List.mem_singleton_self _))) hinv hwork hover
      refine ⟨hinv', ?_⟩
      intro turn hmem
      rcases List.mem_append.mp hmem with hmem | hmem
      · exact hpost turn hmem
      · obtain rfl := List.mem_singleton.mp hmem
        exact hnew

/-! ## Runs -/

variable [DecidableEq ι]

def Shared.move (sys : Shared ι κ σ) (i : ι) (place : Place κ) : Shared ι κ σ :=
  { sys with place := Function.update sys.place i place }

@[simp] theorem Shared.move_self (sys : Shared ι κ σ) (i : ι)
    (place : Place κ) : (sys.move i place).place i = place :=
  Function.update_self ..

theorem Shared.move_of_ne (sys : Shared ι κ σ) {i j : ι} (place : Place κ)
    (h : j ≠ i) : (sys.move i place).place j = sys.place j :=
  Function.update_of_ne h ..

@[simp] theorem Shared.move_resource (sys : Shared ι κ σ) (i : ι)
    (place : Place κ) : (sys.move i place).resource = sys.resource := rfl

variable (d) in
inductive Step : Shared ι κ σ → Shared ι κ σ → Prop
  | arrive {sys : Shared ι κ σ} (i : ι) (came : κ)
      (h : sys.place i = .away) : Step sys (sys.move i (.waiting came))
  | enter {sys : Shared ι κ σ} {i : ι} {came : κ}
      (h : sys.place i = .waiting came) (hfree : sys.Free) :
      Step sys (sys.move i (.holding came came))
  | work {sys : Shared ι κ σ} {i : ι} {came now next : κ} {resource : σ}
      (h : sys.place i = .holding came now)
      (hwork : d.work (now, sys.resource) (next, resource)) :
      Step sys { sys.move i (.holding came next) with resource }
  | leave {sys : Shared ι κ σ} {i : ι} {came now : κ}
      (h : sys.place i = .holding came now) (hover : d.ended now) :
      Step sys (sys.move i (.left came now))

/-- A client which is not leaving moves outside the lock: nothing else
changes. -/
theorem Ordered.moved (h : Ordered d start sys turns between) {i : ι}
    {place : Place κ} (hfrom : ∀ came now, sys.place i ≠ .holding came now ∧
      sys.place i ≠ .left came now)
    (hto : ∀ came now, place ≠ .holding came now ∧ place ≠ .left came now) :
    Ordered d start (sys.move i place) turns between where
  serial := h.serial
  nodup := h.nodup
  left_iff := by
    intro j came now
    by_cases hj : j = i
    · subst hj
      rw [Shared.move_self, ← h.left_iff]
      exact ⟨fun heq => absurd heq (hto came now).2,
        fun heq => absurd heq (hfrom came now).2⟩
    · rw [sys.move_of_ne place hj]
      exact h.left_iff j came now
  exclusive := by
    intro j k came came' now now' hj hk
    have hne : ∀ l c n, (sys.move i place).place l = .holding c n → l ≠ i := by
      rintro l c n hl rfl
      rw [Shared.move_self] at hl
      exact (hto c n).1 hl
    rw [sys.move_of_ne place (hne _ _ _ hj)] at hj
    rw [sys.move_of_ne place (hne _ _ _ hk)] at hk
    exact h.exclusive j k came came' now now' hj hk
  holder := by
    intro j came now hj
    by_cases hji : j = i
    · subst hji
      rw [Shared.move_self] at hj
      exact absurd hj (hto came now).1
    · rw [sys.move_of_ne place hji] at hj
      exact h.holder j came now hj
  free := by
    intro hfree
    refine h.free fun j came now hj => ?_
    have hji : j ≠ i := by
      rintro rfl
      exact (hfrom came now).1 hj
    exact hfree j came now (by rw [sys.move_of_ne place hji, hj])

theorem Ordered.enters (h : Ordered d start sys turns between) {i : ι}
    {came : κ} (hi : sys.place i = .waiting came) (hfree : sys.Free) :
    Ordered d start (sys.move i (.holding came came)) turns between := by
  have honly : ∀ j c n, (sys.move i (.holding came came)).place j =
      .holding c n → j = i ∧ c = came ∧ n = came := by
    intro j c n hj
    by_cases hji : j = i
    · subst hji
      rw [Shared.move_self] at hj
      obtain ⟨rfl, rfl⟩ := Place.holding.inj hj
      exact ⟨rfl, rfl, rfl⟩
    · rw [sys.move_of_ne _ hji] at hj
      exact absurd hj (hfree j c n)
  refine { serial := h.serial, nodup := h.nodup, left_iff := ?_,
           exclusive := ?_, holder := ?_, free := ?_ }
  · intro j c n
    by_cases hji : j = i
    · subst hji
      rw [Shared.move_self, ← h.left_iff, hi]
      simp
    · rw [sys.move_of_ne _ hji]
      exact h.left_iff j c n
  · intro j k c c' n n' hj hk
    rw [(honly j c n hj).1, (honly k c' n' hk).1]
  · intro j c n hj
    obtain ⟨-, rfl, rfl⟩ := honly j c n hj
    rw [Shared.move_resource, h.free hfree]
  · intro hfree'
    exact absurd (Shared.move_self sys i _) (hfree' i came came)

theorem Ordered.works (h : Ordered d start sys turns between) {i : ι}
    {came now next : κ} {resource : σ} (hi : sys.place i = .holding came now)
    (hwork : d.work (now, sys.resource) (next, resource)) :
    Ordered d start { sys.move i (.holding came next) with resource } turns
      between := by
  have hholding : ∀ j c n, (sys.move i (.holding came next)).place j =
      .holding c n → j = i := by
    intro j c n hj
    by_contra hji
    rw [sys.move_of_ne _ hji] at hj
    exact hji (h.exclusive j i c came n now hj hi)
  refine { serial := h.serial, nodup := h.nodup, left_iff := ?_,
           exclusive := ?_, holder := ?_, free := ?_ }
  · intro j c n
    by_cases hji : j = i
    · subst hji
      change (sys.move j (.holding came next)).place j = _ ↔ _
      rw [Shared.move_self, ← h.left_iff, hi]
      simp
    · change (sys.move i (.holding came next)).place j = _ ↔ _
      rw [sys.move_of_ne _ hji]
      exact h.left_iff j c n
  · intro j k c c' n n' hj hk
    rw [hholding j c n hj, hholding k c' n' hk]
  · intro j c n hj
    obtain rfl := hholding j c n hj
    change (sys.move j (.holding came next)).place j = _ at hj
    rw [Shared.move_self] at hj
    obtain ⟨rfl, rfl⟩ := Place.holding.inj hj
    exact (h.holder j came now hi).tail hwork
  · intro hfree
    exact absurd (Shared.move_self sys i _) (hfree i came next)

theorem Ordered.leaves (h : Ordered d start sys turns between) {i : ι}
    {came now : κ} (hi : sys.place i = .holding came now)
    (hover : d.ended now) :
    Ordered d start (sys.move i (.left came now))
      (turns ++ [(i, came, now)]) sys.resource := by
  have hnone : ∀ j c n, (sys.move i (.left came now)).place j ≠
      .holding c n := by
    intro j c n hj
    by_cases hji : j = i
    · subst hji
      rw [Shared.move_self] at hj
      simp at hj
    · rw [sys.move_of_ne _ hji] at hj
      exact hji (h.exclusive j i c came n now hj hi)
  have hfresh : ∀ c n, (i, c, n) ∉ turns := by
    intro c n hmem
    rw [← h.left_iff, hi] at hmem
    simp at hmem
  refine { serial := .snoc h.serial (h.holder i came now hi) hover,
           nodup := ?_, left_iff := ?_, exclusive := ?_, holder := ?_,
           free := fun _ => rfl }
  · rw [List.map_append, List.nodup_append]
    refine ⟨h.nodup, by simp, ?_⟩
    rintro j hj k hk rfl
    obtain ⟨⟨_, c, n⟩, hmem, rfl⟩ := List.mem_map.mp hj
    obtain rfl : _ = i := by simpa using hk
    exact hfresh c n hmem
  · intro j c n
    rw [List.mem_append, List.mem_singleton]
    by_cases hji : j = i
    · subst hji
      rw [Shared.move_self]
      constructor
      · intro heq
        obtain ⟨rfl, rfl⟩ := Place.left.inj heq
        exact Or.inr rfl
      · rintro (hmem | heq)
        · exact absurd hmem (hfresh c n)
        · obtain ⟨-, rfl, rfl⟩ : j = j ∧ c = came ∧ n = now := by
            simpa using heq
          rfl
    · rw [sys.move_of_ne _ hji, h.left_iff]
      exact ⟨Or.inl, fun hmem => hmem.resolve_right
        fun heq => hji (congrArg Prod.fst heq)⟩
  · intro j k c c' n n' hj
    exact absurd hj (hnone j c n)
  · intro j c n hj
    exact absurd hj (hnone j c n)

/-- What one step does to the order. -/
theorem Ordered.step (h : Ordered d start sys turns between)
    (hstep : Step d sys sys') :
    ∃ turns' between', turns <+: turns' ∧
      Ordered d start sys' turns' between' := by
  cases hstep with
  | arrive i came hi =>
      exact ⟨turns, between, List.prefix_rfl,
        h.moved (by simp [hi]) (by simp)⟩
  | enter hi hfree =>
      exact ⟨turns, between, List.prefix_rfl, h.enters hi hfree⟩
  | work hi hwork =>
      exact ⟨turns, between, List.prefix_rfl, h.works hi hwork⟩
  | leave hi hover =>
      exact ⟨_, _, List.prefix_append _ _, h.leaves hi hover⟩

/-- Every run is serial. -/
theorem reachable_ordered
    (h : ReflTransGen (Step d) (Shared.new start) sys) :
    ∃ turns between, Ordered d start sys turns between := by
  induction h with
  | refl => exact ⟨[], start, ordered_new d start⟩
  | tail _ hstep ih =>
      obtain ⟨turns, between, hordered⟩ := ih
      obtain ⟨turns', between', -, hordered'⟩ := hordered.step hstep
      exact ⟨turns', between', hordered'⟩

end Turns
end ImageReader
