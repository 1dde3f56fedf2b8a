import Mathlib.Data.Finset.Card
import Mathlib.Data.List.Infix
import Mathlib.Tactic

/-!
# Trails

A partial map names the next element after each element, or none.  The trail
of a start lists what is passed on the way.  In a finite set which the map does
not leave, a trail comes back to one of its own elements unless it ends.
-/

namespace ImageReader

variable {α : Type} {next : α → Option α} {start a b : α} {j k : ℕ}

/-- The element after `k` moves. -/
def nthAfter (next : α → Option α) (start : α) : ℕ → Option α
  | 0 => some start
  | k + 1 => (nthAfter next start k).bind next

/-- The first `k` elements on the way. -/
def trail (next : α → Option α) (start : α) (k : ℕ) : List α :=
  (List.range k).filterMap (nthAfter next start)

theorem nthAfter_succ (h : nthAfter next start k = some a) :
    nthAfter next start (k + 1) = next a := by
  unfold nthAfter
  rw [h]
  rfl

theorem exists_nthAfter_of_le (h : nthAfter next start k = some a)
    (hle : j ≤ k) : ∃ b, nthAfter next start j = some b := by
  induction k generalizing a with
  | zero =>
      obtain rfl : j = 0 := by omega
      exact ⟨a, h⟩
  | succ k ih =>
      rcases Nat.lt_or_eq_of_le hle with hlt | rfl
      · obtain ⟨b, hb, -⟩ := Option.bind_eq_some_iff.mp h
        exact ih hb (by omega)
      · exact ⟨a, h⟩

@[simp] theorem trail_zero : trail next start 0 = [] := rfl

theorem trail_succ (h : nthAfter next start k = some a) :
    trail next start (k + 1) = trail next start k ++ [a] := by
  unfold trail
  rw [List.range_succ, List.filterMap_append]
  simp [h]

theorem trail_initial (next : α → Option α) (start : α) (hle : j ≤ k) :
    trail next start j <+: trail next start k := by
  unfold trail
  obtain ⟨more, rfl⟩ := Nat.exists_eq_add_of_le hle
  rw [List.range_add, List.filterMap_append]
  exact List.prefix_append _ _

theorem mem_trail_iff :
    a ∈ trail next start k ↔ ∃ i < k, nthAfter next start i = some a := by
  simp [trail]

theorem length_trail (h : nthAfter next start k = some a) :
    (trail next start k).length = k := by
  induction k generalizing a with
  | zero => rfl
  | succ k ih =>
      obtain ⟨b, hb⟩ := exists_nthAfter_of_le h (Nat.le_succ k)
      rw [trail_succ hb, List.length_append, ih hb, List.length_singleton]

theorem nthAfter_mem {s : Finset α}
    (hclosed : ∀ a ∈ s, ∀ b, next a = some b → b ∈ s) (hstart : start ∈ s)
    (h : nthAfter next start k = some a) : a ∈ s := by
  induction k generalizing a with
  | zero =>
      obtain rfl : start = a := Option.some.inj h
      exact hstart
  | succ k ih =>
      obtain ⟨b, hb, hnext⟩ := Option.bind_eq_some_iff.mp h
      exact hclosed b (ih hb) a hnext

/-- A trail without repetitions is not longer than the set it stays in. -/
theorem le_card_of_nodup_trail {s : Finset α}
    (hclosed : ∀ a ∈ s, ∀ b, next a = some b → b ∈ s) (hstart : start ∈ s)
    (h : nthAfter next start k = some a) (hnodup : (trail next start k).Nodup) :
    k ≤ s.card := by
  classical
  have hsub : (trail next start k).toFinset ⊆ s := by
    intro b hb
    obtain ⟨i, -, hi⟩ := mem_trail_iff.mp (List.mem_toFinset.mp hb)
    exact nthAfter_mem hclosed hstart hi
  have hcard := Finset.card_le_card hsub
  rwa [List.toFinset_card_of_nodup hnodup, length_trail h] at hcard

/-- A trail which has come back repeats an element from then on. -/
theorem not_nodup_trail_of_mem (h : nthAfter next start k = some a)
    (hback : a ∈ trail next start k) (hlt : k < j) :
    ¬ (trail next start j).Nodup := by
  intro hnodup
  have hinitial : trail next start (k + 1) <+: trail next start j :=
    trail_initial next start hlt
  rw [trail_succ h] at hinitial
  have hboth := List.nodup_append.mp (hinitial.sublist.nodup hnodup)
  exact hboth.2.2 a hback a (List.mem_singleton_self a) rfl

end ImageReader
