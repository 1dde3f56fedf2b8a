import Mathlib.Tactic

/-!
# Lists one entry of which changes

What is counted or summed over the entries of a list, when one of them is
replaced or a new one comes in at the end.
-/

namespace ImageReader

variable {α : Type*} {xs : List α} {a : α} {i : ℕ}

theorem sum_map_set (weight : α → ℕ) (b : α) (hget : xs[i]? = some a) :
    ((xs.set i b).map weight).sum + weight a =
      (xs.map weight).sum + weight b := by
  induction xs generalizing i with
  | nil => simp at hget
  | cons first rest ih =>
      cases i with
      | zero =>
          obtain rfl : first = a := by simpa using hget
          simp only [List.set_cons_zero, List.map_cons, List.sum_cons]
          omega
      | succ i =>
          rw [List.getElem?_cons_succ] at hget
          have := ih hget
          simp only [List.set_cons_succ, List.map_cons, List.sum_cons]
          omega

theorem sum_map_append (weight : α → ℕ) (xs : List α) (a : α) :
    ((xs ++ [a]).map weight).sum = (xs.map weight).sum + weight a := by
  rw [List.map_append, List.sum_append, List.map_singleton, List.sum_singleton]

/-- Work goes down with the work of the entry which has changed. -/
theorem sum_map_set_lt {weight : α → ℕ} {b : α} (hget : xs[i]? = some a)
    (hlt : weight b < weight a) :
    ((xs.set i b).map weight).sum < (xs.map weight).sum := by
  have := sum_map_set weight b hget
  omega

theorem countP_set (p : α → Bool) (b : α) (hget : xs[i]? = some a) :
    (xs.set i b).countP p + (p a).toNat = xs.countP p + (p b).toNat := by
  have hsum : ∀ ys : List α, ys.countP p =
      (ys.map fun y => (p y).toNat).sum := by
    intro ys
    induction ys with
    | nil => rfl
    | cons y rest ih =>
        rw [List.countP_cons, List.map_cons, List.sum_cons, ih, Nat.add_comm]
        cases p y <;> rfl
  rw [hsum, hsum]
  exact sum_map_set (fun y => (p y).toNat) b hget

end ImageReader
