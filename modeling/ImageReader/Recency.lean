import Mathlib.Data.List.Dedup
import Mathlib.Data.List.DropRight
import Mathlib.Tactic

/-!
# Recency

A bounded map which drops the least recently used key holds the last distinct
keys of its uses.  A history is a list of lookups and insertions.  An insertion
uses its key, and so does a lookup of a key which is still held; a lookup which
finds nothing uses none.
-/

namespace ImageReader

section Recent

variable {κ : Type} [DecidableEq κ] {capacity : ℕ} {uses : List κ} {key key' : κ}

/-- The last `capacity` distinct keys, in the order of their last use. -/
def recent (capacity : ℕ) (uses : List κ) : List κ :=
  uses.dedup.rtake capacity

theorem rtake_suffix {α : Type} (l : List α) (n : ℕ) : l.rtake n <:+ l :=
  List.drop_suffix _ l

theorem length_rtake_le {α : Type} (l : List α) (n : ℕ) :
    (l.rtake n).length ≤ n := by
  rw [List.rtake, List.length_drop]
  omega

theorem rtake_of_length_le {α : Type} {l : List α} {n : ℕ}
    (h : l.length ≤ n) : l.rtake n = l := by
  rw [List.rtake, Nat.sub_eq_zero_of_le h, List.drop_zero]

theorem rtake_cons_of_le {α : Type} {l : List α} {n : ℕ} (a : α)
    (h : n ≤ l.length) : (a :: l).rtake n = l.rtake n := by
  rw [List.rtake, List.rtake, List.length_cons, Nat.succ_sub h,
    List.drop_succ_cons]

@[simp] theorem recent_nil : recent capacity ([] : List κ) = [] :=
  List.rtake_nil capacity

@[simp] theorem recent_zero (uses : List κ) : recent 0 uses = [] :=
  List.rtake_zero _

theorem nodup_recent (capacity : ℕ) (uses : List κ) :
    (recent capacity uses).Nodup :=
  (rtake_suffix _ _).sublist.nodup (List.nodup_dedup uses)

theorem length_recent_le (capacity : ℕ) (uses : List κ) :
    (recent capacity uses).length ≤ capacity :=
  length_rtake_le _ _

theorem dedup_concat (uses : List κ) (key : κ) :
    (uses ++ [key]).dedup = uses.dedup.filter (· ≠ key) ++ [key] := by
  induction uses with
  | nil => rfl
  | cons head rest ih =>
      rw [List.cons_append]
      by_cases hrest : head ∈ rest
      · rw [List.dedup_cons_of_mem hrest,
          List.dedup_cons_of_mem (List.mem_append_left _ hrest), ih]
      · rw [List.dedup_cons_of_notMem hrest]
        by_cases hhead : head = key
        · subst hhead
          rw [List.dedup_cons_of_mem (by simp), ih]
          simp
        · rw [List.dedup_cons_of_notMem (by simp [hrest, hhead]), ih,
            List.filter_cons_of_pos (by simpa using hhead), List.cons_append]

theorem filter_ne_eq_erase {l : List κ} (h : l.Nodup) (key : κ) :
    l.filter (· ≠ key) = l.erase key := by
  rw [h.erase_eq_filter]
  apply List.filter_congr
  intro k _
  simp [bne, beq_eq_decide]

/-- Without one of its keys, a list without repetitions is at most one key
shorter, so its last keys do not come from further in front than that. -/
theorem rtake_filter_ne {l : List κ} (h : l.Nodup) (n : ℕ) (key : κ) :
    ((l.rtake (n + 1)).filter (· ≠ key)).rtake n =
      (l.filter (· ≠ key)).rtake n := by
  induction l with
  | nil => simp
  | cons head rest ih =>
      rw [List.nodup_cons] at h
      by_cases hn : rest.length ≤ n
      · have hshort : (head :: rest).length ≤ n + 1 := by simpa using hn
        rw [rtake_of_length_le hshort]
      · rw [rtake_cons_of_le head (by omega), ih h.2]
        by_cases hhead : head = key
        · rw [List.filter_cons_of_neg (by simpa using hhead)]
        · have hlong : n ≤ (rest.filter (· ≠ key)).length := by
            have := List.le_length_erase (a := key) (l := rest)
            rw [filter_ne_eq_erase h.2]
            omega
          rw [List.filter_cons_of_pos (by simpa using hhead),
            rtake_cons_of_le head hlong]

/-- After one more use the key is the most recent one. -/
theorem recent_concat (capacity : ℕ) (uses : List κ) (key : κ) :
    recent capacity (uses ++ [key]) =
      ((recent capacity uses).filter (· ≠ key) ++ [key]).rtake capacity := by
  unfold recent
  cases capacity with
  | zero => simp
  | succ n =>
      rw [dedup_concat, List.rtake_concat_succ, List.rtake_concat_succ,
        rtake_filter_ne (List.nodup_dedup uses)]

/-- One more use of a recent key changes nothing but the order. -/
theorem recent_concat_of_mem (h : key ∈ recent capacity uses) :
    recent capacity (uses ++ [key]) =
      (recent capacity uses).filter (· ≠ key) ++ [key] := by
  rw [recent_concat, rtake_of_length_le]
  have hpos := List.length_pos_of_mem h
  have hle := length_recent_le capacity uses
  rw [List.length_append, filter_ne_eq_erase (nodup_recent capacity uses),
    List.length_erase_of_mem h, List.length_singleton]
  omega

end Recent

/-! ## Histories -/

inductive MapOp (κ α : Type) where
  | get (key : κ)
  | insert (key : κ) (value : α)

namespace MapOp

variable {κ α : Type} [DecidableEq κ] {capacity : ℕ} {ops : List (MapOp κ α)}
  {op : MapOp κ α} {key : κ} {value : α}

/-- The uses after one more operation. -/
def use (capacity : ℕ) (uses : List κ) : MapOp κ α → List κ
  | get key => if key ∈ recent capacity uses then uses ++ [key] else uses
  | insert key _ => uses ++ [key]

def uses (capacity : ℕ) (ops : List (MapOp κ α)) : List κ :=
  ops.foldl (use capacity) []

/-- The keys a map of this capacity holds after the operations, in the order of
their last use. -/
def held (capacity : ℕ) (ops : List (MapOp κ α)) : List κ :=
  recent capacity (uses capacity ops)

theorem uses_concat (ops : List (MapOp κ α)) (op : MapOp κ α) :
    uses capacity (ops ++ [op]) = use capacity (uses capacity ops) op := by
  simp [uses]

theorem held_concat_get (ops : List (MapOp κ α)) (key : κ) :
    held capacity (ops ++ [get key]) =
      if key ∈ held capacity ops then
        (held capacity ops).filter (· ≠ key) ++ [key]
      else held capacity ops := by
  unfold held
  rw [uses_concat, use]
  split_ifs with hkey
  · exact recent_concat_of_mem hkey
  · rfl

theorem held_concat_insert (ops : List (MapOp κ α)) (key : κ) (value : α) :
    held capacity (ops ++ [insert key value]) =
      ((held capacity ops).filter (· ≠ key) ++ [key]).rtake capacity := by
  unfold held
  rw [uses_concat, use, recent_concat]

theorem mem_held_concat_get (key key' : κ) :
    key' ∈ held capacity (ops ++ [get key]) ↔ key' ∈ held capacity ops := by
  rw [held_concat_get]
  split_ifs with hkey
  · by_cases hne : key' = key
    · simp [hne, hkey]
    · simp [hne]
  · rfl

/-- The last value that went in under `key` is `value`, and the key has been
among the recent ones ever since. -/
def HeldSince (capacity : ℕ) (ops : List (MapOp κ α)) (key : κ) (value : α) :
    Prop :=
  ∃ before after, ops = before ++ insert key value :: after ∧
    (∀ value', insert key value' ∉ after) ∧
    ∀ later, later <+: after →
      key ∈ held capacity (before ++ insert key value :: later)

theorem not_heldSince_nil : ¬ HeldSince capacity [] key value := by
  rintro ⟨before, after, heq, -⟩
  simp at heq

theorem HeldSince.mem_held (h : HeldSince capacity ops key value) :
    key ∈ held capacity ops := by
  obtain ⟨before, after, rfl, -, hheld⟩ := h
  exact hheld after List.prefix_rfl

/-- An operation which does not put `key` in keeps what is held under it as
long as the key stays among the recent ones. -/
theorem heldSince_concat_iff (hother : ∀ value, op ≠ insert key value) :
    HeldSince capacity (ops ++ [op]) key value ↔
      HeldSince capacity ops key value ∧ key ∈ held capacity (ops ++ [op]) := by
  constructor
  · intro h
    refine ⟨?_, h.mem_held⟩
    obtain ⟨before, after, heq, hlast, hheld⟩ := h
    rcases List.eq_nil_or_concat after with rfl | ⟨after', op', rfl⟩
    · have hop := (List.append_inj' heq rfl).2
      exact absurd (List.cons.inj hop).1 (hother value)
    · rw [List.concat_eq_append, ← List.cons_append, ← List.append_assoc] at heq
      obtain ⟨rfl, -⟩ := List.append_inj' heq rfl
      refine ⟨before, after', rfl, ?_, ?_⟩
      · exact fun value' hin => hlast value' (by simp [hin])
      · intro later hlater
        exact hheld later (hlater.trans (by simp))
  · rintro ⟨⟨before, after, rfl, hlast, hheld⟩, hmem⟩
    refine ⟨before, after ++ [op], by simp, ?_, ?_⟩
    · intro value' hin
      rcases List.mem_append.mp hin with hin | hin
      · exact hlast value' hin
      · exact hother value' (List.mem_singleton.mp hin).symm
    · intro later hlater
      rcases List.prefix_concat_iff.mp hlater with rfl | hlater
      · simpa using hmem
      · exact hheld later hlater

theorem heldSince_concat_insert_iff (value' : α) :
    HeldSince capacity (ops ++ [insert key value']) key value ↔
      value' = value ∧ key ∈ held capacity (ops ++ [insert key value']) := by
  constructor
  · intro h
    refine ⟨?_, h.mem_held⟩
    obtain ⟨before, after, heq, hlast, -⟩ := h
    rcases List.eq_nil_or_concat after with rfl | ⟨after', op', rfl⟩
    · have hop := (List.append_inj' heq rfl).2
      exact (insert.inj (List.cons.inj hop).1).2
    · rw [List.concat_eq_append, ← List.cons_append, ← List.append_assoc] at heq
      have hop := (List.append_inj' heq rfl).2
      refine absurd ?_ (hlast value')
      simp [List.cons.inj hop]
  · rintro ⟨rfl, hmem⟩
    refine ⟨ops, [], rfl, by simp, ?_⟩
    intro later hlater
    obtain rfl := List.prefix_nil.mp hlater
    exact hmem

end MapOp

end ImageReader
