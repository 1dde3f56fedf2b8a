import Mathlib.Tactic
import Mathlib.Data.List.Sort

/-!
# Finite maps in key order

An ordered map is its list of entries, strictly increasing in the key.  Next
to `insert` and `erase` it answers the two neighbour queries of a search tree:
the last entry at or below a key and the first entry above it.

Every operation is described by the entries the result has.  An entry `(k, v)`
of `m` is written `(k, v) ∈ m`.
-/

namespace ImageReader

universe u v

variable {κ : Type u} {α : Type v} [LinearOrder κ]

@[ext]
structure OrdMap (κ : Type u) (α : Type v) [LinearOrder κ] where
  entries : List (κ × α)
  sorted : entries.Pairwise fun a b => a.1 < b.1

namespace OrdMap

def insertEntry (key : κ) (value : α) : List (κ × α) → List (κ × α)
  | [] => [(key, value)]
  | entry :: rest =>
      if key < entry.1 then (key, value) :: entry :: rest
      else if key = entry.1 then (key, value) :: rest
      else entry :: insertEntry key value rest

theorem mem_insertEntry_of_mem {key : κ} {value : α} {entry : κ × α}
    {entries : List (κ × α)} (h : entry ∈ insertEntry key value entries) :
    entry = (key, value) ∨ entry ∈ entries := by
  induction entries with
  | nil => simpa [insertEntry] using h
  | cons head rest ih =>
      unfold insertEntry at h
      split_ifs at h with hlt heq
      · simpa using h
      · rcases List.mem_cons.mp h with h | h
        · exact Or.inl h
        · exact Or.inr (List.mem_cons_of_mem _ h)
      · rcases List.mem_cons.mp h with h | h
        · exact Or.inr (by simp [h])
        · exact (ih h).imp id (List.mem_cons_of_mem _)

theorem pairwise_insertEntry {key : κ} {value : α} {entries : List (κ × α)}
    (h : entries.Pairwise fun a b => a.1 < b.1) :
    (insertEntry key value entries).Pairwise fun a b => a.1 < b.1 := by
  induction entries with
  | nil => simp [insertEntry]
  | cons head rest ih =>
      obtain ⟨hhead, hrest⟩ := List.pairwise_cons.mp h
      unfold insertEntry
      split_ifs with hlt heq
      · refine List.pairwise_cons.mpr ⟨?_, h⟩
        intro entry hentry
        rcases List.mem_cons.mp hentry with rfl | hentry
        · exact hlt
        · exact hlt.trans (hhead entry hentry)
      · subst heq
        exact List.pairwise_cons.mpr ⟨hhead, hrest⟩
      · refine List.pairwise_cons.mpr ⟨?_, ih hrest⟩
        intro entry hentry
        rcases mem_insertEntry_of_mem hentry with rfl | hentry
        · exact lt_of_le_of_ne (not_lt.mp hlt) (Ne.symm heq)
        · exact hhead entry hentry

def empty : OrdMap κ α := ⟨[], List.Pairwise.nil⟩

def single (key : κ) (value : α) : OrdMap κ α :=
  ⟨[(key, value)], List.pairwise_singleton _ _⟩

def insert (m : OrdMap κ α) (key : κ) (value : α) : OrdMap κ α :=
  ⟨insertEntry key value m.entries, pairwise_insertEntry m.sorted⟩

def erase (m : OrdMap κ α) (key : κ) : OrdMap κ α :=
  ⟨m.entries.filter fun entry => entry.1 ≠ key, m.sorted.filter _⟩

def isEmpty (m : OrdMap κ α) : Bool := m.entries.isEmpty

/-- The last entry whose key is at most `key`. -/
def lastLE (m : OrdMap κ α) (key : κ) : Option (κ × α) :=
  (m.entries.filter fun entry => entry.1 ≤ key).getLast?

/-- The first entry whose key is above `key`. -/
def firstGT (m : OrdMap κ α) (key : κ) : Option (κ × α) :=
  m.entries.find? fun entry => key < entry.1

instance : Membership (κ × α) (OrdMap κ α) := ⟨fun m entry => entry ∈ m.entries⟩

variable {m : OrdMap κ α} {key k : κ} {value v w : α}

theorem mem_iff {entry : κ × α} : entry ∈ m ↔ entry ∈ m.entries := Iff.rfl

@[simp] theorem not_mem_empty (entry : κ × α) : entry ∉ (empty : OrdMap κ α) := by
  simp [mem_iff, empty]

@[simp] theorem mem_single :
    (k, v) ∈ (single key value : OrdMap κ α) ↔ k = key ∧ v = value := by
  simp [mem_iff, single]

theorem value_unique (hv : (k, v) ∈ m) (hw : (k, w) ∈ m) : v = w := by
  have hkeys : m.entries.Pairwise fun a b => a.1 ≠ b.1 :=
    m.sorted.imp fun h => ne_of_lt h
  by_contra hne
  have hpair : (k, v) ≠ (k, w) := by simpa using hne
  have hsymm : Std.Symm fun a b : κ × α => a.1 ≠ b.1 := ⟨fun _ _ h => Ne.symm h⟩
  exact hkeys.forall hv hw hpair rfl

theorem mem_insertEntry {entry : κ × α} {entries : List (κ × α)}
    (h : entries.Pairwise fun a b => a.1 < b.1) :
    entry ∈ insertEntry key value entries ↔
      entry = (key, value) ∨ entry.1 ≠ key ∧ entry ∈ entries := by
  induction entries with
  | nil => simp [insertEntry]
  | cons head rest ih =>
      obtain ⟨hhead, hrest⟩ := List.pairwise_cons.mp h
      unfold insertEntry
      split_ifs with hlt heq
      · constructor
        · intro hentry
          rcases List.mem_cons.mp hentry with hentry | hentry
          · exact Or.inl hentry
          · refine Or.inr ⟨?_, hentry⟩
            rcases List.mem_cons.mp hentry with rfl | hentry
            · exact ne_of_gt hlt
            · exact ne_of_gt (hlt.trans (hhead entry hentry))
        · rintro (hentry | ⟨_, hentry⟩)
          · simp [hentry]
          · exact List.mem_cons_of_mem _ hentry
      · subst heq
        constructor
        · intro hentry
          rcases List.mem_cons.mp hentry with hentry | hentry
          · exact Or.inl hentry
          · exact Or.inr
              ⟨ne_of_gt (hhead entry hentry), List.mem_cons_of_mem _ hentry⟩
        · rintro (hentry | ⟨hne, hentry⟩)
          · simp [hentry]
          · rcases List.mem_cons.mp hentry with rfl | hentry
            · exact absurd rfl hne
            · exact List.mem_cons_of_mem _ hentry
      · rw [List.mem_cons, List.mem_cons, ih hrest]
        constructor
        · rintro (rfl | hentry | ⟨hne, hentry⟩)
          · exact Or.inr ⟨Ne.symm heq, Or.inl rfl⟩
          · exact Or.inl hentry
          · exact Or.inr ⟨hne, Or.inr hentry⟩
        · rintro (hentry | ⟨hne, rfl | hentry⟩)
          · exact Or.inr (Or.inl hentry)
          · exact Or.inl rfl
          · exact Or.inr (Or.inr ⟨hne, hentry⟩)

@[simp] theorem mem_insert :
    (k, v) ∈ m.insert key value ↔
      (k = key ∧ v = value) ∨ k ≠ key ∧ (k, v) ∈ m := by
  simp only [mem_iff, insert, mem_insertEntry m.sorted, Prod.mk.injEq]

theorem mem_insert_self : (key, value) ∈ m.insert key value :=
  mem_insert.mpr (Or.inl ⟨rfl, rfl⟩)

@[simp] theorem mem_erase :
    (k, v) ∈ m.erase key ↔ k ≠ key ∧ (k, v) ∈ m := by
  simp [mem_iff, erase, and_comm]

theorem isEmpty_iff : m.isEmpty = true ↔ ∀ entry, entry ∉ m := by
  simp [isEmpty, mem_iff, List.eq_nil_iff_forall_not_mem]

/-! ## Neighbour queries -/

theorem lastLE_eq_some_iff :
    m.lastLE key = some (k, v) ↔
      (k, v) ∈ m ∧ k ≤ key ∧ ∀ k' v', (k', v') ∈ m → k' ≤ key → k' ≤ k := by
  have hsorted : (m.entries.filter fun entry => entry.1 ≤ key).Pairwise
      fun a b => a.1 < b.1 := m.sorted.filter _
  constructor
  · intro h
    obtain ⟨init, hinit⟩ := List.getLast?_eq_some_iff.mp h
    have hmem : (k, v) ∈ m.entries.filter fun entry => entry.1 ≤ key := by
      simp [hinit]
    obtain ⟨hentry, hle⟩ := List.mem_filter.mp hmem
    refine ⟨hentry, by simpa using hle, ?_⟩
    intro k' v' hentry' hle'
    have hmem' : (k', v') ∈ m.entries.filter fun entry => entry.1 ≤ key :=
      List.mem_filter.mpr ⟨hentry', by simpa using hle'⟩
    rw [hinit] at hmem' hsorted
    rcases List.mem_append.mp hmem' with hmem' | hmem'
    · exact ((List.pairwise_append.mp hsorted).2.2 _ hmem' (k, v) (by simp)).le
    · simp only [List.mem_singleton, Prod.mk.injEq] at hmem'
      exact hmem'.1.le
  · rintro ⟨hentry, hle, hlast⟩
    have hmem : (k, v) ∈ m.entries.filter fun entry => entry.1 ≤ key :=
      List.mem_filter.mpr ⟨hentry, by simpa using hle⟩
    unfold lastLE
    cases hcase : (m.entries.filter fun entry => entry.1 ≤ key).getLast? with
    | none =>
        rw [List.getLast?_eq_none_iff] at hcase
        simp [hcase] at hmem
    | some entry =>
        obtain ⟨init, hinit⟩ := List.getLast?_eq_some_iff.mp hcase
        have hfilter : entry ∈ m.entries.filter fun entry => entry.1 ≤ key := by
          simp [hinit]
        obtain ⟨hentry', hle'⟩ := List.mem_filter.mp hfilter
        have hback : entry.1 ≤ k := hlast entry.1 entry.2 hentry' (by simpa using hle')
        rw [hinit] at hmem hsorted
        rcases List.mem_append.mp hmem with hmem | hmem
        · exact absurd ((List.pairwise_append.mp hsorted).2.2 _ hmem entry (by simp))
            (not_lt.mpr hback)
        · simpa using (List.mem_singleton.mp hmem).symm

theorem lastLE_eq_none_iff :
    m.lastLE key = none ↔ ∀ k v, (k, v) ∈ m → key < k := by
  simp [lastLE, mem_iff]

theorem firstGT_eq_some_iff :
    m.firstGT key = some (k, v) ↔
      (k, v) ∈ m ∧ key < k ∧ ∀ k' v', (k', v') ∈ m → key < k' → k ≤ k' := by
  constructor
  · intro h
    obtain ⟨hgt, before, after, hsplit, hbefore⟩ :=
      List.find?_eq_some_iff_append.mp h
    refine ⟨by simp [mem_iff, hsplit], by simpa using hgt, ?_⟩
    intro k' v' hentry hgt'
    have hsorted := m.sorted
    rw [mem_iff, hsplit] at hentry
    rw [hsplit] at hsorted
    rcases List.mem_append.mp hentry with hentry | hentry
    · have := hbefore _ hentry
      simp only [Bool.not_eq_eq_eq_not, Bool.not_true, decide_eq_false_iff_not] at this
      exact absurd hgt' this
    · rcases List.mem_cons.mp hentry with hentry | hentry
      · simp only [Prod.mk.injEq] at hentry
        exact hentry.1.ge
      · exact ((List.pairwise_cons.mp
          (List.pairwise_append.mp hsorted).2.1).1 _ hentry).le
  · rintro ⟨hentry, hgt, hfirst⟩
    unfold firstGT
    cases hcase : m.entries.find? fun entry => key < entry.1 with
    | none =>
        have := List.find?_eq_none.mp hcase _ hentry
        simp [hgt] at this
    | some entry =>
        have hmem : entry ∈ m := List.mem_of_find?_eq_some hcase
        have hgt' : key < entry.1 := by
          simpa using List.find?_some hcase
        have hle : k ≤ entry.1 := hfirst entry.1 entry.2 hmem hgt'
        obtain ⟨_, before, after, hsplit, hbefore⟩ :=
          List.find?_eq_some_iff_append.mp hcase
        have hge : entry.1 ≤ k := by
          have hsorted := m.sorted
          rw [mem_iff, hsplit] at hentry
          rw [hsplit] at hsorted
          rcases List.mem_append.mp hentry with hentry | hentry
          · have := hbefore _ hentry
            simp [hgt] at this
          · rcases List.mem_cons.mp hentry with hentry | hentry
            · simp [← hentry]
            · exact ((List.pairwise_cons.mp
                (List.pairwise_append.mp hsorted).2.1).1 _ hentry).le
        have hkey : entry.1 = k := le_antisymm hge hle
        have hvalue : entry.2 = v := by
          have hmem' : (k, entry.2) ∈ m := by
            rw [← hkey]
            exact hmem
          exact value_unique hmem' hentry
        simp [← hkey, ← hvalue]

theorem firstGT_eq_none_iff :
    m.firstGT key = none ↔ ∀ k v, (k, v) ∈ m → k ≤ key := by
  simp [firstGT, mem_iff, List.find?_eq_none]

end OrdMap

end ImageReader
