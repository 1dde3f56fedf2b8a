import ImageReader.OrdMap

/-!
# Maps of half-open intervals

An ordered map over `ℕ` is a map of intervals when its values know where their
interval ends: the entry `(k, b)` is the interval `[k, stop b)`, painted with
`colour b`.  `Covers m s c` says that the point `s` has colour `c`.

In a `Disjoint` map a point has at most one colour, and an update which
respects its neighbours recolours exactly its own interval.  Intervals may be
empty and may touch.
-/

namespace ImageReader

universe u

/-- The right end and the colour of an interval, as its map entry stores
them. -/
class Spanning (β : Type u) (γ : outParam (Type u)) where
  stop : β → ℕ
  colour : β → γ

/-- An interval stored as its end and its colour. -/
instance (γ : Type) : Spanning (ℕ × γ) γ := ⟨Prod.fst, Prod.snd⟩

/-- An interval stored as its end alone. -/
instance : Spanning ℕ Unit := ⟨id, fun _ => ()⟩

@[simp] theorem stop_pair {γ : Type} (b : ℕ × γ) : Spanning.stop b = b.1 := rfl

@[simp] theorem colour_pair {γ : Type} (b : ℕ × γ) :
    Spanning.colour b = b.2 := rfl

@[simp] theorem stop_nat (b : ℕ) : Spanning.stop b = b := rfl

@[simp] theorem colour_nat (b : ℕ) : Spanning.colour b = () := rfl

namespace OrdMap

open Spanning

variable {β γ : Type} [Spanning β γ] {m : OrdMap ℕ β}

def Covers (m : OrdMap ℕ β) (s : ℕ) (c : γ) : Prop :=
  ∃ k b, (k, b) ∈ m ∧ k ≤ s ∧ s < stop b ∧ colour b = c

/-- The intervals are in key order and do not overlap. -/
def Disjoint (m : OrdMap ℕ β) : Prop :=
  ∀ k b, (k, b) ∈ m → k ≤ stop b ∧
    ∀ k' b', (k', b') ∈ m → k < k' → stop b ≤ k'

@[simp] theorem disjoint_empty : (empty : OrdMap ℕ β).Disjoint := by
  intro k b h
  simp at h

@[simp] theorem not_covers_empty (s : ℕ) (c : γ) :
    ¬ (empty : OrdMap ℕ β).Covers s c := by
  simp [Covers]

theorem Disjoint.entry_unique (hm : m.Disjoint) {s k k' : ℕ} {b b' : β}
    (hk : (k, b) ∈ m) (hk' : (k', b') ∈ m)
    (hs : k ≤ s ∧ s < stop b) (hs' : k' ≤ s ∧ s < stop b') :
    k = k' ∧ b = b' := by
  have hkeys : k = k' := by
    rcases lt_trichotomy k k' with hlt | heq | hgt
    · have := (hm k b hk).2 k' b' hk' hlt
      omega
    · exact heq
    · have := (hm k' b' hk').2 k b hk hgt
      omega
  subst hkeys
  exact ⟨rfl, value_unique hk hk'⟩

theorem Disjoint.colour_unique (hm : m.Disjoint) {s : ℕ} {c c' : γ}
    (h : m.Covers s c) (h' : m.Covers s c') : c = c' := by
  obtain ⟨k, b, hk, hle, hlt, rfl⟩ := h
  obtain ⟨k', b', hk', hle', hlt', rfl⟩ := h'
  obtain ⟨_, rfl⟩ := hm.entry_unique hk hk' ⟨hle, hlt⟩ ⟨hle', hlt'⟩
  rfl

/-! ## Inserting and erasing one interval -/

/-- Where an interval `[key, stop value)` may be put: behind every interval
that starts before it and in front of every interval that starts after it. -/
structure Fits (m : OrdMap ℕ β) (key : ℕ) (value : β) : Prop where
  ordered : key ≤ stop value
  before : ∀ k b, (k, b) ∈ m → k < key → stop b ≤ key
  after : ∀ k b, (k, b) ∈ m → key < k → stop value ≤ k

theorem Disjoint.insert (hm : m.Disjoint) {key : ℕ} {value : β}
    (hfits : m.Fits key value) : (m.insert key value).Disjoint := by
  intro k b hentry
  rcases mem_insert.mp hentry with ⟨rfl, rfl⟩ | ⟨_, hold⟩
  · refine ⟨hfits.ordered, ?_⟩
    intro k' b' hentry' hlt
    rcases mem_insert.mp hentry' with ⟨rfl, rfl⟩ | ⟨_, hold'⟩
    · omega
    · exact hfits.after k' b' hold' hlt
  · refine ⟨(hm k b hold).1, ?_⟩
    intro k' b' hentry' hlt
    rcases mem_insert.mp hentry' with ⟨rfl, rfl⟩ | ⟨_, hold'⟩
    · exact hfits.before k b hold hlt
    · exact (hm k b hold).2 k' b' hold' hlt

theorem Disjoint.erase (hm : m.Disjoint) (key : ℕ) :
    (m.erase key).Disjoint := by
  intro k b hentry
  obtain ⟨_, hentry⟩ := mem_erase.mp hentry
  refine ⟨(hm k b hentry).1, ?_⟩
  intro k' b' hentry' hlt
  exact (hm k b hentry).2 k' b' (mem_erase.mp hentry').2 hlt

/-- A fitting interval which replaces at most a shorter one under the same key
recolours its own points and no others. -/
theorem covers_insert {key : ℕ} {value : β} (hfits : m.Fits key value)
    (hgrow : ∀ b, (key, b) ∈ m → stop b ≤ stop value) {s : ℕ} {c : γ} :
    (m.insert key value).Covers s c ↔
      (key ≤ s ∧ s < stop value ∧ colour value = c) ∨
        (¬ (key ≤ s ∧ s < stop value) ∧ m.Covers s c) := by
  constructor
  · rintro ⟨k, b, hentry, hle, hlt, hcolour⟩
    rcases mem_insert.mp hentry with ⟨rfl, rfl⟩ | ⟨hne, hentry⟩
    · exact Or.inl ⟨hle, hlt, hcolour⟩
    · refine Or.inr ⟨?_, k, b, hentry, hle, hlt, hcolour⟩
      rcases Nat.lt_or_gt_of_ne hne with hk | hk
      · have := hfits.before k b hentry hk
        omega
      · have := hfits.after k b hentry hk
        omega
  · rintro (⟨hle, hlt, hcolour⟩ | ⟨hout, k, b, hentry, hle, hlt, hcolour⟩)
    · exact ⟨key, value, mem_insert.mpr (Or.inl ⟨rfl, rfl⟩), hle, hlt, hcolour⟩
    · have hne : k ≠ key := by
        rintro rfl
        have := hgrow b hentry
        exact hout ⟨hle, by omega⟩
      exact ⟨k, b, mem_insert.mpr (Or.inr ⟨hne, hentry⟩), hle, hlt, hcolour⟩

theorem Disjoint.covers_erase (hm : m.Disjoint) {key : ℕ} {value : β}
    (hkey : (key, value) ∈ m) {s : ℕ} {c : γ} :
    (m.erase key).Covers s c ↔
      ¬ (key ≤ s ∧ s < stop value) ∧ m.Covers s c := by
  constructor
  · rintro ⟨k, b, hentry, hle, hlt, hcolour⟩
    obtain ⟨hne, hentry⟩ := mem_erase.mp hentry
    refine ⟨?_, k, b, hentry, hle, hlt, hcolour⟩
    intro hin
    exact hne (hm.entry_unique hentry hkey ⟨hle, hlt⟩ hin).1
  · rintro ⟨hout, k, b, hentry, hle, hlt, hcolour⟩
    have hne : k ≠ key := by
      rintro rfl
      obtain rfl := value_unique hentry hkey
      exact hout ⟨hle, hlt⟩
    exact ⟨k, b, mem_erase.mpr ⟨hne, hentry⟩, hle, hlt, hcolour⟩

/-! ## Canonical form -/

/-- No interval is empty, and touching intervals have different colours. -/
structure Canonical (m : OrdMap ℕ β) : Prop where
  disjoint : m.Disjoint
  nonempty : ∀ k b, (k, b) ∈ m → k < stop b
  apart : ∀ k b k' b', (k, b) ∈ m → (k', b') ∈ m → stop b = k' →
    colour b ≠ colour b'

theorem Canonical.insert (hm : m.Canonical) {key : ℕ} {value : β}
    (hfits : m.Fits key value) (hpos : key < stop value)
    (hleft : ∀ k b, (k, b) ∈ m → stop b = key → colour b ≠ colour value)
    (hright : ∀ b, (stop value, b) ∈ m → colour value ≠ colour b) :
    (m.insert key value).Canonical where
  disjoint := hm.disjoint.insert hfits
  nonempty := by
    intro k b hentry
    rcases mem_insert.mp hentry with ⟨rfl, rfl⟩ | ⟨_, hold⟩
    · exact hpos
    · exact hm.nonempty k b hold
  apart := by
    intro k b k' b' hentry hentry' hstop
    rcases mem_insert.mp hentry with ⟨rfl, rfl⟩ | ⟨_, hold⟩
    · rcases mem_insert.mp hentry' with ⟨rfl, rfl⟩ | ⟨_, hold'⟩
      · omega
      · subst hstop
        exact hright b' hold'
    · rcases mem_insert.mp hentry' with ⟨rfl, rfl⟩ | ⟨_, hold'⟩
      · exact hleft k b hold hstop
      · exact hm.apart k b k' b' hold hold' hstop

theorem Canonical.erase (hm : m.Canonical) (key : ℕ) :
    (m.erase key).Canonical where
  disjoint := hm.disjoint.erase key
  nonempty := fun k b hentry => hm.nonempty k b (mem_erase.mp hentry).2
  apart := fun k b k' b' hentry hentry' =>
    hm.apart k b k' b' (mem_erase.mp hentry).2 (mem_erase.mp hentry').2

end OrdMap

end ImageReader
