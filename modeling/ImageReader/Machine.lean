import ImageReader.Outcome
import Mathlib.Data.List.TakeWhile

/-!
# Machine words and slices

Unsigned 64-bit arithmetic and bounds-checked slicing, as the two build
profiles execute them.  An operation whose exact result is not a word panics
in the `dev` profile and wraps in the `release` profile; an index, a slice
range or a copy that does not fit panics in both.  Words are natural numbers,
and `usize` is a 64-bit word as well.

The `_of_` lemmas are the interface: they rewrite an operation to its exact
result under the side condition which keeps it in range.
-/

namespace ImageReader

/-- The build profiles differ in what an arithmetic overflow does. -/
inductive Build where
  | dev
  | release
  deriving DecidableEq, Repr

/-- One more than the largest word. -/
def wordLimit : ℕ := 2 ^ 64

theorem wordLimit_eq : wordLimit = 18446744073709551616 := rfl

/-- The length of the longest vector of bytes. -/
def isizeMax : ℕ := 2 ^ 63 - 1

/-- `a.checked_add(b)` -/
def checkedAdd (a b : ℕ) : Option ℕ :=
  if a + b < wordLimit then some (a + b) else none

/-- `a.checked_mul(b)` -/
def checkedMul (a b : ℕ) : Option ℕ :=
  if a * b < wordLimit then some (a * b) else none

/-- `a.saturating_add(b)` -/
def saturatingAdd (a b : ℕ) : ℕ := min (a + b) (wordLimit - 1)

theorem saturatingAdd_of_lt {a b : ℕ} (h : a + b < wordLimit) :
    saturatingAdd a b = a + b := by
  unfold saturatingAdd
  omega

/-- `base.checked_pow(exponent)` -/
def checkedPow (base exponent : ℕ) : Option ℕ :=
  if base ^ exponent < wordLimit then some (base ^ exponent) else none

theorem checkedAdd_eq_some {a b c : ℕ} :
    checkedAdd a b = some c ↔ a + b < wordLimit ∧ a + b = c := by
  unfold checkedAdd
  split_ifs with h <;> simp [h]

theorem checkedMul_eq_some {a b c : ℕ} :
    checkedMul a b = some c ↔ a * b < wordLimit ∧ a * b = c := by
  unfold checkedMul
  split_ifs with h <;> simp [h]

namespace Build

universe v

variable {ε : Type v}

def add (build : Build) (a b : ℕ) : Outcome ε ℕ :=
  if a + b < wordLimit then .ok (a + b)
  else match build with
    | dev => .panic .addOverflow
    | release => .ok ((a + b) % wordLimit)

def sub (build : Build) (a b : ℕ) : Outcome ε ℕ :=
  if b ≤ a then .ok (a - b)
  else match build with
    | dev => .panic .subOverflow
    | release => .ok ((a + wordLimit - b) % wordLimit)

def mul (build : Build) (a b : ℕ) : Outcome ε ℕ :=
  if a * b < wordLimit then .ok (a * b)
  else match build with
    | dev => .panic .mulOverflow
    | release => .ok ((a * b) % wordLimit)

/-- Subtraction of `u32` words. -/
def sub32 (build : Build) (a b : ℕ) : Outcome ε ℕ :=
  if b ≤ a then .ok (a - b)
  else match build with
    | dev => .panic .subOverflow
    | release => .ok ((a + 2 ^ 32 - b) % 2 ^ 32)

/-- Division does not depend on the profile. -/
def div (a b : ℕ) : Outcome ε ℕ :=
  if b = 0 then .panic .divideByZero else .ok (a / b)

def rem (a b : ℕ) : Outcome ε ℕ :=
  if b = 0 then .panic .divideByZero else .ok (a % b)

/-- `a.div_ceil(b)` -/
def divCeil (a b : ℕ) : Outcome ε ℕ :=
  if b = 0 then .panic .divideByZero else .ok ((a + (b - 1)) / b)

variable {build : Build} {a b : ℕ}

theorem divCeil_of_pos (h : 0 < b) :
    (divCeil a b : Outcome ε ℕ) = .ok ((a + (b - 1)) / b) := by
  simp [divCeil, h.ne']

theorem div_of_pos (h : 0 < b) : (div a b : Outcome ε ℕ) = .ok (a / b) := by
  simp [div, h.ne']

theorem rem_of_pos (h : 0 < b) : (rem a b : Outcome ε ℕ) = .ok (a % b) := by
  simp [rem, h.ne']

theorem add_of_lt (h : a + b < wordLimit) :
    (build.add a b : Outcome ε ℕ) = .ok (a + b) := by
  simp [add, h]

theorem sub_of_le (h : b ≤ a) :
    (build.sub a b : Outcome ε ℕ) = .ok (a - b) := by
  simp [sub, h]

theorem sub32_of_le (h : b ≤ a) :
    (build.sub32 a b : Outcome ε ℕ) = .ok (a - b) := by
  simp [sub32, h]

theorem mul_of_lt (h : a * b < wordLimit) :
    (build.mul a b : Outcome ε ℕ) = .ok (a * b) := by
  simp [mul, h]

theorem mul_lt {c : ℕ} (h : (build.mul a b : Outcome ε ℕ) = .ok c) :
    c < wordLimit := by
  unfold mul at h
  split_ifs at h with hlt
  · obtain rfl : a * b = c := by simpa using h
    exact hlt
  · cases build with
    | dev => simp at h
    | release =>
        obtain rfl : a * b % wordLimit = c := by simpa using h
        exact Nat.mod_lt _ (by rw [wordLimit_eq]; omega)

/-- What an overflow does in a build: a panic in the `dev` profile only. -/
def Overflows (build : Build) (fault : Fault) : Prop :=
  build = dev ∧ (fault = .addOverflow ∨ fault = .mulOverflow)

theorem add_settles (build : Build) (a b : ℕ) :
    (build.add a b : Outcome ε ℕ).Settles build.Overflows := by
  by_cases h : a + b < wordLimit
  · rw [add_of_lt h]
    trivial
  · cases build with
    | dev => simp [add, h, Outcome.Settles, Overflows]
    | release => simp [add, h]

theorem mul_settles (build : Build) (a b : ℕ) :
    (build.mul a b : Outcome ε ℕ).Settles build.Overflows := by
  by_cases h : a * b < wordLimit
  · rw [mul_of_lt h]
    trivial
  · cases build with
    | dev => simp [mul, h, Outcome.Settles, Overflows]
    | release => simp [mul, h]

theorem dev_add (h : ¬ a + b < wordLimit) :
    (dev.add a b : Outcome ε ℕ) = .panic .addOverflow := by
  simp [add, h]

theorem release_add (h : ¬ a + b < wordLimit) :
    (release.add a b : Outcome ε ℕ) = .ok ((a + b) % wordLimit) := by
  simp [add, h]

theorem release_add_mod (a b : ℕ) :
    (release.add a b : Outcome ε ℕ) = .ok ((a + b) % wordLimit) := by
  by_cases h : a + b < wordLimit
  · rw [add_of_lt h, Nat.mod_eq_of_lt h]
  · exact release_add h

/-- What an addition returns in either profile. -/
theorem add_eq_ok {c : ℕ} (h : (build.add a b : Outcome ε ℕ) = .ok c) :
    c = (a + b) % wordLimit := by
  by_cases hlt : a + b < wordLimit
  · rw [add_of_lt hlt] at h
    rw [Nat.mod_eq_of_lt hlt, Outcome.ok.inj h]
  · cases build with
    | dev => simp [dev_add hlt] at h
    | release =>
        rw [release_add hlt] at h
        exact (Outcome.ok.inj h).symm

theorem release_mul (a b : ℕ) :
    (release.mul a b : Outcome ε ℕ) = .ok (a * b % wordLimit) := by
  by_cases h : a * b < wordLimit
  · rw [mul_of_lt h, Nat.mod_eq_of_lt h]
  · simp [mul, h]

theorem release_sub (h : ¬ b ≤ a) :
    (release.sub a b : Outcome ε ℕ) = .ok ((a + wordLimit - b) % wordLimit) := by
  simp [sub, h]

theorem release_sub_ok (a b : ℕ) :
    ∃ c, (release.sub a b : Outcome ε ℕ) = .ok c := by
  by_cases h : b ≤ a
  · exact ⟨_, sub_of_le h⟩
  · exact ⟨_, release_sub h⟩

/-- An addition returns, with the exact sum where that is a word, or it
overflows. -/
theorem mul_eq_ok_iff {c : ℕ} :
    (build.mul a b : Outcome ε ℕ) = .ok c ↔
      (build = .dev → a * b < wordLimit) ∧ c = a * b % wordLimit := by
  by_cases hlt : a * b < wordLimit
  · rw [mul_of_lt hlt, Nat.mod_eq_of_lt hlt]
    simp [hlt, eq_comm]
  · cases build with
    | dev => simp [mul, hlt]
    | release => simp [mul, hlt, eq_comm]

theorem add_cases (build : Build) (a b : ℕ) :
    (∃ v, (build.add a b : Outcome ε ℕ) = .ok v ∧
      (a + b < wordLimit → v = a + b)) ∨
    ((build.add a b : Outcome ε ℕ) = .panic .addOverflow ∧
      ¬ a + b < wordLimit) := by
  by_cases h : a + b < wordLimit
  · exact Or.inl ⟨a + b, add_of_lt h, fun _ => rfl⟩
  · cases build with
    | dev => exact Or.inr ⟨by simp [add, h], h⟩
    | release =>
        exact Or.inl ⟨(a + b) % wordLimit, by simp [add, h], fun h' => absurd h' h⟩

theorem mul_cases (build : Build) (a b : ℕ) :
    (∃ v, (build.mul a b : Outcome ε ℕ) = .ok v ∧
      (a * b < wordLimit → v = a * b)) ∨
    ((build.mul a b : Outcome ε ℕ) = .panic .mulOverflow ∧
      ¬ a * b < wordLimit) := by
  by_cases h : a * b < wordLimit
  · exact Or.inl ⟨a * b, mul_of_lt h, fun _ => rfl⟩
  · cases build with
    | dev => exact Or.inr ⟨by simp [mul, h], h⟩
    | release =>
        exact Or.inl ⟨(a * b) % wordLimit, by simp [mul, h], fun h' => absurd h' h⟩

end Build

namespace Slice

universe u v

variable {ε : Type v} {α : Type u}

/-- The `len` elements from `off` on, as many as there are. -/
def window (xs : List α) (off len : ℕ) : List α := (xs.drop off).take len

/-- `&xs[beg..end]` -/
def range (xs : List α) (beg end_ : ℕ) : Outcome ε (List α) :=
  if beg ≤ end_ ∧ end_ ≤ xs.length then .ok (window xs beg (end_ - beg))
  else .panic .outOfBounds

/-- `xs[i]` -/
def index (xs : List α) (i : ℕ) : Outcome ε α :=
  match xs[i]? with
  | some a => .ok a
  | none => .panic .outOfBounds

/-- `dst.copy_from_slice(src)`: the new content of `dst`. -/
def copyFrom (dst src : List α) : Outcome ε (List α) :=
  if dst.length = src.length then .ok src else .panic .lengthMismatch

/-- `xs.split_at_mut(mid)` -/
def splitAt (xs : List α) (mid : ℕ) : Outcome ε (List α × List α) :=
  if mid ≤ xs.length then .ok (xs.take mid, xs.drop mid)
  else .panic .outOfBounds

/-- `keys.binary_search(&key)` on a sorted list: the index of the key, or the
index where it would be inserted. -/
def binarySearch (keys : List ℕ) (key : ℕ) : Except ℕ ℕ :=
  let i := (keys.takeWhile (· < key)).length
  if keys[i]? = some key then .ok i else .error i

variable {xs : List α} {beg end_ i mid off len : ℕ}

/-! ## Windows -/

theorem length_window (xs : List α) (off len : ℕ) :
    (window xs off len).length = min len (xs.length - off) := by
  simp [window]

theorem length_window_of_le (h : off + len ≤ xs.length) :
    (window xs off len).length = len := by
  rw [length_window]
  omega

@[simp] theorem window_zero (xs : List α) (off : ℕ) : window xs off 0 = [] := by
  simp [window]

theorem getElem?_window (h : i < len) :
    (window xs off len)[i]? = xs[off + i]? := by
  simp [window, h]

theorem window_append (xs : List α) (off a b : ℕ) :
    window xs off a ++ window xs (off + a) b = window xs off (a + b) := by
  rw [window, window, window, List.take_add, List.drop_drop]

theorem window_window {a b : ℕ} (h : a + b ≤ len) :
    window (window xs off len) a b = window xs (off + a) b := by
  unfold window
  rw [List.drop_take, List.take_take, List.drop_drop]
  congr 1
  omega

/-! ## Checked access -/

theorem range_of_le (hbeg : beg ≤ end_) (hend : end_ ≤ xs.length) :
    (range xs beg end_ : Outcome ε (List α)) =
      .ok (window xs beg (end_ - beg)) := by
  simp [range, hbeg, hend]

theorem range_of_not (h : ¬ (beg ≤ end_ ∧ end_ ≤ xs.length)) :
    (range xs beg end_ : Outcome ε (List α)) = .panic .outOfBounds := by
  simp only [range, if_neg h]

theorem index_of_getElem? {a : α} (h : xs[i]? = some a) :
    (index xs i : Outcome ε α) = .ok a := by
  simp [index, h]

theorem index_eq_ok {a : α} :
    (index xs i : Outcome ε α) = .ok a ↔ xs[i]? = some a := by
  unfold index
  cases xs[i]? <;> simp

theorem copyFrom_of_length {dst src : List α} (h : dst.length = src.length) :
    (copyFrom dst src : Outcome ε (List α)) = .ok src := by
  simp [copyFrom, h]

theorem splitAt_of_le (h : mid ≤ xs.length) :
    (splitAt xs mid : Outcome ε (List α × List α)) =
      .ok (xs.take mid, xs.drop mid) := by
  simp [splitAt, h]

/-! ## Searching -/

/-- A search for a key at or above the first one finds the last key at or
below it. -/
theorem binarySearch_cases {keys : List ℕ} {key first : ℕ}
    (hsorted : keys.Pairwise (· < ·)) (hfirst : keys[0]? = some first)
    (hle : first ≤ key) :
    ∃ i k, (binarySearch keys key = .ok i ∨
        binarySearch keys key = .error (i + 1)) ∧
      keys[i]? = some k ∧ k ≤ key ∧
      ∀ k', keys[i + 1]? = some k' → key < k' := by
  unfold binarySearch
  set below := keys.takeWhile (· < key) with hbelow
  have hsplit : below ++ keys.dropWhile (· < key) = keys :=
    List.takeWhile_append_dropWhile
  have hafter : keys[below.length]? = (keys.dropWhile (· < key)).head? := by
    rw [← hsplit, List.getElem?_append_right le_rfl, hsplit, Nat.sub_self,
      List.head?_eq_getElem?]
  have hbound : ∀ k, keys[below.length]? = some k → key ≤ k := by
    intro k hk
    rw [hafter] at hk
    have := List.head?_dropWhile_not (fun x => decide (x < key)) keys
    rw [hk] at this
    simpa using this
  have hlow : ∀ i k, i < below.length → keys[i]? = some k → k < key := by
    intro i k hi hk
    rw [← hsplit, List.getElem?_append_left hi] at hk
    simpa using List.mem_takeWhile_imp (List.mem_of_getElem? hk)
  by_cases hfound : keys[below.length]? = some key
  · refine ⟨below.length, key, Or.inl (if_pos hfound), hfound, le_rfl, ?_⟩
    intro k' hk'
    obtain ⟨hlt, heq⟩ := List.getElem?_eq_some_iff.mp hfound
    obtain ⟨hlt', heq'⟩ := List.getElem?_eq_some_iff.mp hk'
    have := List.pairwise_iff_getElem.mp hsorted _ _ hlt hlt' (by omega)
    omega
  · cases hlen : below.length with
    | zero =>
        rw [hlen] at hbound hfound
        have := hbound first hfirst
        rw [hfirst] at hfound
        exact absurd (congrArg some (by omega)) hfound
    | succ i =>
        have hi : i < keys.length := by
          rw [← hsplit, List.length_append]
          omega
        refine ⟨i, keys[i], Or.inr ?_, List.getElem?_eq_getElem hi,
          (hlow i _ (by omega) (List.getElem?_eq_getElem hi)).le, ?_⟩
        · rw [← hlen]
          exact if_neg hfound
        · intro k' hk'
          rw [← hlen] at hk'
          have hge := hbound k' hk'
          rcases Nat.lt_or_eq_of_le hge with hlt | rfl
          · exact hlt
          · exact absurd hk' hfound

end Slice

end ImageReader
