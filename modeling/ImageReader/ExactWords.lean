import ImageReader.ImageSource

/-!
# Numbers which code computes

A position of a file is computed step by step, and every step may leave the
words.  `Build.Carries` follows such a computation: as long as the exact number
is a word it is the result, and beyond the words the result is a panic or the
remainder, by the build profile.  The rules compose it along `do` blocks.
-/

namespace ImageReader

universe v

variable {ε : Type v} {build : Build}

/-- `x` is how a build computes the number `n`. -/
def Build.Carries (build : Build) (x : Outcome ε ℕ) (n : ℕ) : Prop :=
  match build with
  | dev => (n < wordLimit → x = .ok n) ∧
      (wordLimit ≤ n → ∃ fault, x = .panic fault)
  | release => x = .ok (n % wordLimit)

/-- A call fails with an error, or it is the call it should be. -/
def ExactOrFails {α : Type} (x y : Outcome ε α) : Prop :=
  (∃ e, x = .error e) ∨ x = y

theorem exactOrFails_bind_ok_iff {α β : Type} {f : α → β}
    (hf : Function.Injective f) {x : Outcome ε α} {a : α} :
    ExactOrFails (x >>= fun a => .ok (f a)) (.ok (f a)) ↔
      ExactOrFails x (.ok a) := by
  cases x <;> simp [ExactOrFails, hf.eq_iff]

namespace Build.Carries

variable {x y : Outcome ε ℕ} {n m : ℕ}

theorem ok (h : n < wordLimit) : build.Carries (.ok n : Outcome ε ℕ) n := by
  cases build with
  | dev => exact ⟨fun _ => rfl, fun hge => absurd h (by omega)⟩
  | release =>
      show Outcome.ok n = Outcome.ok (n % wordLimit)
      rw [Nat.mod_eq_of_lt h]

theorem ok_of_lt (h : build.Carries x n) (hlt : n < wordLimit) : x = .ok n := by
  cases build with
  | dev => exact h.1 hlt
  | release =>
      have hx : x = .ok (n % wordLimit) := h
      rw [hx, Nat.mod_eq_of_lt hlt]

/-- What a computation has returned goes into another one. -/
theorem of_ok {ε' : Type v} (h : build.Carries x n) {a : ℕ}
    (hx : x = .ok a) : build.Carries (.ok a : Outcome ε' ℕ) n := by
  subst hx
  cases build with
  | dev =>
      constructor
      · intro hlt
        rw [Outcome.ok.inj (h.1 hlt)]
      · intro hge
        obtain ⟨fault, hfault⟩ := h.2 hge
        simp at hfault
  | release =>
      have ha : a = n % wordLimit := Outcome.ok.inj h
      rw [ha]
      rfl

theorem mul (n c : ℕ) :
    build.Carries (build.mul n c : Outcome ε ℕ) (n * c) := by
  cases build with
  | dev =>
      refine ⟨Build.mul_of_lt, ?_⟩
      intro hge
      exact ⟨.mulOverflow, by simp [Build.mul, hge]⟩
  | release => exact release_mul n c

theorem add (hx : build.Carries x n) (hy : build.Carries y m) :
    build.Carries (x >>= fun a => y >>= fun b => build.add a b) (n + m) := by
  cases build with
  | dev =>
      constructor
      · intro hlt
        rw [hx.1 (by omega), Outcome.ok_bind, hy.1 (by omega), Outcome.ok_bind,
          Build.add_of_lt hlt]
      · intro hge
        by_cases hn : n < wordLimit
        · rw [hx.1 hn, Outcome.ok_bind]
          by_cases hm : m < wordLimit
          · rw [hy.1 hm, Outcome.ok_bind]
            exact ⟨.addOverflow, Build.dev_add (by omega)⟩
          · obtain ⟨fault, hfault⟩ := hy.2 (by omega)
            exact ⟨fault, by rw [hfault, Outcome.panic_bind]⟩
        · obtain ⟨fault, hfault⟩ := hx.2 (by omega)
          exact ⟨fault, by rw [hfault, Outcome.panic_bind]⟩
  | release =>
      have hx' : x = .ok (n % wordLimit) := hx
      have hy' : y = .ok (m % wordLimit) := hy
      show (x >>= fun a => y >>= fun b => release.add a b) =
        .ok ((n + m) % wordLimit)
      rw [hx', Outcome.ok_bind, hy', Outcome.ok_bind, release_add_mod,
        ← Nat.add_mod]

theorem eq_exact_iff (h : build.Carries x n) : x = .ok n ↔ n < wordLimit := by
  refine ⟨?_, h.ok_of_lt⟩
  intro hx
  by_contra hge
  cases build with
  | dev =>
      obtain ⟨fault, hfault⟩ := h.2 (by omega)
      rw [hfault] at hx
      simp at hx
  | release =>
      have hx' : x = .ok (n % wordLimit) := h
      rw [hx'] at hx
      have hmod : n % wordLimit < wordLimit :=
        Nat.mod_lt n (by rw [wordLimit_eq]; norm_num)
      have : n % wordLimit = n := Outcome.ok.inj hx
      omega

theorem ne_error (h : build.Carries x n) (e : ε) : x ≠ .error e := by
  intro hx
  cases build with
  | dev =>
      by_cases hn : n < wordLimit
      · have hok := h.1 hn
        simp [hx] at hok
      · obtain ⟨fault, hfault⟩ := h.2 (by omega)
        simp [hx] at hfault
  | release =>
      have hx' : x = .ok (n % wordLimit) := h
      simp [hx] at hx'

theorem exact_iff (h : build.Carries x n) :
    ExactOrFails x (.ok n) ↔ n < wordLimit := by
  rw [← h.eq_exact_iff]
  exact ⟨fun hx => hx.resolve_left fun ⟨e, he⟩ => h.ne_error e he, Or.inr⟩

/-- A pair of computations whose results pass a check behind them. -/
theorem checked_pair_exact_iff (hx : build.Carries x n)
    (hy : build.Carries y m) (accepted : Bool) (e : ε) :
    ExactOrFails (x >>= fun a => y >>= fun b =>
        if accepted then .ok (a, b) else .error e) (.ok (n, m)) ↔
      (n < wordLimit ∧ m < wordLimit) ∨
        build = .release ∧ accepted = false := by
  by_cases hfit : n < wordLimit ∧ m < wordLimit
  · rw [hx.ok_of_lt hfit.1, Outcome.ok_bind, hy.ok_of_lt hfit.2,
      Outcome.ok_bind]
    cases accepted <;> simp [ExactOrFails, hfit]
  · cases build with
    | dev =>
        have hpanic : ∃ fault, (x >>= fun a => y >>= fun b =>
            if accepted then .ok (a, b) else .error e) =
              (.panic fault : Outcome ε (ℕ × ℕ)) := by
          by_cases hn : n < wordLimit
          · obtain ⟨fault, hfault⟩ := hy.2 (by omega)
            exact ⟨fault, by rw [hx.1 hn, Outcome.ok_bind, hfault]; rfl⟩
          · obtain ⟨fault, hfault⟩ := hx.2 (by omega)
            exact ⟨fault, by rw [hfault]; rfl⟩
        obtain ⟨fault, hfault⟩ := hpanic
        rw [hfault]
        simp [ExactOrFails, hfit]
    | release =>
        have hx' : x = .ok (n % wordLimit) := hx
        have hy' : y = .ok (m % wordLimit) := hy
        have hne : ¬ (n % wordLimit = n ∧ m % wordLimit = m) := by
          rw [Nat.mod_eq_iff_lt (by decide), Nat.mod_eq_iff_lt (by decide)]
          exact hfit
        rw [hx', Outcome.ok_bind, hy', Outcome.ok_bind]
        cases accepted <;> simp [ExactOrFails, hfit, hne]

/-- A computation whose result passes a check behind it. -/
theorem checked_exact_iff (h : build.Carries x n) (accepted : Bool) (e : ε) :
    ExactOrFails (x >>= fun a => if accepted then .ok a else .error e)
      (.ok n) ↔ n < wordLimit ∨ build = .release ∧ accepted = false := by
  by_cases hn : n < wordLimit
  · rw [h.ok_of_lt hn, Outcome.ok_bind]
    cases accepted <;> simp [ExactOrFails, hn]
  · cases build with
    | dev =>
        obtain ⟨fault, hx⟩ := h.2 (by omega)
        simp [hx, ExactOrFails, hn]
    | release =>
        have hx : x = .ok (n % wordLimit) := h
        have hne : n % wordLimit ≠ n := by
          rw [ne_eq, Nat.mod_eq_iff_lt (by decide)]
          exact hn
        rw [hx, Outcome.ok_bind]
        cases accepted <;> simp [ExactOrFails, hn, hne]

/-- A computation which goes on at the computed position of a file: with every
file it is the one at the exact position, if and only if that is a word. -/
theorem continued_exact_iff {α : Type} {k : BackingFile → ℕ → Outcome ε α}
    (h : build.Carries x n)
    (hk : ∀ pos < n, ∃ file a e, k file pos = .ok a ∧ k file n = .error e) :
    (∀ file, ExactOrFails (x >>= k file) (k file n)) ↔ n < wordLimit := by
  constructor
  · intro hexact
    by_contra hge
    have hpos : 0 < wordLimit := by
      rw [wordLimit_eq]
      norm_num
    have hmod := Nat.mod_lt n hpos
    obtain ⟨file, a, e, hok, herror⟩ := hk (n % wordLimit) (by omega)
    have hfile := hexact file
    cases build with
    | dev =>
        obtain ⟨fault, hx⟩ := h.2 (by omega)
        simp [ExactOrFails, hx, herror] at hfile
    | release =>
        have hx : x = .ok (n % wordLimit) := h
        simp [ExactOrFails, hx, hok, herror] at hfile
  · intro hlt file
    rw [h.ok_of_lt hlt, Outcome.ok_bind]
    exact Or.inr rfl

end Build.Carries

end ImageReader
