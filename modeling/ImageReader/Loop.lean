import ImageReader.Outcome

/-!
# Loops

A `loop { .. }` is its body, iterated: one iteration either hands the next
state to the following iteration or leaves the loop with a result.  `fuel`
bounds the iterations of an analysis run, and a run which uses it up hangs.

`loop_rule` asks for an invariant, for a measure which every completed
iteration lowers, and for a postcondition of every way to leave the loop.
`loop_ok_rule` speaks of the runs that return, and needs no measure.
-/

namespace ImageReader

universe u v

variable {ε : Type v} {σ ρ : Type u}

/-- How one iteration ends: `continue` with a state, or `break` with a
result. -/
inductive Step (σ ρ : Type u) where
  | next (state : σ)
  | done (result : ρ)
  deriving DecidableEq, Repr

def loop (body : σ → Outcome ε (Step σ ρ)) : ℕ → σ → Outcome ε ρ
  | 0, _ => .hang
  | fuel + 1, state =>
      match body state with
      | .ok (.next state') => loop body fuel state'
      | .ok (.done result) => .ok result
      | .error e => .error e
      | .panic fault => .panic fault
      | .hang => .hang

/-- What one iteration owes the rest of the loop: a next state inside the
invariant with a measure under `bound`, or the postcondition. -/
def Iterates (Inv : σ → Prop) (measure : σ → ℕ)
    (Post : Outcome ε ρ → Prop) (bound : ℕ) :
    Outcome ε (Step σ ρ) → Prop
  | .ok (.next state) => Inv state ∧ measure state < bound
  | .ok (.done result) => Post (.ok result)
  | .error e => Post (.error e)
  | .panic fault => Post (.panic fault)
  | .hang => Post .hang

/-- The states a loop passes through. -/
inductive Reaches (body : σ → Outcome ε (Step σ ρ)) (start : σ) : σ → Prop
  | start : Reaches body start start
  | next {state state' : σ} (hreach : Reaches body start state)
      (hbody : body state = .ok (.next state')) : Reaches body start state'

section Rules

variable {body : σ → Outcome ε (Step σ ρ)} {state state' : σ} {fuel : ℕ}

theorem loop_next (h : body state = .ok (.next state')) :
    loop body (fuel + 1) state = loop body fuel state' := by
  simp [loop, h]

theorem loop_done {result : ρ} (h : body state = .ok (.done result)) :
    loop body (fuel + 1) state = .ok result := by
  simp [loop, h]

theorem loop_error {e : ε} (h : body state = .error e) :
    loop body (fuel + 1) state = .error e := by
  simp [loop, h]

theorem loop_succ_eq_ok {result : ρ} :
    loop body (fuel + 1) state = .ok result ↔
      body state = .ok (.done result) ∨
        ∃ state', body state = .ok (.next state') ∧
          loop body fuel state' = .ok result := by
  cases hcase : body state with
  | ok step =>
      cases step with
      | next state' =>
          rw [loop_next hcase]
          simp
      | done result' =>
          rw [loop_done hcase]
          simp
  | error e =>
      rw [loop_error hcase]
      simp
  | panic fault => simp [loop, hcase]
  | hang => simp [loop, hcase]

/-- A loop whose iterations lower a measure does not depend on its fuel, once
there is enough of it. -/
theorem loop_fuel (measure : σ → ℕ)
    (hbody : ∀ state state', body state = .ok (.next state') →
      measure state' < measure state)
    {fuel' : ℕ} (hfuel : measure state < fuel) (hfuel' : measure state < fuel') :
    loop body fuel state = loop body fuel' state := by
  induction fuel generalizing state fuel' with
  | zero => omega
  | succ fuel ih =>
      obtain ⟨fuel', rfl⟩ : ∃ k, fuel' = k + 1 :=
        Nat.exists_eq_succ_of_ne_zero (by omega)
      unfold loop
      cases hcase : body state with
      | ok step =>
          cases step with
          | next state' =>
              have hlt := hbody state state' hcase
              exact ih (by omega) (by omega)
          | done result => rfl
      | error e => rfl
      | panic fault => rfl
      | hang => rfl

/-- Total correctness of a loop. -/
theorem loop_rule (Inv : σ → Prop) (measure : σ → ℕ)
    (Post : Outcome ε ρ → Prop)
    (hbody : ∀ state, Inv state →
      Iterates Inv measure Post (measure state) (body state))
    (hinv : Inv state) (hfuel : measure state < fuel) :
    Post (loop body fuel state) := by
  induction fuel generalizing state with
  | zero => omega
  | succ fuel ih =>
      have hiter := hbody state hinv
      unfold loop
      cases hcase : body state with
      | ok step =>
          rw [hcase] at hiter
          cases step with
          | next state' =>
              obtain ⟨hinv', hlt⟩ := hiter
              exact ih hinv' (by omega)
          | done result => exact hiter
      | error e => simpa [hcase, Iterates] using hiter
      | panic fault => simpa [hcase, Iterates] using hiter
      | hang => simpa [hcase, Iterates] using hiter

/-- An invariant of every completed iteration holds in every state the loop
passes through. -/
theorem Reaches.invariant {Inv : σ → Prop}
    (hnext : ∀ state state', Inv state → body state = .ok (.next state') →
      Inv state')
    (hinv : Inv state) (hreach : Reaches body state state') : Inv state' := by
  induction hreach with
  | start => exact hinv
  | next _ hbody ih => exact hnext _ _ ih hbody

/-- Partial correctness: an invariant of every completed iteration holds when
the loop returns. -/
theorem loop_ok_rule (Inv : σ → Prop) (Post : ρ → Prop) {result : ρ}
    (hnext : ∀ state state', Inv state → body state = .ok (.next state') →
      Inv state')
    (hdone : ∀ state result, Inv state → body state = .ok (.done result) →
      Post result)
    (hinv : Inv state) (hloop : loop body fuel state = .ok result) :
    Post result := by
  induction fuel generalizing state with
  | zero => simp [loop] at hloop
  | succ fuel ih =>
      cases hcase : body state with
      | ok step =>
          cases step with
          | next state' =>
              rw [loop_next hcase] at hloop
              exact ih (hnext state state' hinv hcase) hloop
          | done result' =>
              rw [loop_done hcase] at hloop
              obtain rfl : result' = result := by simpa using hloop
              exact hdone state result' hinv hcase
      | error e => simp [loop, hcase] at hloop
      | panic fault => simp [loop, hcase] at hloop
      | hang => simp [loop, hcase] at hloop

theorem AgreesUnless.loop {P : ε → Prop}
    {body' : σ → Outcome ε (Step σ ρ)}
    (hbody : ∀ state, Outcome.AgreesUnless P (body state) (body' state))
    (fuel : ℕ) (state : σ) :
    Outcome.AgreesUnless P (loop body fuel state) (loop body' fuel state) := by
  induction fuel generalizing state with
  | zero => exact .refl _
  | succ fuel ih =>
      rcases hbody state with heq | ⟨e, herror, he⟩
      · unfold ImageReader.loop
        rw [heq]
        cases body' state with
        | ok step =>
            cases step with
            | next state' => exact ih state'
            | done result => exact .refl _
        | error e => exact .refl _
        | panic fault => exact .refl _
        | hang => exact .refl _
      · exact Or.inr ⟨e, loop_error herror, he⟩

end Rules

end ImageReader
