import Mathlib.Tactic

/-!
# Outcomes of a call

A call of the modelled language returns a value, returns an error value,
panics, or never returns.  The four ends are kept apart, so that a safety
statement ("returns, and does not panic") and a functional statement ("returns
this value") are statements about one and the same result.

Panics carry the check that failed.  A loop which runs out of its analysis
fuel ends in `hang`; a proof that a call terminates is a proof that its
outcome is not `hang`.
-/

namespace ImageReader

universe u v

/-- The run-time check behind a panic. -/
inductive Fault where
  | addOverflow
  | subOverflow
  | mulOverflow
  | divideByZero
  | outOfBounds
  | lengthMismatch
  | assertionFailed
  | formatWidth
  | capacityOverflow
  | poisoned
  deriving DecidableEq, Repr

inductive Outcome (ε : Type v) (α : Type u) where
  | ok (value : α)
  | error (err : ε)
  | panic (fault : Fault)
  | hang
  deriving DecidableEq, Repr

namespace Outcome

variable {ε ε' : Type v} {α β γ : Type u}

def bind (x : Outcome ε α) (f : α → Outcome ε β) : Outcome ε β :=
  match x with
  | ok a => f a
  | error e => error e
  | panic fault => panic fault
  | hang => hang

def map (f : α → β) : Outcome ε α → Outcome ε β
  | ok a => ok (f a)
  | error e => error e
  | panic fault => panic fault
  | hang => hang

def mapError (f : ε → ε') : Outcome ε α → Outcome ε' α
  | ok a => ok a
  | error e => error (f e)
  | panic fault => panic fault
  | hang => hang

/-- The value with the fact that it is the one. -/
def attach : (x : Outcome ε α) → Outcome ε { a : α // x = ok a }
  | ok a => ok ⟨a, rfl⟩
  | error e => error e
  | panic fault => panic fault
  | hang => hang

def ofExcept : Except ε α → Outcome ε α
  | .ok a => ok a
  | .error e => error e

def isPanic : Outcome ε α → Bool
  | panic _ => true
  | _ => false

instance : Monad (Outcome ε) where
  pure := ok
  bind := bind

/-- The call came back to its caller, with a value or with an error. -/
def Returns (x : Outcome ε α) : Prop :=
  (∃ a, x = ok a) ∨ ∃ e, x = error e

@[simp] theorem pure_eq (a : α) : (pure a : Outcome ε α) = ok a := rfl

@[simp] theorem ok_bind (a : α) (f : α → Outcome ε β) :
    (ok a >>= f) = f a := rfl

@[simp] theorem error_bind (e : ε) (f : α → Outcome ε β) :
    ((error e : Outcome ε α) >>= f) = error e := rfl

@[simp] theorem panic_bind (fault : Fault) (f : α → Outcome ε β) :
    ((panic fault : Outcome ε α) >>= f) = panic fault := rfl

@[simp] theorem hang_bind (f : α → Outcome ε β) :
    ((hang : Outcome ε α) >>= f) = hang := rfl

theorem bind_assoc (x : Outcome ε α) (f : α → Outcome ε β)
    (g : β → Outcome ε γ) :
    (x >>= f) >>= g = x >>= fun a => f a >>= g := by
  cases x <;> rfl

theorem map_bind (x : Outcome ε α) (f : α → Outcome ε β) (g : β → γ) :
    (x >>= f).map g = x >>= fun a => (f a).map g := by
  cases x <;> rfl

theorem map_eq_ok {f : α → β} {x : Outcome ε α} {b : β} :
    x.map f = ok b ↔ ∃ a, x = ok a ∧ f a = b := by
  cases x <;> simp [map]

theorem bind_eq_ok {x : Outcome ε α} {f : α → Outcome ε β} {b : β} :
    (x >>= f) = ok b ↔ ∃ a, x = ok a ∧ f a = ok b := by
  cases x <;> simp

@[simp] theorem ofExcept_ok (a : α) :
    ofExcept (.ok a : Except ε α) = ok a := rfl

@[simp] theorem ofExcept_error (e : ε) :
    ofExcept (.error e : Except ε α) = error e := rfl

theorem ofExcept_eq_ok {r : Except ε α} {a : α} :
    ofExcept r = ok a ↔ r = .ok a := by
  cases r <;> simp

@[simp] theorem returns_ok (a : α) : (ok a : Outcome ε α).Returns :=
  Or.inl ⟨a, rfl⟩

@[simp] theorem returns_error (e : ε) : (error e : Outcome ε α).Returns :=
  Or.inr ⟨e, rfl⟩

@[simp] theorem not_returns_panic (fault : Fault) :
    ¬ (panic fault : Outcome ε α).Returns := by
  simp [Returns]

@[simp] theorem not_returns_hang : ¬ (hang : Outcome ε α).Returns := by
  simp [Returns]

theorem attach_map_eq_ok {x : Outcome ε α} {f : { a : α // x = ok a } → β}
    {b : β} : x.attach.map f = ok b ↔ ∃ a, ∃ h : x = ok a, f ⟨a, h⟩ = b := by
  cases x with
  | ok a =>
      constructor
      · intro h
        exact ⟨a, rfl, ok.inj h⟩
      · rintro ⟨a', h, rfl⟩
        obtain rfl := ok.inj h
        rfl
  | error e => simp [attach, map]
  | panic fault => simp [attach, map]
  | hang => simp [attach, map]

theorem returns_mapError {f : ε → ε'} {x : Outcome ε α} :
    (x.mapError f).Returns ↔ x.Returns := by
  cases x <;> simp [mapError]

theorem mapError_eq_ok {f : ε → ε'} {x : Outcome ε α} {a : α} :
    x.mapError f = ok a ↔ x = ok a := by
  cases x <;> simp [mapError]

/-- The call comes back, or panics with one of the faults `P`. -/
def Settles (P : Fault → Prop) : Outcome ε α → Prop
  | ok _ => True
  | error _ => True
  | panic fault => P fault
  | hang => False

section Settling

variable {P : Fault → Prop} {x : Outcome ε α}

@[simp] theorem settles_ok (a : α) : (ok a : Outcome ε α).Settles P := trivial

@[simp] theorem settles_error (e : ε) : (error e : Outcome ε α).Settles P :=
  trivial

theorem Settles.bind {f : α → Outcome ε β} (h : x.Settles P)
    (hnext : ∀ a, x = ok a → (f a).Settles P) : (x >>= f).Settles P := by
  cases x with
  | ok a => exact hnext a rfl
  | error e => trivial
  | panic fault => exact h
  | hang => exact h

theorem Settles.mapError (h : x.Settles P) (f : ε → ε') :
    (x.mapError f).Settles P := by
  cases x with
  | ok a => trivial
  | error e => trivial
  | panic fault => exact h
  | hang => exact h

theorem settles_ofExcept (r : Except ε α) : (ofExcept r).Settles P := by
  cases r <;> trivial

end Settling

/-! ## Two runs, one of which may give up -/

/-- `x` ends as `y` does, unless it ends in an error of the kind `P`. -/
def AgreesUnless (P : ε → Prop) (x y : Outcome ε α) : Prop :=
  x = y ∨ ∃ e, x = error e ∧ P e

variable {P : ε → Prop}

theorem AgreesUnless.refl (x : Outcome ε α) : AgreesUnless P x x := Or.inl rfl

theorem AgreesUnless.bind {x y : Outcome ε α} {f g : α → Outcome ε β}
    (h : AgreesUnless P x y) (hnext : ∀ a, AgreesUnless P (f a) (g a)) :
    AgreesUnless P (x >>= f) (y >>= g) := by
  rcases h with rfl | ⟨e, rfl, he⟩
  · cases x with
    | ok a => exact hnext a
    | error e => exact .refl _
    | panic fault => exact .refl _
    | hang => exact .refl _
  · exact Or.inr ⟨e, rfl, he⟩

theorem AgreesUnless.mapError {x y : Outcome ε α} {f : ε → ε'}
    {Q : ε' → Prop} (h : AgreesUnless P x y) (hkind : ∀ e, P e → Q (f e)) :
    AgreesUnless Q (x.mapError f) (y.mapError f) := by
  rcases h with rfl | ⟨e, rfl, he⟩
  · exact .refl _
  · exact Or.inr ⟨f e, rfl, hkind e he⟩

end Outcome

/-! ## Plain results -/

theorem except_bind_eq_ok {ε α β : Type} {x : Except ε α}
    {f : α → Except ε β} {b : β} :
    (x >>= f) = .ok b ↔ ∃ a, x = .ok a ∧ f a = .ok b := by
  cases x with
  | ok a => simp [bind, Except.bind]
  | error e => simp [bind, Except.bind]

theorem exists_of_map_eq_ok {ε α β : Type} {f : α → β} {x : Except ε α} {b : β}
    (h : x.map f = .ok b) : ∃ a, x = .ok a ∧ f a = b := by
  cases x with
  | ok a => exact ⟨a, rfl, Except.ok.inj h⟩
  | error e => simp [Except.map] at h

end ImageReader
