import ImageReader.Pool

/-!
# Sequential programs which ask a concurrent service

A program asks one question after another and goes on with the answers.  It can
be run against a function, which is how it is reasoned about, and inside a
thread, where each question is a call of a service that others use as well.

As long as it asks no question twice, it cannot tell the two apart: what it
ends with in the thread it would have ended with against a function, all of
whose answers are as the service may give them.
-/

namespace ImageReader

inductive Asking (κ α ρ : Type) where
  | done (result : ρ)
  | ask (question : κ) (next : α → Asking κ α ρ)

namespace Asking

variable {κ α ρ σ : Type}

/-- The result against a function. -/
def answered (answer : κ → α) : Asking κ α ρ → ρ
  | done result => result
  | ask question next => (next (answer question)).answered answer

/-- The program as a thread, which calls the service. -/
def serve (service : κ → Thread σ α) : Asking κ α ρ → Thread σ ρ
  | done result => .done result
  | ask question next =>
      (service question).bind fun a => (next a).serve service

/-- Given answers which fit, the program asks proper questions only, none of
them twice and none of those that have been asked. -/
def AsksOnce (proper : κ → Prop) (fits : κ → α → Prop) :
    Asking κ α ρ → Set κ → Prop
  | done _, _ => True
  | ask question next, asked =>
      proper question ∧ question ∉ asked ∧
        ∀ a, fits question a →
          (next a).AsksOnce proper fits (insert question asked)

def map {ρ' : Type} (f : ρ → ρ') : Asking κ α ρ → Asking κ α ρ'
  | done result => .done (f result)
  | ask question next => .ask question fun a => (next a).map f

/-- Go on with a value, or end as it did. -/
def goOn {ε β : Type} (x : Outcome ε β) (f : β → Asking κ α (Outcome ε ρ)) :
    Asking κ α (Outcome ε ρ) :=
  match x with
  | .ok b => f b
  | .error e => .done (.error e)
  | .panic fault => .done (.panic fault)
  | .hang => .done .hang

theorem answered_map {ρ' : Type} (answer : κ → α) (f : ρ → ρ')
    (p : Asking κ α ρ) : (p.map f).answered answer = f (p.answered answer) := by
  induction p with
  | done result => rfl
  | ask question next ih => exact ih (answer question)

theorem answered_goOn {ε β : Type} (answer : κ → α) (x : Outcome ε β)
    (f : β → Asking κ α (Outcome ε ρ)) :
    (goOn x f).answered answer = x >>= fun b => (f b).answered answer := by
  cases x <;> rfl

section AsksOnce

variable {proper : κ → Prop} {fits : κ → α → Prop} {asked : Set κ}

theorem AsksOnce.map {ρ' : Type} {f : ρ → ρ'} {p : Asking κ α ρ}
    (h : p.AsksOnce proper fits asked) :
    (p.map f).AsksOnce proper fits asked := by
  induction p generalizing asked with
  | done result => trivial
  | ask question next ih =>
      obtain ⟨hproper, hfresh, hnext⟩ := h
      exact ⟨hproper, hfresh, fun a ha => ih a (hnext a ha)⟩

theorem asksOnce_goOn {ε β : Type} {x : Outcome ε β}
    {f : β → Asking κ α (Outcome ε ρ)}
    (h : ∀ b, x = .ok b → (f b).AsksOnce proper fits asked) :
    (goOn x f).AsksOnce proper fits asked := by
  cases x with
  | ok b => exact h b rfl
  | error e => trivial
  | panic fault => trivial
  | hang => trivial

/-- Only the answers to the proper questions count. -/
theorem AsksOnce.answered_congr {p : Asking κ α ρ} {answer answer' : κ → α}
    (h : p.AsksOnce proper fits asked)
    (hfits : ∀ question, proper question → fits question (answer question))
    (hagree : ∀ question, proper question →
      answer question = answer' question) :
    p.answered answer = p.answered answer' := by
  induction p generalizing asked with
  | done result => rfl
  | ask question next ih =>
      obtain ⟨hproper, -, hnext⟩ := h
      unfold answered
      rw [← hagree question hproper]
      exact ih _ (hnext _ (hfits question hproper))

end AsksOnce

theorem serve_live {service : κ → Thread σ α}
    (hservice : ∀ question, (service question).Live) (p : Asking κ α ρ) :
    (p.serve service).Live := by
  induction p with
  | done result => trivial
  | ask question next ih => exact (hservice question).bind ih

section Contract

variable {C : Contract σ} {service : κ → Thread σ α} {proper : κ → Prop}
  {fits : κ → α → Prop} {Answers : κ → α → σ → Prop} {s : σ}

/-- The questions of `asked` have got the answers that `known` has for them. -/
theorem serve_upholds_known (p : Asking κ α ρ) {asked : Set κ}
    {known : κ → α} (hs : C.Inv s)
    (hservice : ∀ question s, proper question → C.Inv s →
      (service question).Upholds C s (Answers question))
    (hlater : ∀ question a s s', C.Later s s' → Answers question a s →
      Answers question a s')
    (hfits : ∀ question a s, proper question → Answers question a s →
      fits question a)
    (hknown : ∀ question, Answers question (known question) s)
    (honce : p.AsksOnce proper fits asked) :
    (p.serve service).Upholds C s fun result s' =>
      ∃ answer : κ → α, (∀ question, Answers question (answer question) s') ∧
        (∀ question ∈ asked, answer question = known question) ∧
        p.answered answer = result := by
  classical
  induction p generalizing s asked known with
  | done result =>
      intro s' hs'
      exact ⟨known, fun question => hlater _ _ _ _ hs' (hknown question),
        fun _ _ => rfl, rfl⟩
  | ask question next ih =>
      obtain ⟨hproper, hfresh, hnext⟩ := honce
      refine (hservice question s hproper hs).bind hs ?_
      intro a s₁ hs₁ ha
      have hknown' : ∀ other,
          Answers other (Function.update known question a other) s₁ := by
        intro other
        by_cases hother : other = question
        · subst hother
          rwa [Function.update_self]
        · rw [Function.update_of_ne hother]
          exact hlater _ _ _ _ hs₁ (hknown other)
      refine (ih a hs₁.inv hknown' (hnext a (hfits _ _ _ hproper ha))).mono ?_
      rintro result s₂ _ ⟨answer, hanswer, hagree, hresult⟩
      refine ⟨answer, hanswer, ?_, ?_⟩
      · intro other hother
        have hne : other ≠ question := fun h => hfresh (h ▸ hother)
        rw [hagree other (Set.mem_insert_of_mem _ hother),
          Function.update_of_ne hne]
      · have hself : answer question = a := by
          rw [hagree question (Set.mem_insert _ _), Function.update_self]
        unfold answered
        rw [hself]
        exact hresult

/-- What the program ends with in the thread it ends with against a function
whose answers are the ones of the service. -/
theorem serve_upholds (p : Asking κ α ρ) (hs : C.Inv s)
    (hservice : ∀ question s, proper question → C.Inv s →
      (service question).Upholds C s (Answers question))
    (hlater : ∀ question a s s', C.Later s s' → Answers question a s →
      Answers question a s')
    (hfits : ∀ question a s, proper question → Answers question a s →
      fits question a)
    (hsome : ∀ question, ∃ a, Answers question a s)
    (honce : p.AsksOnce proper fits ∅) :
    (p.serve service).Upholds C s fun result s' =>
      ∃ answer : κ → α, (∀ question, Answers question (answer question) s') ∧
        p.answered answer = result := by
  choose known hknown using hsome
  refine (serve_upholds_known p hs hservice hlater hfits hknown honce).mono ?_
  rintro result s' _ ⟨answer, hanswer, -, hresult⟩
  exact ⟨answer, hanswer, hresult⟩

end Contract

end Asking
end ImageReader
