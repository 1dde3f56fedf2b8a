import ImageReader.VmdkSpans

/-!
# Sequences of span updates

The span maps of an image are built by sequences of calls.  A sequence of
insertions gives every sector the value of the first call that holds it.

A sequence of removals is exact as long as no call meets a `Seam`: two
touching intervals of the set, the left one of which is cut by the first half
of an iteration.  The loop then looks for the next interval strictly behind
the place where the left one ended, and the right one stays.
-/

namespace ImageReader
namespace Vmdk

open OrdMap

variable {ε α : Type}

/-! ## Insertions -/

/-- `insert_span` for one call after the other; a call is
`(sbeg, send, val)`. -/
def insertSpans [DecidableEq α] :
    List (ℕ × ℕ × α) → SpanMap α → Outcome Empty (SpanMap α)
  | [], map => .ok map
  | (sbeg, send, val) :: calls, map => do
      let map ← insertSpan sbeg send val map
      insertSpans calls map

/-- The value of the first call which holds the sector. -/
def firstValue (calls : List (ℕ × ℕ × α)) (s : ℕ) : Option α :=
  (calls.find? fun call => call.1 ≤ s ∧ s < call.2.1).map fun call => call.2.2

@[simp] theorem firstValue_nil (s : ℕ) :
    firstValue ([] : List (ℕ × ℕ × α)) s = none := rfl

theorem firstValue_cons_of_mem {sbeg send s : ℕ} (val : α)
    (calls : List (ℕ × ℕ × α)) (hin : sbeg ≤ s ∧ s < send) :
    firstValue ((sbeg, send, val) :: calls) s = some val := by
  simp [firstValue, hin]

theorem firstValue_cons_of_not_mem {sbeg send s : ℕ} (val : α)
    (calls : List (ℕ × ℕ × α)) (hout : ¬ (sbeg ≤ s ∧ s < send)) :
    firstValue ((sbeg, send, val) :: calls) s = firstValue calls s := by
  unfold firstValue
  rw [List.find?_cons_of_neg (by simpa using hout)]

/-- The calls color what the map leaves open, each sector by the first of
them. -/
theorem insertSpans_spec [DecidableEq α] (calls : List (ℕ × ℕ × α))
    {m : SpanMap α} (hm : m.Disjoint)
    (hordered : ∀ call ∈ calls, call.1 ≤ call.2.1) :
    ∃ m', (insertSpans calls m : Outcome Empty (SpanMap α)) = .ok m' ∧
      m'.Disjoint ∧
      ∀ s c, m'.Covers s c ↔
        m.Covers s c ∨
          firstValue calls s = some c ∧ ∀ c', ¬ m.Covers s c' := by
  induction calls generalizing m with
  | nil =>
      refine ⟨m, rfl, hm, ?_⟩
      intro s c
      simp
  | cons call calls ih =>
      obtain ⟨sbeg, send, val⟩ := call
      have hle : sbeg ≤ send := hordered (sbeg, send, val) (by simp)
      obtain ⟨m₁, hinsert, hpainted⟩ :=
        insertSpan_spec (ε := Empty) val hm hle
      obtain ⟨m', hrest, hdisjoint, hcovers⟩ :=
        ih hpainted.disjoint
          (fun call hcall => hordered call (List.mem_cons_of_mem _ hcall))
      have hrun : (insertSpans ((sbeg, send, val) :: calls) m :
          Outcome Empty (SpanMap α)) = .ok m' := by
        simp [insertSpans, hinsert, hrest]
      refine ⟨m', hrun, hdisjoint, ?_⟩
      intro s c
      rw [hcovers]
      simp only [hpainted.covers_iff, Paints]
      by_cases hin : sbeg ≤ s ∧ s < send
      · rw [firstValue_cons_of_mem val calls hin]
        constructor
        · rintro ((hold | ⟨rfl, _, _, hnone⟩) | ⟨_, hnone⟩)
          · exact Or.inl hold
          · exact Or.inr ⟨rfl, hnone⟩
          · -- the call has left no sector of its interval open
            by_cases hopen : ∀ c', ¬ m.Covers s c'
            · exact absurd (Or.inr ⟨rfl, hin.1, hin.2, hopen⟩) (hnone val)
            · push Not at hopen
              obtain ⟨c', hc'⟩ := hopen
              exact absurd (Or.inl hc') (hnone c')
        · rintro (hold | ⟨heq, hnone⟩)
          · exact Or.inl (Or.inl hold)
          · obtain rfl : val = c := by simpa using heq
            exact Or.inl (Or.inr ⟨rfl, hin.1, hin.2, hnone⟩)
      · rw [firstValue_cons_of_not_mem val calls hin]
        have hskip : ∀ c', (m.Covers s c' ∨ c' = val ∧ sbeg ≤ s ∧ s < send ∧
            ∀ c'', ¬ m.Covers s c'') ↔ m.Covers s c' := by
          intro c'
          constructor
          · rintro (hold | ⟨_, hs, hs', _⟩)
            · exact hold
            · exact absurd ⟨hs, hs'⟩ hin
          · exact Or.inl
        simp only [hskip]

/-- First writer wins, after each of the calls. -/
theorem insertSpans_first_writer [DecidableEq α] (calls : List (ℕ × ℕ × α))
    (hordered : ∀ call ∈ calls, call.1 ≤ call.2.1) (i : ℕ) :
    ∃ m, (insertSpans (calls.take i) empty : Outcome Empty (SpanMap α)) = .ok m ∧
      (∀ k b, (k, b) ∈ m → k ≤ b.1 ∧
        ∀ k' b', (k', b') ∈ m → k < k' → b.1 ≤ k') ∧
      ∀ s c, m.Covers s c ↔ firstValue (calls.take i) s = some c := by
  obtain ⟨m, hrun, hdisjoint, hcovers⟩ :=
    insertSpans_spec (calls.take i) disjoint_empty
      (fun call hcall => hordered call (List.mem_of_mem_take hcall))
  refine ⟨m, hrun, hdisjoint, ?_⟩
  intro s c
  rw [hcovers]
  simp

theorem insertSpans_first_writer_overlapping :
    ∃ m, (insertSpans ([(2, 5, 'a'), (0, 8, 'b')].take 2) empty :
        Outcome Empty (SpanMap Char)) = .ok m ∧
      (∀ k b, (k, b) ∈ m → k ≤ b.1 ∧
        ∀ k' b', (k', b') ∈ m → k < k' → b.1 ≤ k') ∧
      ∀ s c, m.Covers s c ↔
        firstValue ([(2, 5, 'a'), (0, 8, 'b')].take 2) s = some c :=
  insertSpans_first_writer [(2, 5, 'a'), (0, 8, 'b')] (by decide) 2

/-! ## Removals -/

/-- `remove_span` for one call after the other; a call is `(sbeg, send)`. -/
def removeSpans : List (ℕ × ℕ) → SectorSet → Outcome Empty SectorSet
  | [], map => .ok map
  | (sbeg, send) :: calls, map => do
      let map ← removeSpan sbeg send map
      removeSpans calls map

/-- The right one of two touching intervals, `[e, e')`, is stepped over: the
left one is cut, either because it holds `sbeg` or because the loop resumes at
its start. -/
def Seam (m : SectorSet) (sbeg send : ℕ) : Prop :=
  ∃ k e e', (k, e) ∈ m ∧ (e, e') ∈ m ∧ k < e ∧ e < e' ∧
    sbeg < e ∧ e < send ∧ (k ≤ sbeg ∨ ∃ j, j < k ∧ (j, k) ∈ m)

/-- No call of the sequence meets a seam of the set it is made on. -/
def SeamFree : List (ℕ × ℕ) → SectorSet → Prop
  | [], _ => True
  | (sbeg, send) :: calls, m =>
      ¬ Seam m sbeg send ∧
        ∀ m', (removeSpan sbeg send m : Outcome Empty SectorSet) = .ok m' →
          SeamFree calls m'

/-- The interval at `lbeg` cut off at `sbeg`. -/
def cutAt (m : SectorSet) (lbeg sbeg : ℕ) : SectorSet :=
  if lbeg < sbeg then m.insert lbeg sbeg else m.erase lbeg

/-- The second half of an iteration. -/
def removeNext (send : ℕ) (sbeg : ℕ) (m : SectorSet) :
    Step (ℕ × SectorSet) SectorSet :=
  match m.firstGT sbeg with
  | some (ubeg, uend) =>
      if ubeg ≤ send then
        if send < uend then .done ((m.erase ubeg).insert send uend)
        else .next (uend, m.erase ubeg)
      else .done m
  | none => .done m

/-- No interval of the set starts at or below `sbeg` and ends above it. -/
def Outside (m : SectorSet) (sbeg : ℕ) : Prop :=
  ∀ k e, (k, e) ∈ m → k ≤ sbeg → e ≤ sbeg

section Removal

variable {m m' : SectorSet} {sbeg send lbeg lend : ℕ}

theorem mem_cutAt {k e : ℕ} :
    (k, e) ∈ cutAt m lbeg sbeg ↔
      (k = lbeg ∧ e = sbeg ∧ lbeg < sbeg) ∨ k ≠ lbeg ∧ (k, e) ∈ m :=
  mem_cut rfl

theorem removeSpanBody_inside (hm : m.Disjoint) (hlbeg : (lbeg, lend) ∈ m)
    (hle : lbeg ≤ sbeg) (hlt : sbeg < lend) :
    removeSpanBody send (sbeg, m) =
      if send < lend then .done ((cutAt m lbeg sbeg).insert send lend)
      else if send = lend then .done (cutAt m lbeg sbeg)
      else removeNext send lend (cutAt m lbeg sbeg) := by
  have hlast : m.lastLE sbeg = some (lbeg, lend) := by
    apply lastLE_eq_some_iff.mpr
    refine ⟨hlbeg, hle, ?_⟩
    intro k e hentry hk
    by_contra hgt
    have := (hm lbeg lend hlbeg).2 k e hentry (by omega)
    simp only [stop_nat] at this
    omega
  have hcut : (if lbeg < sbeg then m.insert lbeg sbeg else m.erase lbeg) =
      cutAt m lbeg sbeg := rfl
  unfold removeSpanBody
  simp only [hlast, if_pos hlt, hcut]
  split_ifs <;> rfl

theorem removeSpanBody_outside (hout : Outside m sbeg) :
    removeSpanBody send (sbeg, m) = removeNext send sbeg m := by
  unfold removeSpanBody
  simp only
  cases hcase : m.lastLE sbeg with
  | none => rfl
  | some entry =>
      obtain ⟨lbeg, lend⟩ := entry
      obtain ⟨hlbeg, hle, -⟩ := lastLE_eq_some_iff.mp hcase
      have hlend : ¬ sbeg < lend := not_lt.mpr (hout lbeg lend hlbeg hle)
      simp only [if_neg hlend]
      rfl

/-- A sector is either inside one interval of the set or outside all. -/
theorem inside_or_outside (m : SectorSet) (sbeg : ℕ) :
    (∃ lbeg lend, (lbeg, lend) ∈ m ∧ lbeg ≤ sbeg ∧ sbeg < lend) ∨
      Outside m sbeg := by
  by_cases hout : Outside m sbeg
  · exact Or.inr hout
  · left
    unfold Outside at hout
    push Not at hout
    obtain ⟨k, e, hentry, hle, hlt⟩ := hout
    exact ⟨k, e, hentry, hle, hlt⟩

/-- What the second half does, from a place which no interval reaches over. -/
theorem removeNext_cases (m : SectorSet) (sbeg send : ℕ) :
    (removeNext send sbeg m = .done m ∧
        ∀ k e, (k, e) ∈ m → sbeg < k → send < k) ∨
      ∃ ubeg uend, (ubeg, uend) ∈ m ∧ sbeg < ubeg ∧ ubeg ≤ send ∧
        (∀ k e, (k, e) ∈ m → sbeg < k → ubeg ≤ k) ∧
        removeNext send sbeg m =
          if send < uend then .done ((m.erase ubeg).insert send uend)
          else .next (uend, m.erase ubeg) := by
  unfold removeNext
  cases hcase : m.firstGT sbeg with
  | none =>
      refine Or.inl ⟨rfl, ?_⟩
      intro k e hentry hgt
      have := firstGT_eq_none_iff.mp hcase k e hentry
      omega
  | some entry =>
      obtain ⟨ubeg, uend⟩ := entry
      obtain ⟨hubeg, hgt, hfirst⟩ := firstGT_eq_some_iff.mp hcase
      by_cases hle : ubeg ≤ send
      · exact Or.inr ⟨ubeg, uend, hubeg, hgt, hle, hfirst, by simp only [if_pos hle]⟩
      · refine Or.inl ⟨by simp only [if_neg hle], ?_⟩
        intro k e hentry hk
        have := hfirst k e hentry hk
        omega

/-! ## A removal without a seam -/

/-- The set has no sector in `[sbeg, send)`. -/
def Clear (m : SectorSet) (sbeg send : ℕ) : Prop :=
  ∀ s, sbeg ≤ s → s < send → ¬ m.Covers s ()

theorem clear_of_entries
    (h : ∀ k e, (k, e) ∈ m → k < send → e ≤ max sbeg k) :
    Clear m sbeg send := by
  rintro s hs hsend ⟨k, e, hentry, hk, he, _⟩
  have := h k e hentry (by omega)
  simp only [stop_nat] at he
  omega

theorem Clear.mono (h : Clear m sbeg send)
    (hsubset : ∀ s, m'.Covers s () → m.Covers s ()) : Clear m' sbeg send :=
  fun s hs hsend hcovers => h s hs hsend (hsubset s hcovers)

theorem Clear.append {mid : ℕ} (h : Clear m sbeg mid) (h' : Clear m mid send) :
    Clear m sbeg send := by
  intro s hs hsend
  rcases Nat.lt_or_ge s mid with hlow | hhigh
  · exact h s hs hlow
  · exact h' s hhigh hsend

/-- What one iteration does for the rest: it clears its part of the interval,
and meets no seam later. -/
def ClearStep (sbeg send : ℕ) : Step (ℕ × SectorSet) SectorSet → Prop
  | .next (sbeg', m') => Clear m' sbeg sbeg' ∧ ¬ Seam m' sbeg' send
  | .done m' => Clear m' sbeg send

theorem Clear.upTo {mid : ℕ} (h : Clear m sbeg send) (hle : mid ≤ send) :
    Clear m sbeg mid :=
  fun s hs hmid => h s hs (by omega)

/-- An interval which starts at `send` does not matter. -/
theorem Clear.insert (h : Clear m sbeg send) (e : ℕ) :
    Clear (m.insert send e) sbeg send := by
  rintro s hs hsend ⟨k, e', hentry, hk, he, hc⟩
  rcases mem_insert.mp hentry with ⟨rfl, _⟩ | ⟨_, hentry⟩
  · omega
  · exact h s hs hsend ⟨k, e', hentry, hk, he, hc⟩

theorem clear_of_outside (hout : Outside m sbeg)
    (hbehind : ∀ k e, (k, e) ∈ m → sbeg < k → send ≤ k) :
    Clear m sbeg send := by
  apply clear_of_entries
  intro k e hentry hk
  by_cases hks : k ≤ sbeg
  · have := hout k e hentry hks
    omega
  · have := hbehind k e hentry (by omega)
    omega

theorem Outside.erase (hout : Outside m sbeg) (k : ℕ) :
    Outside (m.erase k) sbeg :=
  fun k' e hentry => hout k' e (mem_erase.mp hentry).2

section Next

variable {ubeg uend : ℕ} (hm : m.Disjoint) (hout : Outside m sbeg)
  (hubeg : (ubeg, uend) ∈ m)
  (hfirst : ∀ k e, (k, e) ∈ m → sbeg < k → ubeg ≤ k)

include hm hubeg hfirst

/-- Without the next interval everything else starts behind its end. -/
theorem behind_erase_next {k e : ℕ} (hentry : (k, e) ∈ m.erase ubeg)
    (hk : sbeg < k) : uend ≤ k := by
  obtain ⟨hne, hentry⟩ := mem_erase.mp hentry
  have hge : ubeg ≤ k := hfirst k e hentry hk
  have := (hm ubeg uend hubeg).2 k e hentry (by omega)
  simpa using this

include hout

theorem clear_erase_next : Clear (m.erase ubeg) sbeg uend :=
  clear_of_outside (hout.erase ubeg) fun _ _ hentry hk =>
    behind_erase_next hm hubeg hfirst hentry hk

/-- A seam behind the next interval is one of the whole set. -/
theorem seam_of_erase_next (hgt : sbeg < ubeg)
    (h : Seam (m.erase ubeg) uend send) : Seam m sbeg send := by
  have hmid : ubeg ≤ uend := (hm ubeg uend hubeg).1
  obtain ⟨k, e, e', hk, he, hke, hee, hue, hes, hreach⟩ := h
  have hks : sbeg < k := by
    by_contra hlow
    have := (hout.erase ubeg) k e hk (by omega)
    omega
  have huk : uend ≤ k := behind_erase_next hm hubeg hfirst hk hks
  obtain ⟨hkne, hk⟩ := mem_erase.mp hk
  have hsucc : ∃ j, j < k ∧ (j, k) ∈ m := by
    rcases hreach with hlow | ⟨j, hjk, hj⟩
    · -- the interval just taken out ends where this one starts
      obtain rfl : k = uend := by omega
      have hne : ubeg ≠ k := fun heq => hkne heq.symm
      exact ⟨ubeg, by omega, hubeg⟩
    · exact ⟨j, hjk, (mem_erase.mp hj).2⟩
  exact ⟨k, e, e', hk, (mem_erase.mp he).2, hke, hee, by omega, hes,
    Or.inr hsucc⟩

end Next

theorem removeNext_clear (hm : m.Disjoint) (hout : Outside m sbeg)
    (hseam : ¬ Seam m sbeg send) :
    ClearStep sbeg send (removeNext send sbeg m) := by
  rcases removeNext_cases m sbeg send with ⟨hdone, hnone⟩ |
    ⟨ubeg, uend, hubeg, hgt, hle, hfirst, hnext⟩
  · rw [hdone]
    exact clear_of_outside hout fun k e hentry hk => (hnone k e hentry hk).le
  · have hclear := clear_erase_next hm hout hubeg hfirst
    rw [hnext]
    by_cases hsend : send < uend
    · rw [if_pos hsend]
      exact (hclear.upTo hsend.le).insert uend
    · rw [if_neg hsend]
      exact ⟨hclear,
        fun hlater => hseam (seam_of_erase_next hm hout hubeg hfirst hgt hlater)⟩

theorem outside_cutAt (hm : m.Disjoint) (hlbeg : (lbeg, lend) ∈ m)
    (hlt : sbeg < lend)
    (htouch : ∀ e, (lend, e) ∈ m → e ≤ lend) :
    Outside (cutAt m lbeg sbeg) lend := by
  intro k e hentry hk
  rcases mem_cutAt.mp hentry with ⟨rfl, rfl, _⟩ | ⟨hne, hentry⟩
  · omega
  · rcases Nat.lt_or_gt_of_ne hne with hlow | hhigh
    · have h₁ := (hm k e hentry).2 lbeg lend hlbeg hlow
      have h₂ := (hm lbeg lend hlbeg).1
      simp only [stop_nat] at h₁ h₂
      omega
    · have := (hm lbeg lend hlbeg).2 k e hentry hhigh
      simp only [stop_nat] at this
      obtain rfl : k = lend := by omega
      exact htouch e hentry

theorem clear_cutAt (hm : m.Disjoint) (hlbeg : (lbeg, lend) ∈ m)
    (hlow : lbeg ≤ sbeg) :
    Clear (cutAt m lbeg sbeg) sbeg lend := by
  apply clear_of_entries
  intro k e hentry hk
  rcases mem_cutAt.mp hentry with ⟨rfl, rfl, _⟩ | ⟨hne, hentry⟩
  · omega
  · rcases Nat.lt_or_gt_of_ne hne with hk' | hk'
    · have := (hm k e hentry).2 lbeg lend hlbeg hk'
      simp only [stop_nat] at this
      omega
    · have := (hm lbeg lend hlbeg).2 k e hentry hk'
      simp only [stop_nat] at this
      omega

/-- A seam behind the interval which was cut is one of the whole set. -/
theorem seam_of_cutAt (hout : Outside (cutAt m lbeg sbeg) lend)
    (hlt : sbeg < lend) (h : Seam (cutAt m lbeg sbeg) lend send) :
    Seam m sbeg send := by
  obtain ⟨k, e, e', hk, he, hke, hee, hlast, hes, hreach⟩ := h
  have hkl : lend < k := by
    by_contra hlow'
    have := hout k e hk (by omega)
    omega
  have hback : ∀ {a b : ℕ}, (a, b) ∈ cutAt m lbeg sbeg → lend < b →
      (a, b) ∈ m := by
    intro a b hab hb
    rcases mem_cutAt.mp hab with ⟨_, rfl, _⟩ | ⟨_, hab⟩
    · omega
    · exact hab
  rcases hreach with hlow' | ⟨j, hjk, hj⟩
  · omega
  · exact ⟨k, e, e', hback hk hlast, hback he (by omega), hke, hee, by omega,
      hes, Or.inr ⟨j, hjk, hback hj hkl⟩⟩

/-- The second half goes on with what the first has cleared. -/
theorem ClearStep.behind (hm : m.Disjoint) (hclear : Clear m sbeg lend)
    (h : ClearStep lend send (removeNext send lend m)) :
    ClearStep sbeg send (removeNext send lend m) := by
  have hkept : RemoveStep m lend send (removeNext send lend m) :=
    removeNext_spec hm
  cases hstep : removeNext send lend m with
  | next state =>
      rw [hstep] at h hkept
      obtain ⟨_, _, hrest⟩ := hkept
      exact ⟨(hclear.mono hrest.subset).append h.1, h.2⟩
  | done m' =>
      rw [hstep] at h hkept
      exact (hclear.mono hkept.subset).append h

theorem removeSpanBody_clear (hm : m.Disjoint) (hseam : ¬ Seam m sbeg send) :
    ClearStep sbeg send (removeSpanBody send (sbeg, m)) := by
  rcases inside_or_outside m sbeg with ⟨lbeg, lend, hlbeg, hlow, hlt⟩ | hout
  · rw [removeSpanBody_inside hm hlbeg hlow hlt]
    have hclear : Clear (cutAt m lbeg sbeg) sbeg lend :=
      clear_cutAt hm hlbeg hlow
    by_cases hsend : send < lend
    · rw [if_pos hsend]
      exact (hclear.upTo hsend.le).insert lend
    · rw [if_neg hsend]
      by_cases heq : send = lend
      · rw [if_pos heq, heq]
        exact hclear
      · rw [if_neg heq]
        have htouch : ∀ e, (lend, e) ∈ m → e ≤ lend := by
          intro e hentry
          by_contra hgt
          exact hseam ⟨lbeg, lend, e, hlbeg, hentry, by omega, by omega, hlt,
            by omega, Or.inl hlow⟩
        have hout : Outside (cutAt m lbeg sbeg) lend :=
          outside_cutAt hm hlbeg hlt htouch
        have hremoved : Removed m sbeg send (cutAt m lbeg sbeg) :=
          removed_of_cut hm hlbeg hlow hlt.le (by omega) rfl
        exact ClearStep.behind hremoved.disjoint hclear
          (removeNext_clear hremoved.disjoint hout
            fun hlater => hseam (seam_of_cutAt hout hlt hlater))
  · rw [removeSpanBody_outside hout]
    exact removeNext_clear hm hout hseam

/-- Without a seam the interval is removed and nothing else. -/
theorem removeSpan_exact (hm : m.Disjoint) (hle : sbeg ≤ send)
    (hseam : ¬ Seam m sbeg send) :
    ∃ m', (removeSpan sbeg send m : Outcome ε SectorSet) = .ok m' ∧
      Removed m sbeg send m' ∧ Clear m' sbeg send := by
  unfold removeSpan
  apply loop_rule
    (fun state : ℕ × SectorSet => sbeg ≤ state.1 ∧ state.1 ≤ send ∧
      Removed m sbeg send state.2 ∧ Clear state.2 sbeg state.1 ∧
        ¬ Seam state.2 state.1 send)
    (fun state => send - state.1)
    (fun outcome : Outcome ε SectorSet =>
      ∃ m', outcome = .ok m' ∧ Removed m sbeg send m' ∧ Clear m' sbeg send)
  · rintro ⟨beg, cur⟩ ⟨hbeg, hbeg', hremoved, hclear, hfree⟩
    have hstep := removeSpanBody_spec hremoved.disjoint hbeg'
    have hcleared := removeSpanBody_clear hremoved.disjoint hfree
    cases hbody : removeSpanBody send (beg, cur) with
    | next state =>
        rw [hbody] at hstep hcleared
        obtain ⟨hgt, hle', hremoved'⟩ := hstep
        obtain ⟨hclear', hfree'⟩ := hcleared
        have hpast : Clear state.2 sbeg state.1 :=
          (hclear.mono hremoved'.subset).append hclear'
        refine ⟨⟨by omega, hle', hremoved.trans hremoved' hbeg, hpast, hfree'⟩, ?_⟩
        simp only
        omega
    | done m' =>
        rw [hbody] at hstep hcleared
        have hpast : Clear m' sbeg send :=
          (hclear.mono hstep.subset).append hcleared
        exact ⟨m', rfl, hremoved.trans hstep hbeg, hpast⟩
  · refine ⟨le_rfl, hle, Removed.refl hm sbeg send, ?_, hseam⟩
    intro s hs hs'
    omega
  · simp only
    omega

/-! ## A removal across a seam -/

/-- Some sector of `[sbeg, send)` is still there. -/
def Leaves (m : SectorSet) (sbeg send : ℕ) : Prop :=
  ∃ s, sbeg ≤ s ∧ s < send ∧ m.Covers s ()

theorem leaves_of_mem {k e : ℕ} (hentry : (k, e) ∈ m) (hlt : k < e)
    (hle : sbeg ≤ k) (hsend : k < send) : Leaves m sbeg send :=
  ⟨k, hle, hsend, k, e, hentry, le_rfl, hlt, rfl⟩

/-- An iteration which has a seam in front of it leaves a sector behind, or
passes the seam on. -/
def SeamStep (sbeg send : ℕ) : Step (ℕ × SectorSet) SectorSet → Prop
  | .next (sbeg', m') => Leaves m' sbeg sbeg' ∨ Seam m' sbeg' send
  | .done m' => Leaves m' sbeg send

/-- The interval which starts where the second half begins stays. -/
theorem removeNext_leaves {e : ℕ} (hentry : (sbeg, e) ∈ m) (hlt : sbeg < e)
    (hm : m.Disjoint) (hsend : sbeg < send) :
    SeamStep sbeg send (removeNext send sbeg m) := by
  rcases removeNext_cases m sbeg send with ⟨hdone, _⟩ |
    ⟨ubeg, uend, hubeg, hgt, hle, _, hnext⟩
  · rw [hdone]
    exact leaves_of_mem hentry hlt le_rfl hsend
  · have hmid : ubeg ≤ uend := (hm ubeg uend hubeg).1
    have hstays : (sbeg, e) ∈ m.erase ubeg := mem_erase.mpr ⟨by omega, hentry⟩
    rw [hnext]
    by_cases hlast : send < uend
    · rw [if_pos hlast]
      have hstays' : (sbeg, e) ∈ (m.erase ubeg).insert send uend :=
        mem_insert.mpr (Or.inr ⟨by omega, hstays⟩)
      exact leaves_of_mem hstays' hlt le_rfl hsend
    · rw [if_neg hlast]
      exact Or.inl (leaves_of_mem hstays hlt le_rfl (by omega))

/-- Two intervals that touch behind the place where the second half begins,
with a third one at the right end of the second. -/
theorem removeNext_passes {j k e e' : ℕ} (hm : m.Disjoint)
    (hj : (j, k) ∈ m) (hk : (k, e) ∈ m) (he : (e, e') ∈ m) (hsj : sbeg < j)
    (hjk : j < k) (hke : k < e) (hee : e < e') (hes : e < send) :
    SeamStep sbeg send (removeNext send sbeg m) := by
  rcases removeNext_cases m sbeg send with ⟨_, hnone⟩ |
    ⟨ubeg, uend, hubeg, _, _, hfirst, hnext⟩
  · have := hnone j k hj hsj
    omega
  · have hle : ubeg ≤ j := hfirst j k hj hsj
    have huend : uend ≤ k := by
      rcases Nat.lt_or_eq_of_le hle with hlow | rfl
      · have := (hm ubeg uend hubeg).2 j k hj hlow
        simp only [stop_nat] at this
        omega
      · exact (value_unique hubeg hj).le
    rw [hnext, if_neg (by omega)]
    have hk' : (k, e) ∈ m.erase ubeg := mem_erase.mpr ⟨by omega, hk⟩
    have he' : (e, e') ∈ m.erase ubeg := mem_erase.mpr ⟨by omega, he⟩
    have hreach : k ≤ uend ∨ ∃ i, i < k ∧ (i, k) ∈ m.erase ubeg := by
      rcases Nat.lt_or_eq_of_le hle with hlow | rfl
      · exact Or.inr ⟨j, hjk, mem_erase.mpr ⟨by omega, hj⟩⟩
      · exact Or.inl (value_unique hubeg hj).ge
    exact Or.inr ⟨k, e, e', hk', he', hke, hee, by omega, hes, hreach⟩

/-- A seam at the interval which holds `sbeg`. -/
theorem removeSpanBody_seam_here {k e e' : ℕ} (hm : m.Disjoint)
    (hk : (k, e) ∈ m) (he : (e, e') ∈ m) (hks : k ≤ sbeg) (hse : sbeg < e)
    (hee : e < e') (hes : e < send) :
    SeamStep sbeg send (removeSpanBody send (sbeg, m)) := by
  rw [removeSpanBody_inside hm hk hks hse, if_neg (by omega), if_neg (by omega)]
  have hremoved : Removed m sbeg send (cutAt m k sbeg) :=
    removed_of_cut hm hk hks hse.le hes.le rfl
  have hstays : (e, e') ∈ cutAt m k sbeg :=
    mem_cutAt.mpr (Or.inr ⟨by omega, he⟩)
  have hstep := removeNext_leaves hstays hee hremoved.disjoint hes
  cases hnext : removeNext send e (cutAt m k sbeg) with
  | next state =>
      rw [hnext] at hstep
      rcases hstep with ⟨s, hs, hs', hcovers⟩ | hseam
      · exact Or.inl ⟨s, by omega, hs', hcovers⟩
      · exact Or.inr hseam
  | done m' =>
      rw [hnext] at hstep
      obtain ⟨s, hs, hs', hcovers⟩ := hstep
      exact ⟨s, by omega, hs', hcovers⟩

theorem removeSpanBody_seam (hm : m.Disjoint) (hseam : Seam m sbeg send) :
    SeamStep sbeg send (removeSpanBody send (sbeg, m)) := by
  obtain ⟨k, e, e', hk, he, hke, hee, hse, hes, hreach⟩ := hseam
  by_cases hks : k ≤ sbeg
  · exact removeSpanBody_seam_here hm hk he hks hse hee hes
  · obtain ⟨j, hjk, hj⟩ := hreach.resolve_left hks
    by_cases hjs : j ≤ sbeg
    · exact removeSpanBody_seam_here hm hj hk hjs (by omega) hke (by omega)
    · rcases inside_or_outside m sbeg with ⟨lbeg, lend, hlbeg, hlow, hlt⟩ | hout
      · have hlend : lend ≤ j := by
          have := (hm lbeg lend hlbeg).2 j k hj (by omega)
          simpa using this
        rcases Nat.lt_or_eq_of_le hlend with hgap | rfl
        · rw [removeSpanBody_inside hm hlbeg hlow hlt, if_neg (by omega),
            if_neg (by omega)]
          have hremoved : Removed m sbeg send (cutAt m lbeg sbeg) :=
            removed_of_cut hm hlbeg hlow hlt.le (by omega) rfl
          have hstays : ∀ {a b : ℕ}, (a, b) ∈ m → lbeg < a →
              (a, b) ∈ cutAt m lbeg sbeg :=
            fun hab ha => mem_cutAt.mpr (Or.inr ⟨by omega, hab⟩)
          have hstep := removeNext_passes hremoved.disjoint
            (hstays hj (by omega)) (hstays hk (by omega)) (hstays he (by omega))
            hgap hjk hke hee hes
          cases hnext : removeNext send lend (cutAt m lbeg sbeg) with
          | next state =>
              rw [hnext] at hstep
              rcases hstep with ⟨s, hs, hs', hcovers⟩ | hseam
              · exact Or.inl ⟨s, by omega, hs', hcovers⟩
              · exact Or.inr hseam
          | done m' =>
              rw [hnext] at hstep
              obtain ⟨s, hs, hs', hcovers⟩ := hstep
              exact ⟨s, by omega, hs', hcovers⟩
        · exact removeSpanBody_seam_here hm hlbeg hj hlow hlt hjk (by omega)
      · rw [removeSpanBody_outside hout]
        exact removeNext_passes hm hj hk he (by omega) hjk hke hee hes

/-- Across a seam a sector of the interval stays in the set. -/
theorem removeSpan_leaves (hm : m.Disjoint) (hseam : Seam m sbeg send) :
    ∃ m', (removeSpan sbeg send m : Outcome ε SectorSet) = .ok m' ∧
      Leaves m' sbeg send := by
  have hle : sbeg ≤ send := by
    obtain ⟨k, e, e', _, _, _, _, hse, hes, _⟩ := hseam
    omega
  unfold removeSpan
  apply loop_rule
    (fun state : ℕ × SectorSet => sbeg ≤ state.1 ∧ state.1 ≤ send ∧
      Removed m sbeg send state.2 ∧
        (Leaves state.2 sbeg state.1 ∨ Seam state.2 state.1 send))
    (fun state => send - state.1)
    (fun outcome : Outcome ε SectorSet =>
      ∃ m', outcome = .ok m' ∧ Leaves m' sbeg send)
  · rintro ⟨beg, cur⟩ ⟨hbeg, hbeg', hremoved, howed⟩
    have hstep := removeSpanBody_spec hremoved.disjoint hbeg'
    have hleaves : SeamStep beg send (removeSpanBody send (beg, cur)) ∨
        Leaves cur sbeg beg :=
      howed.symm.imp (removeSpanBody_seam hremoved.disjoint) id
    cases hbody : removeSpanBody send (beg, cur) with
    | next state =>
        rw [hbody] at hstep hleaves
        obtain ⟨hgt, hle', hremoved'⟩ := hstep
        refine ⟨⟨by omega, hle', hremoved.trans hremoved' hbeg, ?_⟩, ?_⟩
        · rcases hleaves with (⟨s, hs, hs', hcovers⟩ | hseam') |
            ⟨s, hs, hs', hcovers⟩
          · exact Or.inl ⟨s, by omega, hs', hcovers⟩
          · exact Or.inr hseam'
          · -- what has been left behind is out of reach of the iteration
            have hcovers' := hremoved'.kept s hcovers (by omega)
            exact Or.inl ⟨s, hs, by omega, hcovers'⟩
        · simp only
          omega
    | done m' =>
        rw [hbody] at hstep hleaves
        refine ⟨m', rfl, ?_⟩
        rcases hleaves with ⟨s, hs, hs', hcovers⟩ | ⟨s, hs, hs', hcovers⟩
        · exact ⟨s, by omega, hs', hcovers⟩
        · have hcovers' := hstep.kept s hcovers (by omega)
          exact ⟨s, hs, by omega, hcovers'⟩
  · exact ⟨le_rfl, hle, Removed.refl hm sbeg send, Or.inr hseam⟩
  · simp only
    omega

/-- A removal is exact if and only if it meets no seam. -/
theorem removeSpan_exact_iff (hm : m.Disjoint) (hle : sbeg ≤ send) :
    (∃ m', (removeSpan sbeg send m : Outcome ε SectorSet) = .ok m' ∧
        ∀ s, m'.Covers s () ↔ m.Covers s () ∧ ¬ (sbeg ≤ s ∧ s < send)) ↔
      ¬ Seam m sbeg send := by
  constructor
  · rintro ⟨m', hrun, hcovers⟩ hseam
    obtain ⟨m'', hrun', s, hs, hs', hleft⟩ := removeSpan_leaves (ε := ε) hm hseam
    obtain rfl : m' = m'' := by simpa [hrun] using hrun'
    exact ((hcovers s).mp hleft).2 ⟨hs, hs'⟩
  · intro hseam
    obtain ⟨m', hrun, hremoved, hclear⟩ := removeSpan_exact (ε := ε) hm hle hseam
    refine ⟨m', hrun, ?_⟩
    intro s
    constructor
    · intro hcovers
      exact ⟨hremoved.subset s hcovers, fun hin => hclear s hin.1 hin.2 hcovers⟩
    · rintro ⟨hcovers, hout⟩
      exact hremoved.kept s hcovers hout

end Removal

/-! ## Sequences of removals -/

theorem removeSpans_spec (calls : List (ℕ × ℕ)) {m : SectorSet}
    (hm : m.Disjoint) (hordered : ∀ call ∈ calls, call.1 ≤ call.2) :
    ∃ m', removeSpans calls m = .ok m' ∧ m'.Disjoint ∧
      (SeamFree calls m → ∀ s, m'.Covers s () ↔
        m.Covers s () ∧ ∀ call ∈ calls, ¬ (call.1 ≤ s ∧ s < call.2)) := by
  induction calls generalizing m with
  | nil =>
      refine ⟨m, rfl, hm, ?_⟩
      simp
  | cons call calls ih =>
      obtain ⟨sbeg, send⟩ := call
      have hle : sbeg ≤ send := hordered (sbeg, send) (by simp)
      obtain ⟨m₁, hremove, hremoved⟩ := removeSpan_spec (ε := Empty) hm hle
      obtain ⟨m', hrest, hdisjoint, hcovers⟩ :=
        ih hremoved.disjoint
          (fun call hcall => hordered call (List.mem_cons_of_mem _ hcall))
      have hrun : removeSpans ((sbeg, send) :: calls) m = .ok m' := by
        simp [removeSpans, hremove, hrest]
      refine ⟨m', hrun, hdisjoint, ?_⟩
      rintro ⟨hseam, hfree⟩ s
      obtain ⟨m₂, hremove₂, hexact⟩ :=
        (removeSpan_exact_iff (ε := Empty) hm hle).mpr hseam
      obtain rfl : m₂ = m₁ := by simpa [hremove₂] using hremove
      rw [hcovers (hfree m₂ hremove₂), hexact, List.forall_mem_cons, and_assoc]

theorem SeamFree.take {calls : List (ℕ × ℕ)} {m : SectorSet}
    (hfree : SeamFree calls m) (i : ℕ) : SeamFree (calls.take i) m := by
  induction calls generalizing m i with
  | nil => simpa using hfree
  | cons call calls ih =>
      cases i with
      | zero => trivial
      | succ i =>
          obtain ⟨hseam, hrest⟩ := hfree
          exact ⟨hseam, fun m' hremove => ih (hrest m' hremove) i⟩

/-- After each call of a sequence which meets no seam the set is the image
without the intervals removed so far; it has no sector left when these cover
the image. -/
theorem removeSpans_exact (n : ℕ) (calls : List (ℕ × ℕ))
    (hordered : ∀ call ∈ calls, call.1 ≤ call.2)
    (hfree : SeamFree calls (single 0 n)) (i : ℕ) :
    ∃ m, removeSpans (calls.take i) (single 0 n) = .ok m ∧
      m.Disjoint ∧
      (∀ s, m.Covers s () ↔
        s < n ∧ ∀ call ∈ calls.take i, ¬ (call.1 ≤ s ∧ s < call.2)) ∧
      ((∀ s, ¬ m.Covers s ()) ↔
        ∀ s < n, ∃ call ∈ calls.take i, call.1 ≤ s ∧ s < call.2) := by
  have hm : (single 0 n : SectorSet).Disjoint := by
    rintro k e hentry
    obtain ⟨rfl, rfl⟩ := mem_single.mp hentry
    refine ⟨Nat.zero_le _, ?_⟩
    rintro k' e' hentry' hlt
    obtain ⟨rfl, -⟩ := mem_single.mp hentry'
    omega
  have hstart : ∀ s, (single 0 n : SectorSet).Covers s () ↔ s < n := by
    intro s
    simp [Covers]
  obtain ⟨m, hrun, hdisjoint, hspec⟩ :=
    removeSpans_spec (calls.take i) hm
      (fun call hcall => hordered call (List.mem_of_mem_take hcall))
  have hcovers : ∀ s, m.Covers s () ↔
      s < n ∧ ∀ call ∈ calls.take i, ¬ (call.1 ≤ s ∧ s < call.2) := by
    intro s
    rw [hspec (hfree.take i), hstart]
  refine ⟨m, hrun, hdisjoint, hcovers, ?_⟩
  simp only [hcovers]
  constructor
  · intro hfinished s hs
    have := hfinished s
    push Not at this
    exact this hs
  · rintro hall s ⟨hs, hnone⟩
    obtain ⟨call, hcall, hin⟩ := hall s hs
    exact hnone call hcall hin

theorem removeSpans_exact_halves :
    ∃ m, removeSpans ([(0, 5), (5, 10)].take 2) (single 0 10) = .ok m ∧
      m.Disjoint ∧
      (∀ s, m.Covers s () ↔
        s < 10 ∧ ∀ call ∈ [(0, 5), (5, 10)].take 2,
          ¬ (call.1 ≤ s ∧ s < call.2)) ∧
      ((∀ s, ¬ m.Covers s ()) ↔
        ∀ s < 10, ∃ call ∈ [(0, 5), (5, 10)].take 2,
          call.1 ≤ s ∧ s < call.2) := by
  apply removeSpans_exact 10 [(0, 5), (5, 10)] (by decide)
  have hfirst : removeSpan 0 5 (single 0 10) =
      (.ok (single 5 10) : Outcome Empty SectorSet) := rfl
  have hseam : ∀ k e sbeg send, ¬ Seam (single k e) sbeg send := by
    rintro k e sbeg send ⟨k', e', e'', hk, he, hlt, _⟩
    obtain ⟨rfl, rfl⟩ := mem_single.mp hk
    obtain ⟨rfl, -⟩ := mem_single.mp he
    omega
  refine ⟨hseam 0 10 0 5, ?_⟩
  intro m' hremove
  obtain rfl : m' = single 5 10 := by simpa [hfirst] using hremove.symm
  exact ⟨hseam 5 10 5 10, fun _ _ => trivial⟩

/-- An empty removal splits the set at a place where a later one stops. -/
theorem removeSpans_touching :
    ¬ ∀ n calls, (∀ call ∈ calls, call.1 ≤ call.2) →
      ∀ m, removeSpans calls (single 0 n) = .ok m →
        ∀ s, m.Covers s () ↔
          s < n ∧ ∀ call ∈ calls, ¬ (call.1 ≤ s ∧ s < call.2) := by
  intro hexact
  have hrun : removeSpans [(5, 5), (0, 10)] (single 0 10) =
      .ok (single 5 10) := rfl
  have hcovers : (single 5 10 : SectorSet).Covers 7 () := by
    simp [Covers]
  have hremoved :=
    ((hexact 10 [(5, 5), (0, 10)] (by decide) _ hrun 7).mp hcovers).2
  exact hremoved (0, 10) (by decide) (by decide)

end Vmdk
end ImageReader
