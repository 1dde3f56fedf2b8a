import ImageReader.IntervalMap
import ImageReader.Loop

/-!
# The span maps of a VMDK image

`insertSpan` and `removeSpan` are the two loops which build the map from
sectors to extents.  The first one paints an interval over the sectors that
have no colour yet; the second one takes an interval out of the set of sectors
that are still uncovered.

One iteration of `insertSpan` either skips the part that is covered at its
left end or fills the gap in front of the next span.  `Paints` is the coloring
the remaining iterations still have to produce, and every iteration leaves it
unchanged.
-/

namespace ImageReader
namespace Vmdk

open OrdMap

variable {ε α : Type}

/-- `BTreeMap<u64, (u64, T)>`: the end and the value of each span, under its
start. -/
abbrev SpanMap (α : Type) := OrdMap ℕ (ℕ × α)

/-- `BTreeMap<u64, u64>`: the end of each interval, under its start. -/
abbrev SectorSet := OrdMap ℕ ℕ

section Insert

variable [DecidableEq α]

/-- The second half of an iteration: `val` is entered at `sbeg`, up to the
next span or up to `send`. -/
def fillSpan (send : ℕ) (val : α) (sbeg : ℕ) (map : SpanMap α) :
    Step (ℕ × SpanMap α) (SpanMap α) :=
  match map.firstGT sbeg with
  | some (ubeg, (uend, uv)) =>
      if ubeg ≤ send then
        let map :=
          if uv = val then (map.erase ubeg).insert sbeg (uend, val)
          else map.insert sbeg (ubeg, val)
        if uend < send then .next (uend, map) else .done map
      else .done (map.insert sbeg (send, val))
  | none => .done (map.insert sbeg (send, val))

def insertSpanBody (send : ℕ) (val : α) (state : ℕ × SpanMap α) :
    Step (ℕ × SpanMap α) (SpanMap α) :=
  let (sbeg, map) := state
  match map.lastLE sbeg with
  | some (lbeg, (lend, lv)) =>
      if sbeg < lend then
        if send ≤ lend then .done map else .next (lend, map)
      -- a same-valued span which ends here is extended instead
      else if sbeg = lend ∧ val = lv then fillSpan send val lbeg map
      else fillSpan send val sbeg map
  | none => fillSpan send val sbeg map

def insertSpan (sbeg send : ℕ) (val : α) (map : SpanMap α) :
    Outcome ε (SpanMap α) :=
  loop (fun state => .ok (insertSpanBody send val state))
    (send - sbeg + 1) (sbeg, map)

end Insert

def removeSpanBody (send : ℕ) (state : ℕ × SectorSet) :
    Step (ℕ × SectorSet) SectorSet :=
  let (sbeg, map) := state
  -- cut the interval which holds `sbeg`
  let cut : Step (ℕ × SectorSet) SectorSet :=
    match map.lastLE sbeg with
    | some (lbeg, lend) =>
        if sbeg < lend then
          let map := if lbeg < sbeg then map.insert lbeg sbeg else map.erase lbeg
          if send < lend then .done (map.insert send lend)
          else if send = lend then .done map
          else .next (lend, map)
        else .next (sbeg, map)
    | none => .next (sbeg, map)
  match cut with
  | .done map => .done map
  | .next (sbeg, map) =>
      match map.firstGT sbeg with
      | some (ubeg, uend) =>
          if ubeg ≤ send then
            let map := map.erase ubeg
            if send < uend then .done (map.insert send uend)
            else .next (uend, map)
          else .done map
      | none => .done map

def removeSpan (sbeg send : ℕ) (map : SectorSet) : Outcome ε SectorSet :=
  loop (fun state => .ok (removeSpanBody send state))
    (send - sbeg + 1) (sbeg, map)

/-- Every interval ends at or below `n`. -/
def Within {β : Type} [Spanning β γ] (m : OrdMap ℕ β) (n : ℕ) : Prop :=
  ∀ k b, (k, b) ∈ m → Spanning.stop b ≤ n

/-! ## Painting -/

/-- The coloring after `val` has been given to the uncovered sectors of
`[sbeg, send)`. -/
def Paints (m : SpanMap α) (sbeg send : ℕ) (val : α) (s : ℕ) (c : α) : Prop :=
  m.Covers s c ∨
    c = val ∧ sbeg ≤ s ∧ s < send ∧ ∀ c', ¬ m.Covers s c'

/-- `fillBeg` is where a span is entered that has to color the sectors from
`sbeg` on: either `sbeg` itself, or the start of the same-valued span which
ends there. -/
structure FillSite (m : SpanMap α) (fillBeg sbeg : ℕ) (val : α) : Prop where
  le : fillBeg ≤ sbeg
  before : ∀ k b, (k, b) ∈ m → k < fillBeg → b.1 ≤ fillBeg
  here : ∀ b, (fillBeg, b) ∈ m → b.1 ≤ sbeg
  clear : ∀ k b, (k, b) ∈ m → fillBeg < k → sbeg < k
  own : ∀ s, fillBeg ≤ s → s < sbeg → m.Covers s val

theorem FillSite.not_covers {m : SpanMap α} {fillBeg sbeg stopAt s : ℕ}
    {val : α} (hsite : FillSite m fillBeg sbeg val)
    (hnext : ∀ k b, (k, b) ∈ m → fillBeg < k → stopAt ≤ k)
    (hs : sbeg ≤ s) (hstop : s < stopAt) (c : α) : ¬ m.Covers s c := by
  rintro ⟨k, b, hentry, hle, hlt, _⟩
  rw [stop_pair] at hlt
  have hfill := hsite.le
  rcases lt_trichotomy k fillBeg with hk | rfl | hk
  · have := hsite.before k b hentry hk
    omega
  · have := hsite.here b hentry
    omega
  · have := hnext k b hentry hk
    omega

/-- Entering a span at a fill site colors the gap up to the span's end. -/
theorem FillSite.insert {m : SpanMap α} {fillBeg sbeg stopAt : ℕ} {val : α}
    (hm : m.Disjoint) (hsite : FillSite m fillBeg sbeg val)
    (hstop : sbeg ≤ stopAt)
    (hnext : ∀ k b, (k, b) ∈ m → fillBeg < k → stopAt ≤ k) :
    (m.insert fillBeg (stopAt, val)).Disjoint ∧
      ∀ s c, (m.insert fillBeg (stopAt, val)).Covers s c ↔
        m.Covers s c ∨ c = val ∧ sbeg ≤ s ∧ s < stopAt := by
  have hfits : m.Fits fillBeg (stopAt, val) :=
    ⟨hsite.le.trans hstop, hsite.before, hnext⟩
  have hgrow : ∀ b, (fillBeg, b) ∈ m →
      Spanning.stop b ≤ Spanning.stop (stopAt, val) := by
    intro b hentry
    exact (hsite.here b hentry).trans hstop
  refine ⟨hm.insert hfits, ?_⟩
  intro s c
  rw [covers_insert hfits hgrow]
  simp only [stop_pair, colour_pair]
  constructor
  · rintro (⟨hle, hlt, rfl⟩ | ⟨_, hcovers⟩)
    · rcases Nat.lt_or_ge s sbeg with hs | hs
      · exact Or.inl (hsite.own s hle hs)
      · exact Or.inr ⟨rfl, hs, hlt⟩
    · exact Or.inl hcovers
  · rintro (hcovers | ⟨rfl, hle, hlt⟩)
    · by_cases hin : fillBeg ≤ s ∧ s < stopAt
      · left
        rcases Nat.lt_or_ge s sbeg with hs | hs
        · exact ⟨hin.1, hin.2, hm.colour_unique (hsite.own s hin.1 hs) hcovers⟩
        · exact absurd hcovers (hsite.not_covers hnext hs hin.2 c)
      · exact Or.inr ⟨hin, hcovers⟩
    · exact Or.inl ⟨hsite.le.trans hle, hlt, rfl⟩

/-- `m'` is `m` with the coloring of `Paints`. -/
structure Painted (m : SpanMap α) (sbeg send : ℕ) (val : α)
    (m' : SpanMap α) : Prop where
  disjoint : m'.Disjoint
  covers_iff : ∀ s c, m'.Covers s c ↔ Paints m sbeg send val s c
  within : ∀ n, send ≤ n → Within m n → Within m' n
  inhabited : ∃ k b, (k, b) ∈ m'

/-- The iterations from `sbeg'` and `m'` on owe the coloring which the ones
from `sbeg` and `m` on owe. -/
structure Owes (m : SpanMap α) (sbeg send : ℕ) (val : α)
    (sbeg' : ℕ) (m' : SpanMap α) : Prop where
  le : sbeg' ≤ send
  disjoint : m'.Disjoint
  paints_iff : ∀ s c,
    Paints m' sbeg' send val s c ↔ Paints m sbeg send val s c
  within : ∀ n, send ≤ n → Within m n → Within m' n

/-- What one iteration does: it moves on with the same coloring owed, or it
has produced the coloring. -/
def InsertStep (m : SpanMap α) (sbeg send : ℕ) (val : α) :
    Step (ℕ × SpanMap α) (SpanMap α) → Prop
  | .next (sbeg', m') => sbeg < sbeg' ∧ Owes m sbeg send val sbeg' m'
  | .done m' => Painted m sbeg send val m'

theorem Painted.of_owes {m m' m'' : SpanMap α} {sbeg sbeg' send : ℕ}
    {val : α} (howes : Owes m sbeg send val sbeg' m')
    (hpainted : Painted m' sbeg' send val m'') :
    Painted m sbeg send val m'' where
  disjoint := hpainted.disjoint
  covers_iff := fun s c =>
    (hpainted.covers_iff s c).trans (howes.paints_iff s c)
  within := fun n hn hm => hpainted.within n hn (howes.within n hn hm)
  inhabited := hpainted.inhabited

theorem Owes.trans {m m' m'' : SpanMap α} {sbeg sbeg' sbeg'' send : ℕ}
    {val : α} (howes : Owes m sbeg send val sbeg' m')
    (howes' : Owes m' sbeg' send val sbeg'' m'') :
    Owes m sbeg send val sbeg'' m'' where
  le := howes'.le
  disjoint := howes'.disjoint
  paints_iff := fun s c =>
    (howes'.paints_iff s c).trans (howes.paints_iff s c)
  within := fun n hn hm => howes'.within n hn (howes.within n hn hm)

theorem Within.insert {β : Type} [Spanning β γ] {m : OrdMap ℕ β} {n k : ℕ}
    {b : β} (hm : Within m n) (hb : Spanning.stop b ≤ n) :
    Within (m.insert k b) n := by
  intro k' b' hentry
  rcases mem_insert.mp hentry with ⟨_, rfl⟩ | ⟨_, hentry⟩
  · exact hb
  · exact hm k' b' hentry

theorem Within.erase {β : Type} [Spanning β γ] {m : OrdMap ℕ β} {n : ℕ}
    (hm : Within m n) (k : ℕ) : Within (m.erase k) n := by
  intro k' b' hentry
  exact hm k' b' (mem_erase.mp hentry).2

section Iteration

variable {m m' : SpanMap α} {fillBeg sbeg send ubeg uend : ℕ} {val uv : α}

theorem FillSite.erase (hsite : FillSite m fillBeg sbeg val)
    (hm : m.Disjoint) (hubeg : (ubeg, (uend, uv)) ∈ m) (hlt : sbeg < ubeg) :
    FillSite (m.erase ubeg) fillBeg sbeg val where
  le := hsite.le
  before := fun k b hentry => hsite.before k b (mem_erase.mp hentry).2
  here := fun b hentry => hsite.here b (mem_erase.mp hentry).2
  clear := fun k b hentry => hsite.clear k b (mem_erase.mp hentry).2
  own := by
    intro s hle hs
    rw [hm.covers_erase hubeg]
    refine ⟨?_, hsite.own s hle hs⟩
    omega

theorem fill_before_next [DecidableEq α] (hm : m.Disjoint)
    (hsite : FillSite m fillBeg sbeg val)
    (hubeg : (ubeg, (uend, uv)) ∈ m) (hlt : sbeg < ubeg)
    (hnext : ∀ k b, (k, b) ∈ m → fillBeg < k → ubeg ≤ k)
    (hm' : m' = if uv = val then (m.erase ubeg).insert fillBeg (uend, val)
      else m.insert fillBeg (ubeg, val)) :
    m'.Disjoint ∧
      ∀ s c, m'.Covers s c ↔
        m.Covers s c ∨ c = val ∧ sbeg ≤ s ∧ s < ubeg := by
  have hmid : ubeg ≤ uend := (hm ubeg _ hubeg).1
  by_cases huv : uv = val
  · -- the next span is swallowed, so its sectors are colored twice over
    subst huv
    rw [if_pos rfl] at hm'
    subst hm'
    have hnext' : ∀ k b, (k, b) ∈ m.erase ubeg → fillBeg < k → uend ≤ k := by
      intro k b hentry hk
      obtain ⟨hne, hentry⟩ := mem_erase.mp hentry
      have hge := hnext k b hentry hk
      exact (hm ubeg _ hubeg).2 k b hentry (by omega)
    obtain ⟨hdisjoint, hcovers⟩ :=
      (hsite.erase hm hubeg hlt).insert (hm.erase ubeg) (by omega) hnext'
    refine ⟨hdisjoint, ?_⟩
    intro s c
    rw [hcovers, hm.covers_erase hubeg]
    simp only [stop_pair]
    have hown : ubeg ≤ s → s < uend → m.Covers s uv :=
      fun hle hs => ⟨ubeg, _, hubeg, hle, hs, rfl⟩
    constructor
    · rintro (⟨_, h⟩ | ⟨rfl, hle, hs⟩)
      · exact Or.inl h
      · rcases Nat.lt_or_ge s ubeg with hs' | hs'
        · exact Or.inr ⟨rfl, hle, hs'⟩
        · exact Or.inl (hown hs' hs)
    · rintro (h | ⟨rfl, hle, hs⟩)
      · by_cases hin : ubeg ≤ s ∧ s < uend
        · exact Or.inr ⟨hm.colour_unique h (hown hin.1 hin.2), by omega, hin.2⟩
        · exact Or.inl ⟨hin, h⟩
      · exact Or.inr ⟨rfl, hle, by omega⟩
  · rw [if_neg huv] at hm'
    subst hm'
    exact hsite.insert hm (by omega) hnext

/-- With no span to meet before `send`, the whole rest is filled at once. -/
theorem FillSite.painted_rest (hm : m.Disjoint)
    (hsite : FillSite m fillBeg sbeg val) (hle : sbeg ≤ send)
    (hnext : ∀ k b, (k, b) ∈ m → fillBeg < k → send ≤ k) :
    Painted m sbeg send val (m.insert fillBeg (send, val)) := by
  obtain ⟨hdisjoint, hcovers⟩ := hsite.insert hm hle hnext
  refine ⟨hdisjoint, ?_, fun n hn hwithin => hwithin.insert hn,
    fillBeg, _, mem_insert_self⟩
  intro s c
  rw [hcovers]
  constructor
  · rintro (h | ⟨rfl, hs, hs'⟩)
    · exact Or.inl h
    · exact Or.inr ⟨rfl, hs, hs', hsite.not_covers hnext hs hs'⟩
  · rintro (h | ⟨rfl, hs, hs', _⟩)
    · exact Or.inl h
    · exact Or.inr ⟨rfl, hs, hs'⟩

section BeforeNext

variable (hubeg : (ubeg, (uend, uv)) ∈ m)
  (hgap : ∀ s, sbeg ≤ s → s < ubeg → ∀ c, ¬ m.Covers s c)
  (hcovers : ∀ s c, m'.Covers s c ↔
    m.Covers s c ∨ c = val ∧ sbeg ≤ s ∧ s < ubeg)

include hubeg hgap hcovers

/-- The next span ends before `send`: the rest is owed from its end on. -/
theorem paints_behind_next (hlt : sbeg < ubeg) (hmid : ubeg ≤ uend)
    (huend : uend < send) (s : ℕ) (c : α) :
    Paints m' uend send val s c ↔ Paints m sbeg send val s c := by
  simp only [Paints, hcovers]
  constructor
  · rintro ((h | ⟨rfl, hs, hs'⟩) | ⟨rfl, hs, hs', hnone⟩)
    · exact Or.inl h
    · exact Or.inr ⟨rfl, hs, by omega, hgap s hs hs'⟩
    · exact Or.inr ⟨rfl, by omega, hs', fun c' h => hnone c' (Or.inl h)⟩
  · rintro (h | ⟨rfl, hs, hs', hnone⟩)
    · exact Or.inl (Or.inl h)
    · rcases Nat.lt_or_ge s ubeg with hlow | hhigh
      · exact Or.inl (Or.inr ⟨rfl, hs, hlow⟩)
      · have hbehind : uend ≤ s := by
          by_contra hin
          exact hnone uv ⟨ubeg, _, hubeg, hhigh, Nat.lt_of_not_le hin, rfl⟩
        refine Or.inr ⟨rfl, hbehind, hs', ?_⟩
        rintro c' (h | ⟨_, _, hs''⟩)
        · exact hnone c' h
        · omega

/-- The next span reaches `send`: nothing is owed any more. -/
theorem covers_iff_paints_of_next (hsend : ubeg ≤ send) (huend : send ≤ uend)
    (s : ℕ) (c : α) : m'.Covers s c ↔ Paints m sbeg send val s c := by
  rw [hcovers]
  constructor
  · rintro (h | ⟨rfl, hs, hs'⟩)
    · exact Or.inl h
    · exact Or.inr ⟨rfl, hs, by omega, hgap s hs hs'⟩
  · rintro (h | ⟨rfl, hs, hs', hnone⟩)
    · exact Or.inl h
    · refine Or.inr ⟨rfl, hs, ?_⟩
      by_contra hhigh
      exact hnone uv ⟨ubeg, _, hubeg, Nat.le_of_not_lt hhigh,
        hs'.trans_le huend, rfl⟩

end BeforeNext

theorem fillSpan_spec [DecidableEq α] (hm : m.Disjoint)
    (hsite : FillSite m fillBeg sbeg val) (hle : sbeg ≤ send) :
    InsertStep m sbeg send val (fillSpan send val fillBeg m) := by
  unfold fillSpan
  cases hcase : m.firstGT fillBeg with
  | none =>
      apply hsite.painted_rest hm hle
      intro k b hentry hk
      have := firstGT_eq_none_iff.mp hcase k b hentry
      omega
  | some entry =>
      obtain ⟨ubeg, uend, uv⟩ := entry
      obtain ⟨hubeg, hgt, hfirst⟩ := firstGT_eq_some_iff.mp hcase
      have hlt : sbeg < ubeg := hsite.clear ubeg _ hubeg hgt
      simp only
      by_cases hsend : ubeg ≤ send
      · rw [if_pos hsend]
        generalize hm' : (if uv = val then (m.erase ubeg).insert fillBeg (uend, val)
          else m.insert fillBeg (ubeg, val)) = m'
        obtain ⟨hdisjoint, hcovers⟩ :=
          fill_before_next hm hsite hubeg hlt hfirst hm'.symm
        have hwithin : ∀ n, send ≤ n → Within m n → Within m' n := by
          intro n hn hwithin
          have huend : uend ≤ n := hwithin ubeg _ hubeg
          rw [← hm']
          split_ifs
          · exact (hwithin.erase ubeg).insert huend
          · exact hwithin.insert (by simpa using hsend.trans hn)
        have hgap : ∀ s, sbeg ≤ s → s < ubeg → ∀ c, ¬ m.Covers s c :=
          fun s hs hs' => hsite.not_covers hfirst hs hs'
        by_cases huend : uend < send
        · rw [if_pos huend]
          have hmid : ubeg ≤ uend := (hm ubeg _ hubeg).1
          exact ⟨by omega, huend.le, hdisjoint,
            paints_behind_next hubeg hgap hcovers hlt hmid huend, hwithin⟩
        · rw [if_neg huend]
          have hinhabited : ∃ k b, (k, b) ∈ m' := by
            rw [← hm']
            split_ifs
            · exact ⟨fillBeg, _, mem_insert_self⟩
            · exact ⟨fillBeg, _, mem_insert_self⟩
          exact ⟨hdisjoint, covers_iff_paints_of_next hubeg hgap hcovers hsend
            (Nat.le_of_not_lt huend), hwithin, hinhabited⟩
      · rw [if_neg hsend]
        apply hsite.painted_rest hm hle
        intro k b hentry hk
        have := hfirst k b hentry hk
        omega

/-- There is nothing at or below `sbeg`. -/
theorem fillSite_of_none (hlast : m.lastLE sbeg = none) :
    FillSite m sbeg sbeg val := by
  have habove := lastLE_eq_none_iff.mp hlast
  exact {
    le := le_rfl
    before := fun k b hentry hk => by have := habove k b hentry; omega
    here := fun b hentry => by have := habove sbeg b hentry; omega
    clear := fun k b hentry hk => hk
    own := fun s hs hs' => by omega }

section LastSpan

variable {lbeg lend : ℕ} {lv : α}

/-- The last span at or below `sbeg` ends there, and has the same value. -/
theorem fillSite_of_merge (hm : m.Disjoint)
    (hlast : m.lastLE sbeg = some (lbeg, (sbeg, val))) :
    FillSite m lbeg sbeg val := by
  obtain ⟨hlbeg, hle, hmax⟩ := lastLE_eq_some_iff.mp hlast
  exact {
    le := hle
    before := fun k b hentry hk => (hm k b hentry).2 lbeg _ hlbeg hk
    here := fun b hentry => by rw [value_unique hentry hlbeg]
    clear := by
      intro k b hentry hk
      by_contra hge
      have := hmax k b hentry (by omega)
      omega
    own := fun s hs hs' => ⟨lbeg, _, hlbeg, hs, hs', rfl⟩ }

/-- The last span at or below `sbeg` does not reach past it. -/
theorem fillSite_of_gap (hm : m.Disjoint)
    (hlast : m.lastLE sbeg = some (lbeg, (lend, lv))) (hend : lend ≤ sbeg) :
    FillSite m sbeg sbeg val := by
  obtain ⟨hlbeg, hle, hmax⟩ := lastLE_eq_some_iff.mp hlast
  have hends : ∀ k b, (k, b) ∈ m → k ≤ sbeg → b.1 ≤ sbeg := by
    intro k b hentry hk
    rcases Nat.lt_or_eq_of_le (hmax k b hentry hk) with hlt | rfl
    · exact ((hm k b hentry).2 lbeg _ hlbeg hlt).trans hle
    · rw [value_unique hentry hlbeg]
      exact hend
  exact {
    le := le_rfl
    before := fun k b hentry hk => hends k b hentry hk.le
    here := fun b hentry => hends sbeg b hentry le_rfl
    clear := fun k b hentry hk => hk
    own := fun s hs hs' => by omega }

end LastSpan

theorem insertSpanBody_spec [DecidableEq α] (val : α) (hm : m.Disjoint)
    (hle : sbeg ≤ send) :
    InsertStep m sbeg send val (insertSpanBody send val (sbeg, m)) := by
  unfold insertSpanBody
  simp only
  cases hcase : m.lastLE sbeg with
  | none => exact fillSpan_spec hm (fillSite_of_none hcase) hle
  | some entry =>
      obtain ⟨lbeg, lend, lv⟩ := entry
      obtain ⟨hlbeg, hlbeg_le, hlast⟩ := lastLE_eq_some_iff.mp hcase
      simp only
      by_cases hin : sbeg < lend
      · rw [if_pos hin]
        have hcovered : ∀ s, sbeg ≤ s → s < lend → m.Covers s lv :=
          fun s hs hs' => ⟨lbeg, _, hlbeg, by omega, hs', rfl⟩
        by_cases hsend : send ≤ lend
        · rw [if_pos hsend]
          refine ⟨hm, ?_, fun _ _ h => h, lbeg, _, hlbeg⟩
          intro s c
          constructor
          · exact Or.inl
          · rintro (h | ⟨rfl, hs, hs', hnone⟩)
            · exact h
            · exact absurd (hcovered s hs (by omega)) (hnone lv)
        · rw [if_neg hsend]
          refine ⟨hin, by omega, hm, ?_, fun _ _ h => h⟩
          intro s c
          constructor
          · rintro (h | ⟨rfl, hs, hs', hnone⟩)
            · exact Or.inl h
            · exact Or.inr ⟨rfl, by omega, hs', hnone⟩
          · rintro (h | ⟨rfl, hs, hs', hnone⟩)
            · exact Or.inl h
            · refine Or.inr ⟨rfl, ?_, hs', hnone⟩
              by_contra hlow
              exact hnone lv (hcovered s hs (by omega))
      · rw [if_neg hin]
        by_cases hmerge : sbeg = lend ∧ val = lv
        · obtain ⟨rfl, rfl⟩ := hmerge
          rw [if_pos ⟨rfl, rfl⟩]
          exact fillSpan_spec hm (fillSite_of_merge hm hcase) hle
        · rw [if_neg hmerge]
          exact fillSpan_spec hm
            (fillSite_of_gap hm hcase (not_lt.mp hin)) hle

end Iteration

/-- `insert_span` returns, and gives its value to the uncovered sectors of its
interval and to no others. -/
theorem insertSpan_spec [DecidableEq α] {m : SpanMap α} {sbeg send : ℕ}
    (val : α) (hm : m.Disjoint) (hle : sbeg ≤ send) :
    ∃ m', (insertSpan sbeg send val m : Outcome ε (SpanMap α)) = .ok m' ∧
      Painted m sbeg send val m' := by
  unfold insertSpan
  apply loop_rule
    (fun state : ℕ × SpanMap α => Owes m sbeg send val state.1 state.2)
    (fun state => send - state.1)
    (fun outcome : Outcome ε (SpanMap α) =>
      ∃ m', outcome = .ok m' ∧ Painted m sbeg send val m')
  · rintro ⟨beg, cur⟩ howes
    have hstep := insertSpanBody_spec val howes.disjoint howes.le
    cases hbody : insertSpanBody send val (beg, cur) with
    | next state =>
        rw [hbody] at hstep
        obtain ⟨hgt, howes'⟩ := hstep
        refine ⟨howes.trans howes', ?_⟩
        have := howes'.le
        simp only
        omega
    | done m' =>
        rw [hbody] at hstep
        exact ⟨m', rfl, .of_owes howes hstep⟩
  · exact ⟨hle, hm, fun _ _ => Iff.rfl, fun _ _ h => h⟩
  · simp only
    omega

/-! ## Removing

`remove_span` is used in one direction only: a sector outside the interval
stays, and no sector is ever added.  It need not clear the whole interval: an
interval of the set which starts exactly where the previous one ends is
stepped over. -/

structure Removed (m : SectorSet) (sbeg send : ℕ) (m' : SectorSet) :
    Prop where
  disjoint : m'.Disjoint
  kept : ∀ s, m.Covers s () → ¬ (sbeg ≤ s ∧ s < send) → m'.Covers s ()
  subset : ∀ s, m'.Covers s () → m.Covers s ()
  within : ∀ n, Within m n → Within m' n
  nonempty : (∀ k e, (k, e) ∈ m → k < e) → ∀ k e, (k, e) ∈ m' → k < e

section Removal

variable {m m' m'' : SectorSet} {sbeg sbeg' send lbeg lend : ℕ}

theorem Removed.refl (hm : m.Disjoint) (sbeg send : ℕ) :
    Removed m sbeg send m :=
  ⟨hm, fun _ h _ => h, fun _ h => h, fun _ h => h, fun h => h⟩

theorem Removed.trans (h : Removed m sbeg send m')
    (h' : Removed m' sbeg' send m'') (hle : sbeg ≤ sbeg') :
    Removed m sbeg send m'' where
  disjoint := h'.disjoint
  kept := by
    intro s hs hout
    apply h'.kept s (h.kept s hs hout)
    omega
  subset := fun s hs => h.subset s (h'.subset s hs)
  within := fun n hn => h'.within n (h.within n hn)
  nonempty := fun hm => h'.nonempty (h.nonempty hm)

/-- The entries of the set after the interval at `lbeg` has been cut off at
`sbeg`, as the loop does it. -/
theorem mem_cut {k e : ℕ}
    (hm' : m' = if lbeg < sbeg then m.insert lbeg sbeg else m.erase lbeg) :
    (k, e) ∈ m' ↔
      (k = lbeg ∧ e = sbeg ∧ lbeg < sbeg) ∨ k ≠ lbeg ∧ (k, e) ∈ m := by
  subst hm'
  split_ifs with hlt
  · simp [hlt]
  · simp [hlt]

theorem removed_of_cut (hm : m.Disjoint) (hlbeg : (lbeg, lend) ∈ m)
    (hle : lbeg ≤ sbeg) (hend : sbeg ≤ lend) (hsend : lend ≤ send)
    (hm' : m' = if lbeg < sbeg then m.insert lbeg sbeg else m.erase lbeg) :
    Removed m sbeg send m' where
  disjoint := by
    intro k e hentry
    rcases (mem_cut hm').mp hentry with ⟨rfl, rfl, _⟩ | ⟨hne, hentry⟩
    · refine ⟨hle, ?_⟩
      intro k' e' hentry' hlt
      rcases (mem_cut hm').mp hentry' with ⟨rfl, _⟩ | ⟨_, hentry'⟩
      · omega
      · have := (hm k lend hlbeg).2 k' e' hentry' hlt
        simp only [stop_nat] at this ⊢
        omega
    · refine ⟨(hm k e hentry).1, ?_⟩
      intro k' e' hentry' hlt
      rcases (mem_cut hm').mp hentry' with ⟨rfl, _⟩ | ⟨_, hentry'⟩
      · exact (hm k e hentry).2 k' lend hlbeg hlt
      · exact (hm k e hentry).2 k' e' hentry' hlt
  kept := by
    rintro s ⟨k, e, hentry, hks, hse, _⟩ hout
    simp only [stop_nat] at hse
    by_cases hk : k = lbeg
    · subst hk
      obtain rfl := value_unique hentry hlbeg
      exact ⟨k, sbeg, (mem_cut hm').mpr (Or.inl ⟨rfl, rfl, by omega⟩), hks,
        by simp only [stop_nat]; omega, rfl⟩
    · exact ⟨k, e, (mem_cut hm').mpr (Or.inr ⟨hk, hentry⟩), hks, hse, rfl⟩
  subset := by
    rintro s ⟨k, e, hentry, hks, hse, _⟩
    simp only [stop_nat] at hse
    rcases (mem_cut hm').mp hentry with ⟨rfl, rfl, _⟩ | ⟨_, hentry⟩
    · exact ⟨k, lend, hlbeg, hks, by simp only [stop_nat]; omega, rfl⟩
    · exact ⟨k, e, hentry, hks, hse, rfl⟩
  within := by
    intro n hn k e hentry
    rcases (mem_cut hm').mp hentry with ⟨rfl, rfl, _⟩ | ⟨_, hentry⟩
    · exact hend.trans (hn k lend hlbeg)
    · exact hn k e hentry
  nonempty := by
    intro hpos k e hentry
    rcases (mem_cut hm').mp hentry with ⟨rfl, rfl, hlt⟩ | ⟨_, hentry⟩
    · exact hlt
    · exact hpos k e hentry

/-- An interval which reaches past `send` is put back from `send` on. -/
theorem removed_of_cut_insert (hm : m.Disjoint) (hlbeg : (lbeg, lend) ∈ m)
    (hle : lbeg ≤ sbeg) (hsend : sbeg ≤ send) (hlend : send < lend)
    (hm' : m' = if lbeg < sbeg then m.insert lbeg sbeg else m.erase lbeg) :
    Removed m sbeg send (m'.insert send lend) := by
  have hcut : Removed m sbeg lend m' :=
    removed_of_cut hm hlbeg hle (by omega) le_rfl hm'
  have hother : ∀ k e, k ≠ lbeg → (k, e) ∈ m → e ≤ lbeg ∨ lend ≤ k := by
    intro k e hne hentry
    rcases Nat.lt_or_gt_of_ne hne with hk | hk
    · exact Or.inl ((hm k e hentry).2 lbeg lend hlbeg hk)
    · exact Or.inr ((hm lbeg lend hlbeg).2 k e hentry hk)
  have hfits : m'.Fits send lend := by
    refine ⟨hlend.le, ?_, ?_⟩
    · intro k e hentry hk
      simp only [stop_nat]
      rcases (mem_cut hm').mp hentry with ⟨rfl, rfl, _⟩ | ⟨hne, hentry⟩
      · exact hsend
      · rcases hother k e hne hentry with h | h <;> omega
    · intro k e hentry hk
      simp only [stop_nat]
      rcases (mem_cut hm').mp hentry with ⟨rfl, rfl, _⟩ | ⟨hne, hentry⟩
      · omega
      · have := (hm k e hentry).1
        simp only [stop_nat] at this
        rcases hother k e hne hentry with h | h <;> omega
  have hgrow : ∀ e, (send, e) ∈ m' →
      Spanning.stop e ≤ Spanning.stop lend := by
    intro e hentry
    simp only [stop_nat]
    rcases (mem_cut hm').mp hentry with ⟨rfl, rfl, _⟩ | ⟨hne, hentry⟩
    · omega
    · rcases hother send e hne hentry with h | h <;> omega
  exact {
    disjoint := hcut.disjoint.insert hfits
    kept := by
      intro s hs hout
      rw [covers_insert hfits hgrow]
      by_cases hin : send ≤ s ∧ s < lend
      · exact Or.inl ⟨hin.1, hin.2, rfl⟩
      · refine Or.inr ⟨hin, hcut.kept s hs ?_⟩
        omega
    subset := by
      intro s hs
      rw [covers_insert hfits hgrow] at hs
      rcases hs with ⟨hle', hlt, _⟩ | ⟨_, hs⟩
      · exact ⟨lbeg, lend, hlbeg, by omega, hlt, rfl⟩
      · exact hcut.subset s hs
    within := fun n hn => (hcut.within n hn).insert (hn lbeg lend hlbeg)
    nonempty := by
      intro hpos k e hentry
      rcases mem_insert.mp hentry with ⟨rfl, rfl⟩ | ⟨_, hentry⟩
      · exact hlend
      · exact hcut.nonempty hpos k e hentry }

/-- What one iteration of `remove_span` does. -/
def RemoveStep (m : SectorSet) (sbeg send : ℕ) :
    Step (ℕ × SectorSet) SectorSet → Prop
  | .next (sbeg', m') => sbeg < sbeg' ∧ sbeg' ≤ send ∧ Removed m sbeg send m'
  | .done m' => Removed m sbeg send m'

/-- The part of an iteration behind the interval which holds `sbeg`: the next
interval is removed up to `send`. -/
theorem removeNext_spec (hm : m.Disjoint) :
    RemoveStep m sbeg send
      (match m.firstGT sbeg with
      | some (ubeg, uend) =>
          if ubeg ≤ send then
            let map := m.erase ubeg
            if send < uend then .done (map.insert send uend)
            else .next (uend, map)
          else .done m
      | none => .done m) := by
  cases hcase : m.firstGT sbeg with
  | none => exact Removed.refl hm sbeg send
  | some entry =>
      obtain ⟨ubeg, uend⟩ := entry
      obtain ⟨hubeg, hgt, -⟩ := firstGT_eq_some_iff.mp hcase
      have hmid : ubeg ≤ uend := (hm ubeg uend hubeg).1
      have herase : m.erase ubeg =
          if ubeg < ubeg then m.insert ubeg ubeg else m.erase ubeg := by simp
      simp only
      split_ifs with hsend huend
      · exact (Removed.refl hm sbeg send).trans
          (removed_of_cut_insert hm hubeg le_rfl hsend huend herase) hgt.le
      · refine ⟨by omega, by omega, ?_⟩
        exact (Removed.refl hm sbeg send).trans
          (removed_of_cut hm hubeg le_rfl hmid (by omega) herase) hgt.le
      · exact Removed.refl hm sbeg send

theorem RemoveStep.trans {step : Step (ℕ × SectorSet) SectorSet}
    (h : Removed m sbeg send m') (hle : sbeg ≤ sbeg')
    (hstep : RemoveStep m' sbeg' send step) : RemoveStep m sbeg send step := by
  cases step with
  | next state =>
      obtain ⟨hgt, hle', hremoved⟩ := hstep
      exact ⟨by omega, hle', h.trans hremoved hle⟩
  | done result => exact h.trans hstep hle

theorem removeSpanBody_spec (hm : m.Disjoint) (hle : sbeg ≤ send) :
    RemoveStep m sbeg send (removeSpanBody send (sbeg, m)) := by
  unfold removeSpanBody
  simp only
  cases hcase : m.lastLE sbeg with
  | none => exact removeNext_spec hm
  | some entry =>
      obtain ⟨lbeg, lend⟩ := entry
      obtain ⟨hlbeg, hlbeg_le, -⟩ := lastLE_eq_some_iff.mp hcase
      simp only
      by_cases hin : sbeg < lend
      · rw [if_pos hin]
        generalize hm' :
          (if lbeg < sbeg then m.insert lbeg sbeg else m.erase lbeg) = m'
        by_cases hlt : send < lend
        · rw [if_pos hlt]
          exact removed_of_cut_insert hm hlbeg hlbeg_le hle hlt hm'.symm
        · rw [if_neg hlt]
          have hremoved : Removed m sbeg send m' :=
            removed_of_cut hm hlbeg hlbeg_le hin.le (by omega) hm'.symm
          by_cases heq : send = lend
          · rw [if_pos heq]
            exact hremoved
          · rw [if_neg heq]
            exact RemoveStep.trans hremoved hin.le
              (removeNext_spec hremoved.disjoint)
      · rw [if_neg hin]
        exact removeNext_spec hm

/-- `remove_span` returns; it drops no sector outside its interval and adds
none. -/
theorem removeSpan_spec (hm : m.Disjoint) (hle : sbeg ≤ send) :
    ∃ m', (removeSpan sbeg send m : Outcome ε SectorSet) = .ok m' ∧
      Removed m sbeg send m' := by
  unfold removeSpan
  apply loop_rule
    (fun state : ℕ × SectorSet => sbeg ≤ state.1 ∧ state.1 ≤ send ∧
      Removed m sbeg send state.2)
    (fun state => send - state.1)
    (fun outcome : Outcome ε SectorSet =>
      ∃ m', outcome = .ok m' ∧ Removed m sbeg send m')
  · rintro ⟨beg, cur⟩ ⟨hbeg, hbeg', hremoved⟩
    have hstep := removeSpanBody_spec hremoved.disjoint hbeg'
    cases hbody : removeSpanBody send (beg, cur) with
    | next state =>
        rw [hbody] at hstep
        obtain ⟨hgt, hle', hremoved'⟩ := hstep
        refine ⟨⟨by omega, hle', hremoved.trans hremoved' hbeg⟩, ?_⟩
        simp only
        omega
    | done m' =>
        rw [hbody] at hstep
        exact ⟨m', rfl, hremoved.trans hstep hbeg⟩
  · exact ⟨le_rfl, hle, Removed.refl hm sbeg send⟩
  · simp only
    omega

end Removal

end Vmdk
end ImageReader
