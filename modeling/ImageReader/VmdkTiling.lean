import ImageReader.VmdkWalk

/-!
# An opened image is tiled

The zero fill closes the chart: afterwards every sector of the image has a
span.  A span map without gaps, in key order, is a tiling of the image, and
`Tiles` is where opening and reading meet.  Opening produces a tiling whose
spans name extents that have their sectors; reading needs nothing else to
find every byte, to make progress and to stop.
-/

namespace ImageReader
namespace Vmdk

open OrdMap

variable {ε α : Type}

/-! ## Tilings -/

/-- The spans meet end to end from `lo` to `size`.  An empty span may stand at
the very end. -/
def Tiles (size : ℕ) : ℕ → List (ℕ × (ℕ × α)) → Prop
  | lo, [] => lo = size
  | lo, (beg, (end_, _)) :: rest =>
      beg = lo ∧ (beg < end_ ∧ Tiles size end_ rest ∨
        beg = size ∧ end_ = size ∧ rest = [])

/-- Non-empty spans, sorted and contiguous from `lo` to `size`. -/
def Contiguous (size : ℕ) : ℕ → List (ℕ × (ℕ × α)) → Prop
  | lo, [] => lo = size
  | lo, (beg, (end_, _)) :: rest =>
      beg = lo ∧ beg < end_ ∧ Contiguous size end_ rest

def nonEmpty (span : ℕ × (ℕ × α)) : Bool := span.1 < span.2.1

section Tilings

variable {size lo : ℕ} {list : List (ℕ × (ℕ × α))}

theorem Tiles.contiguous (h : Tiles size lo list) :
    Contiguous size lo (list.filter nonEmpty) := by
  induction list generalizing lo with
  | nil => exact h
  | cons span rest ih =>
      obtain ⟨beg, end_, x⟩ := span
      obtain ⟨rfl, ⟨hlt, hrest⟩ | ⟨rfl, rfl, rfl⟩⟩ := h
      · rw [List.filter_cons_of_pos (by simpa [nonEmpty] using hlt)]
        exact ⟨rfl, hlt, ih hrest⟩
      · simp [nonEmpty, Contiguous]

theorem Tiles.le (h : Tiles size lo list) : lo ≤ size := by
  induction list generalizing lo with
  | nil => exact h.le
  | cons span rest ih =>
      obtain ⟨beg, end_, x⟩ := span
      obtain ⟨rfl, ⟨hlt, hrest⟩ | ⟨rfl, _, _⟩⟩ := h
      · exact hlt.le.trans (ih hrest)
      · exact le_rfl

theorem Tiles.le_key (h : Tiles size lo list) :
    ∀ key ∈ list.map Prod.fst, lo ≤ key := by
  induction list generalizing lo with
  | nil => simp
  | cons span rest ih =>
      obtain ⟨beg, end_, x⟩ := span
      intro key hkey
      obtain ⟨rfl, ⟨hlt, hrest⟩ | ⟨_, _, rfl⟩⟩ := h
      · rcases List.mem_cons.mp hkey with rfl | hkey
        · exact le_rfl
        · exact hlt.le.trans (ih hrest key hkey)
      · obtain rfl : key = beg := by simpa using hkey
        exact le_rfl

theorem Tiles.sorted (h : Tiles size lo list) :
    (list.map Prod.fst).Pairwise (· < ·) := by
  induction list generalizing lo with
  | nil => simp
  | cons span rest ih =>
      obtain ⟨beg, end_, x⟩ := span
      obtain ⟨rfl, ⟨hlt, hrest⟩ | ⟨_, _, rfl⟩⟩ := h
      · rw [List.map_cons, List.pairwise_cons]
        exact ⟨fun key hkey => hlt.trans_le (hrest.le_key key hkey), ih hrest⟩
      · simp

theorem Tiles.head (h : Tiles size lo list) (hne : list ≠ []) :
    ∃ b, list[0]? = some (lo, b) := by
  cases list with
  | nil => exact absurd rfl hne
  | cons span rest =>
      obtain ⟨beg, b⟩ := span
      obtain ⟨rfl, _⟩ := h
      exact ⟨b, rfl⟩

/-- A span which starts inside the image is not empty, ends inside the image,
and is followed by the span that starts where it ends. -/
theorem Tiles.span {i beg end_ : ℕ} {x : α} (h : Tiles size lo list)
    (hget : list[i]? = some (beg, (end_, x))) (hbeg : beg < size) :
    beg < end_ ∧ end_ ≤ size ∧
      (end_ < size → ∃ b, list[i + 1]? = some (end_, b)) := by
  induction list generalizing lo i with
  | nil => simp at hget
  | cons span rest ih =>
      obtain ⟨beg', end', x'⟩ := span
      obtain ⟨rfl, ⟨hlt, hrest⟩ | ⟨rfl, _, rfl⟩⟩ := h
      · cases i with
        | zero =>
            obtain ⟨rfl, rfl, rfl⟩ : beg' = beg ∧ end' = end_ ∧ x' = x := by
              simpa using hget
            refine ⟨hlt, hrest.le, ?_⟩
            intro hend
            obtain ⟨b, hb⟩ := hrest.head (by
              rintro rfl
              exact hend.ne hrest)
            exact ⟨b, by simpa using hb⟩
        | succ i =>
            obtain ⟨hlt', hle, hnext⟩ := ih hrest (by simpa using hget)
            exact ⟨hlt', hle, fun hend => by simpa using hnext hend⟩
      · cases i with
        | zero =>
            obtain ⟨rfl, _⟩ : beg' = beg ∧ _ := by simpa using hget
            omega
        | succ i => simp at hget

/-- A list of spans in key order which leaves no gap is a tiling. -/
theorem tiles_of_covered (hle : lo ≤ size)
    (hsorted : list.Pairwise fun a b => a.1 < b.1 ∧ a.2.1 ≤ b.1)
    (hordered : ∀ span ∈ list, span.1 ≤ span.2.1)
    (hwithin : ∀ span ∈ list, span.2.1 ≤ size)
    (hlow : ∀ span ∈ list, lo ≤ span.1)
    (hcovered : ∀ s, lo ≤ s → s < size →
      ∃ span ∈ list, span.1 ≤ s ∧ s < span.2.1) :
    Tiles size lo list := by
  induction list generalizing lo with
  | nil =>
      by_contra hne
      obtain ⟨span, hspan, _⟩ := hcovered lo le_rfl (lt_of_le_of_ne hle hne)
      simp at hspan
  | cons span rest ih =>
      obtain ⟨beg, end_, x⟩ := span
      obtain ⟨hhead, hrest⟩ := List.pairwise_cons.mp hsorted
      have hbeg : lo ≤ beg := hlow _ List.mem_cons_self
      have hbegend : beg ≤ end_ := hordered _ List.mem_cons_self
      have hend : end_ ≤ size := hwithin _ List.mem_cons_self
      simp only at hhead
      rcases Nat.lt_or_eq_of_le hle with hlt | rfl
      · -- the first sector can only lie in the first span
        have hfirst : beg ≤ lo ∧ lo < end_ := by
          obtain ⟨span, hspan, hs⟩ := hcovered lo le_rfl hlt
          rcases List.mem_cons.mp hspan with rfl | hspan
          · exact hs
          · have := (hhead span hspan).1
            omega
        refine ⟨by omega, Or.inl ⟨by omega, ?_⟩⟩
        apply ih hend hrest
        · exact fun span hspan => hordered span (List.mem_cons_of_mem _ hspan)
        · exact fun span hspan => hwithin span (List.mem_cons_of_mem _ hspan)
        · exact fun span hspan => (hhead span hspan).2
        · intro s hs hs'
          obtain ⟨span, hspan, hin⟩ := hcovered s (by omega) hs'
          rcases List.mem_cons.mp hspan with rfl | hspan
          · simp only at hin
            omega
          · exact ⟨span, hspan, hin⟩
      · have hnil : rest = [] := by
          by_contra hne
          obtain ⟨span, hspan⟩ := List.exists_mem_of_ne_nil rest hne
          have := hhead span hspan
          have := hordered span (List.mem_cons_of_mem _ hspan)
          have := hwithin span (List.mem_cons_of_mem _ hspan)
          omega
        exact ⟨by omega, Or.inr ⟨by omega, by omega, hnil⟩⟩

/-- A span in other units. -/
def scaleSpan (unit : ℕ) (span : ℕ × (ℕ × α)) : ℕ × (ℕ × α) :=
  (span.1 * unit, (span.2.1 * unit, span.2.2))

theorem Tiles.scale {unit : ℕ} (hunit : 0 < unit) (h : Tiles size lo list) :
    Tiles (size * unit) (lo * unit) (list.map (scaleSpan unit)) := by
  induction list generalizing lo with
  | nil =>
      obtain rfl : lo = size := h
      rfl
  | cons span rest ih =>
      obtain ⟨beg, end_, x⟩ := span
      obtain ⟨rfl, ⟨hlt, hrest⟩ | ⟨rfl, rfl, rfl⟩⟩ := h
      · exact ⟨rfl, Or.inl ⟨Nat.mul_lt_mul_of_pos_right hlt hunit, ih hrest⟩⟩
      · exact ⟨rfl, Or.inr ⟨rfl, rfl, rfl⟩⟩

end Tilings

theorem spansInBytes_spec {build : Build} (list : List (ℕ × (ℕ × ℕ)))
    (hlt : ∀ span ∈ list, span.1 * SECTOR_SIZE < wordLimit ∧
      span.2.1 * SECTOR_SIZE < wordLimit) :
    (spansInBytes build list : Outcome ε (List (ℕ × (ℕ × ℕ)))) =
      .ok (list.map (scaleSpan SECTOR_SIZE)) := by
  induction list with
  | nil => rfl
  | cons span rest ih =>
      obtain ⟨lb, ub, i⟩ := span
      obtain ⟨hlb, hub⟩ := hlt _ List.mem_cons_self
      unfold spansInBytes
      rw [Build.mul_of_lt hlb, Outcome.ok_bind, Build.mul_of_lt hub,
        Outcome.ok_bind,
        ih fun span hspan => hlt span (List.mem_cons_of_mem _ hspan)]
      rfl

/-! ## The zero fill -/

/-- An extent of the zero fill. -/
def IsFill (n : ℕ) (ex : Extent) : Prop :=
  ex.storage = .zero ∧ ex.startSector + ex.sectors ≤ n

theorem IsFill.regular {n : ℕ} {ex : Extent} (h : IsFill n ex) :
    ex.Regular where
  flatStart := by simp [h.1]
  sparseStart := by simp [h.1]
  grainSize_pos := by simp [h.1]
  grain_le := by simp [h.1]

/-- Filling a list of intervals charts zero extents, behind the extents that
are there, over all of the intervals. -/
theorem zeroFill_spec (build : Build) {n : ℕ} (todo : List (ℕ × ℕ))
    (htodo : ∀ span ∈ todo, span.1 ≤ span.2 ∧ span.2 ≤ n)
    {exs : List Extent} {spans : SpanMap ℕ} (hchart : Chart exs n spans)
    (hrest : ∀ s < n, (∀ i, ¬ spans.Covers s i) → InSpans todo s)
    (hinhabited : (∃ k b, (k, b) ∈ spans) ∨ todo ≠ []) :
    ∃ spans' fill, (zeroFill build todo spans exs :
        Outcome ε (SpanMap ℕ × List Extent)) = .ok (spans', exs ++ fill) ∧
      (todo = [] → fill = []) ∧ (∀ ex ∈ fill, IsFill n ex) ∧
      Chart (exs ++ fill) n spans' ∧
      (∀ s < n, ∃ i, spans'.Covers s i) ∧ ∃ k b, (k, b) ∈ spans' := by
  induction todo generalizing exs spans with
  | nil =>
      refine ⟨spans, [], by simp [zeroFill], fun _ => rfl, by simp, by simpa,
        ?_, by simpa using hinhabited⟩
      intro s hs
      by_contra hnone
      push Not at hnone
      simpa [InSpans] using hrest s hs hnone
  | cons span rest ih =>
      obtain ⟨lb, ub⟩ := span
      obtain ⟨hle, hub⟩ := htodo (lb, ub) List.mem_cons_self
      simp only at hle hub
      obtain ⟨mid, hinsert, hpainted⟩ :=
        insertSpan_spec (ε := ε) exs.length hchart.disjoint hle
      have hhas : ∀ s, Extent.HasSector ⟨lb, ub - lb, .zero⟩ s ↔
          lb ≤ s ∧ s < ub := by
        intro s
        simp only [Extent.HasSector, reduceCtorEq, false_implies,
          implies_true, and_true]
        omega
      have hmid : Chart (exs ++ [⟨lb, ub - lb, .zero⟩]) n mid := by
        apply hchart.snoc hpainted.disjoint
          (hpainted.within n hub hchart.within)
        intro s c
        rw [hpainted.covers_iff, Paints, hhas]
        constructor
        · rintro (h | ⟨hc, hs, hs', hnone⟩)
          · exact Or.inl h
          · exact Or.inr ⟨hc, ⟨hs, hs'⟩, hnone⟩
        · rintro (h | ⟨hc, ⟨hs, hs'⟩, hnone⟩)
          · exact Or.inl h
          · exact Or.inr ⟨hc, hs, hs', hnone⟩
      obtain ⟨spans', fill, hfill, _, hisFill, hfinal, hcovered, hsome⟩ :=
        ih (fun span hspan => htodo span (List.mem_cons_of_mem _ hspan))
          hmid (by
            intro s hs hnone
            have hold : ∀ i, ¬ spans.Covers s i := fun i h =>
              hnone i ((hpainted.covers_iff s i).mpr (Or.inl h))
            obtain ⟨span, hspan, hin⟩ := hrest s hs hold
            rcases List.mem_cons.mp hspan with rfl | hspan
            · exact absurd ((hpainted.covers_iff s exs.length).mpr
                (Or.inr ⟨rfl, hin.1, hin.2, hold⟩)) (hnone _)
            · exact ⟨span, hspan, hin⟩)
          (Or.inl hpainted.inhabited)
      refine ⟨spans', ⟨lb, ub - lb, .zero⟩ :: fill, ?_, by simp, ?_,
        by simpa using hfinal, hcovered, hsome⟩
      · unfold zeroFill
        rw [Build.sub_of_le hle, Outcome.ok_bind, hinsert, Outcome.ok_bind,
          hfill]
        simp
      · intro ex hex
        rcases List.mem_cons.mp hex with rfl | hex
        · refine ⟨rfl, ?_⟩
          simp only
          omega
        · exact hisFill ex hex

/-! ## Opening -/

/-- What is known of a reader that has been opened: its spans tile the image,
and every span names an extent which has its sectors. -/
structure VmdkReader.WellFormed (reader : VmdkReader) : Prop where
  tiles : Tiles reader.imageSize 0 reader.spans
  nonempty : reader.spans ≠ []
  lt : reader.imageSize < wordLimit
  owned : ∀ beg end_ x, (beg, (end_, x)) ∈ reader.spans → beg < end_ →
    ∃ ex, reader.extents[x]? = some ex ∧ ex.Regular ∧
      (ex.startSector + ex.sectors) * SECTOR_SIZE ≤ reader.imageSize ∧
      ∀ o, beg ≤ o → o < end_ → ex.HasSector (o / SECTOR_SIZE)

/-- How a reader came about: the walk over the chain, and the fill behind
it. -/
structure Opened (handleImage : HandleImage) (url : Url)
    (reader : VmdkReader) (n : ℕ) (walk : Walk) (fill : List Extent)
    (spans : SpanMap ℕ) : Prop where
  walked : Walked handleImage url n walk
  extents : reader.extents = walk.extents ++ fill
  imageSize : reader.imageSize = n * SECTOR_SIZE
  spansEq : reader.spans = spans.entries.map (scaleSpan SECTOR_SIZE)
  isFill : ∀ ex ∈ fill, IsFill n ex
  noFill : walk.uncovered.isEmpty = true → fill = []
  chart : Chart reader.extents n spans
  covered : ∀ s < n, ∃ i, spans.Covers s i
  inhabited : ∃ k b, (k, b) ∈ spans

/-- Once the image loop has ended, nothing is left that could fail. -/
theorem openWithOptions_of_loop {build : Build} {handleImage : HandleImage}
    {fuel : ℕ} (imagePath : String) {url : Url} {result : ℕ × Walk}
    (hloop : loop (imageLoopBody build handleImage) fuel (Walk.start url) =
      .ok result) :
    ∃ reader n fill spans,
      openWithOptions build handleImage fuel imagePath url = .ok reader ∧
        Opened handleImage url reader n result.2 fill spans ∧
        (zeroFill build result.2.uncovered.entries result.2.spans
          result.2.extents : Outcome OpenError _) =
            .ok (spans, reader.extents) := by
  obtain ⟨size, walk⟩ := result
  simp only
  obtain ⟨n, rfl, hwalked⟩ := imageLoop_spec hloop
  have hcharted := hwalked.charted
  obtain ⟨spans, fill, hfill, hnil, hisFill, hchart, hcovered, hsome⟩ :=
    zeroFill_spec (ε := OpenError) build walk.uncovered.entries
      (fun span hspan => ⟨(hcharted.uncoveredDisjoint span.1 span.2 hspan).1,
        hcharted.uncoveredWithin span.1 span.2 hspan⟩)
      hcharted.toChart
      (by
        intro s hs hnone
        obtain ⟨k, e, hmem, hle, hlt, _⟩ := hcharted.rest s hs hnone
        exact ⟨(k, e), hmem, hle, hlt⟩)
      (hcharted.inhabited.imp_right fun ⟨k, e, hmem⟩ =>
        List.ne_nil_of_mem hmem)
  have hbytes : ∀ span ∈ spans.entries, span.1 * SECTOR_SIZE < wordLimit ∧
      span.2.1 * SECTOR_SIZE < wordLimit := by
    intro span hspan
    have hle := (hchart.disjoint span.1 span.2 hspan).1
    have hwithin := hchart.within span.1 span.2 hspan
    have hlt := hwalked.lt
    rw [stop_pair] at hle hwithin
    rw [sectorSize_eq] at *
    omega
  have hopen : openWithOptions build handleImage fuel imagePath url = .ok {
      imagePath
      imageSize := n * SECTOR_SIZE
      spans := spans.entries.map (scaleSpan SECTOR_SIZE)
      extents := walk.extents ++ fill } := by
    unfold openWithOptions
    simp only [hloop, hfill, Outcome.ok_bind, spansInBytes_spec _ hbytes,
      Outcome.pure_eq]
  refine ⟨_, n, fill, spans, hopen, {
    walked := hwalked
    extents := rfl
    imageSize := rfl
    spansEq := rfl
    isFill := hisFill
    noFill := ?_
    chart := hchart
    covered := hcovered
    inhabited := hsome }, hfill⟩
  intro hempty
  apply hnil
  apply List.eq_nil_iff_forall_not_mem.mpr
  exact isEmpty_iff.mp hempty

theorem openWithOptions_spec {build : Build} {handleImage : HandleImage}
    {fuel : ℕ} {imagePath : String} {url : Url} {reader : VmdkReader}
    (hopen : openWithOptions build handleImage fuel imagePath url =
      .ok reader) :
    ∃ n walk fill spans,
      Opened handleImage url reader n walk fill spans := by
  have hrun := hopen
  unfold openWithOptions at hrun
  obtain ⟨_, hloop, _⟩ := Outcome.bind_eq_ok.mp hrun
  obtain ⟨reader', n, fill, spans, hopen', hopened, _⟩ :=
    openWithOptions_of_loop imagePath hloop
  rw [hopen] at hopen'
  obtain rfl := Outcome.ok.inj hopen'
  exact ⟨n, _, fill, spans, hopened⟩

theorem openWithOptions_ok_iff (build : Build) (handleImage : HandleImage)
    (fuel : ℕ) (imagePath : String) (url : Url) :
    (∃ reader, openWithOptions build handleImage fuel imagePath url =
      .ok reader) ↔
    ∃ result, loop (imageLoopBody build handleImage) fuel (Walk.start url) =
      .ok result := by
  constructor
  · rintro ⟨reader, hopen⟩
    unfold openWithOptions at hopen
    obtain ⟨result, hloop, _⟩ := Outcome.bind_eq_ok.mp hopen
    exact ⟨result, hloop⟩
  · rintro ⟨result, hloop⟩
    obtain ⟨reader, _, _, _, hopen, _⟩ :=
      openWithOptions_of_loop imagePath hloop
    exact ⟨reader, hopen⟩

section

variable {handleImage : HandleImage} {url : Url} {reader : VmdkReader}
  {n : ℕ} {walk : Walk} {fill : List Extent} {spans : SpanMap ℕ}

theorem Opened.regular
    (h : Opened handleImage url reader n walk fill spans) :
    ∀ ex ∈ reader.extents,
      ex.Regular ∧ ex.startSector + ex.sectors ≤ n := by
  intro ex hex
  rw [h.extents, List.mem_append] at hex
  rcases hex with hex | hex
  · exact h.walked.regular ex hex
  · exact ⟨(h.isFill ex hex).regular, (h.isFill ex hex).2⟩

theorem Opened.firstHas
    (h : Opened handleImage url reader n walk fill spans)
    {beg end_ x o : ℕ} (hspan : (beg, (end_, x)) ∈ reader.spans)
    (hbeg : beg ≤ o) (hend : o < end_) :
    FirstHas reader.extents (o / SECTOR_SIZE) x := by
  rw [h.spansEq, List.mem_map] at hspan
  obtain ⟨⟨lb, ub, i⟩, hmem, heq⟩ := hspan
  simp only [scaleSpan, Prod.mk.injEq] at heq
  obtain ⟨rfl, rfl, rfl⟩ := heq
  apply (h.chart.covers_iff _ _).mp
  refine ⟨lb, (ub, i), hmem, ?_, ?_, rfl⟩
  · exact (Nat.le_div_iff_mul_le (by simp)).mpr hbeg
  · exact (Nat.div_lt_iff_lt_mul (by simp)).mpr hend

theorem Opened.wellFormed
    (h : Opened handleImage url reader n walk fill spans) :
    reader.WellFormed where
  tiles := by
    rw [h.spansEq, h.imageSize, ← Nat.zero_mul SECTOR_SIZE]
    apply Tiles.scale (by simp)
    apply tiles_of_covered (Nat.zero_le n)
    · apply spans.sorted.imp_of_mem
      intro a b ha hb hlt
      exact ⟨hlt, (h.chart.disjoint a.1 a.2 ha).2 b.1 b.2 hb hlt⟩
    · exact fun span hspan => (h.chart.disjoint span.1 span.2 hspan).1
    · exact fun span hspan => h.chart.within span.1 span.2 hspan
    · exact fun span hspan => Nat.zero_le _
    · intro s _ hs
      obtain ⟨i, k, b, hmem, hle, hlt, _⟩ := h.covered s hs
      exact ⟨(k, b), hmem, hle, hlt⟩
  nonempty := by
    obtain ⟨k, b, hmem⟩ := h.inhabited
    rw [h.spansEq]
    simpa using List.ne_nil_of_mem hmem
  lt := by
    rw [h.imageSize]
    exact h.walked.lt
  owned := by
    intro beg end_ x hspan hlt
    obtain ⟨⟨ex, hget, _⟩, _⟩ := h.firstHas hspan le_rfl hlt
    obtain ⟨hregular, hend⟩ := h.regular ex (List.mem_of_getElem? hget)
    refine ⟨ex, hget, hregular, ?_, ?_⟩
    · rw [h.imageSize]
      exact Nat.mul_le_mul_right _ hend
    · intro o hbeg hend
      obtain ⟨⟨ex', hget', hhas⟩, _⟩ := h.firstHas hspan hbeg hend
      obtain rfl : ex = ex' := by simpa [hget] using hget'
      exact hhas

end

end Vmdk
end ImageReader
