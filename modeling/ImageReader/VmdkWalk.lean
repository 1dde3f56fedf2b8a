import ImageReader.VmdkReader

/-!
# What the chain walk has established

`Charted exs n spans uncovered` is the state of the two maps after the extents
`exs` have been entered: the span map gives each sector to the first extent
that has it, and every sector below `n` without a span is still in the
uncovered set.  Entering the next extent preserves it, and so does the zero
fill, which is nothing but more extents.

`Processed` adds what the image loop knows about the chain: the images it has
read so far, and that the walk continues where the chain does.
-/

namespace ImageReader
namespace Vmdk

open OrdMap

variable {ε : Type}

/-- Extent number `i` is the first one of the list which has sector `s`. -/
def FirstHas (exs : List Extent) (s i : ℕ) : Prop :=
  (∃ ex, exs[i]? = some ex ∧ ex.HasSector s) ∧
    ∀ j < i, ∀ ex, exs[j]? = some ex → ¬ ex.HasSector s

theorem exists_firstHas {exs : List Extent} {s : ℕ} :
    (∃ i, FirstHas exs s i) ↔ ∃ ex ∈ exs, ex.HasSector s := by
  constructor
  · rintro ⟨i, ⟨ex, hget, hhas⟩, _⟩
    exact ⟨ex, List.mem_of_getElem? hget, hhas⟩
  · rintro ⟨ex, hmem, hhas⟩
    have hex : ∃ i : ℕ, ∃ ex : Extent,
        exs[i]? = some ex ∧ ex.HasSector s := by
      obtain ⟨i, hget⟩ := List.mem_iff_getElem?.mp hmem
      exact ⟨i, ex, hget, hhas⟩
    classical
    refine ⟨Nat.find hex, Nat.find_spec hex, ?_⟩
    intro j hj ex' hget' hhas'
    exact Nat.find_min hex hj ⟨ex', hget', hhas'⟩

theorem firstHas_append {exs more : List Extent} {s i : ℕ}
    (hi : i < exs.length) :
    FirstHas (exs ++ more) s i ↔ FirstHas exs s i := by
  unfold FirstHas
  rw [List.getElem?_append_left hi]
  refine and_congr_right fun _ => forall_congr' fun j => ?_
  refine forall_congr' fun hj => ?_
  rw [List.getElem?_append_left (by omega)]

theorem FirstHas.lt {exs : List Extent} {s i : ℕ} (h : FirstHas exs s i) :
    i < exs.length := by
  obtain ⟨⟨ex, hget, _⟩, _⟩ := h
  exact (List.getElem?_eq_some_iff.mp hget).1

theorem firstHas_snoc {exs : List Extent} {ex : Extent} {s i : ℕ} :
    FirstHas (exs ++ [ex]) s i ↔
      FirstHas exs s i ∨
        i = exs.length ∧ ex.HasSector s ∧ ∀ j, ¬ FirstHas exs s j := by
  constructor
  · intro h
    by_cases hi : i < exs.length
    · exact Or.inl ((firstHas_append hi).mp h)
    · have hlt := h.lt
      rw [List.length_append, List.length_singleton] at hlt
      obtain rfl : i = exs.length := by omega
      obtain ⟨⟨ex', hget, hhas⟩, hmin⟩ := h
      obtain rfl : ex = ex' := by simpa using hget
      refine Or.inr ⟨rfl, hhas, ?_⟩
      rintro j ⟨⟨ex', hget', hhas'⟩, _⟩
      have hj := (List.getElem?_eq_some_iff.mp hget').1
      have hafter : (exs ++ [ex])[j]? = some ex' := by
        rw [List.getElem?_append_left hj]
        exact hget'
      exact hmin j hj ex' hafter hhas'
  · rintro (h | ⟨rfl, hhas, hnone⟩)
    · exact (firstHas_append h.lt).mpr h
    · refine ⟨⟨ex, by simp, hhas⟩, ?_⟩
      intro j hj ex' hget hhas'
      rw [List.getElem?_append_left hj] at hget
      obtain ⟨i, hfirst⟩ :=
        exists_firstHas.mpr ⟨ex', List.mem_of_getElem? hget, hhas'⟩
      exact hnone i hfirst

/-! ## Entering one extent -/

/-- Sector `s` lies in an interval of the list. -/
def InSpans (list : List (ℕ × ℕ)) (s : ℕ) : Prop :=
  ∃ span ∈ list, span.1 ≤ s ∧ s < span.2

/-- The span map gives each sector to the first extent that has it. -/
structure Chart (exs : List Extent) (n : ℕ) (spans : SpanMap ℕ) : Prop where
  disjoint : spans.Disjoint
  covers_iff : ∀ s i, spans.Covers s i ↔ FirstHas exs s i
  within : Within spans n

structure Charted (exs : List Extent) (n : ℕ) (spans : SpanMap ℕ)
    (uncovered : SectorSet) : Prop extends Chart exs n spans where
  uncoveredDisjoint : uncovered.Disjoint
  uncoveredWithin : Within uncovered n
  rest : ∀ s < n, (∀ i, ¬ spans.Covers s i) → uncovered.Covers s ()
  inhabited : (∃ k b, (k, b) ∈ spans) ∨ ∃ k e, (k, e) ∈ uncovered

/-- One more extent: its sectors are painted where nothing is. -/
theorem Chart.snoc {exs : List Extent} {ex : Extent} {n : ℕ}
    {spans spans' : SpanMap ℕ} (hchart : Chart exs n spans)
    (hdisjoint : spans'.Disjoint) (hwithin : Within spans' n)
    (hcovers : ∀ s c, spans'.Covers s c ↔ spans.Covers s c ∨
      c = exs.length ∧ ex.HasSector s ∧ ∀ c', ¬ spans.Covers s c') :
    Chart (exs ++ [ex]) n spans' where
  disjoint := hdisjoint
  covers_iff := by
    intro s i
    rw [hcovers, hchart.covers_iff, firstHas_snoc]
    simp only [hchart.covers_iff]
  within := hwithin

/-- What entering a list of intervals under one value does to the maps. -/
structure Entered (val : ℕ) (list : List (ℕ × ℕ)) (spans : SpanMap ℕ)
    (uncovered : SectorSet) (spans' : SpanMap ℕ) (uncovered' : SectorSet) :
    Prop where
  disjoint : spans'.Disjoint
  covers_iff : ∀ s c, spans'.Covers s c ↔
    spans.Covers s c ∨
      c = val ∧ InSpans list s ∧ ∀ c', ¬ spans.Covers s c'
  within : ∀ n, (∀ span ∈ list, span.2 ≤ n) → Within spans n →
    Within spans' n
  uncoveredDisjoint : uncovered'.Disjoint
  uncoveredWithin : ∀ n, Within uncovered n → Within uncovered' n
  kept : ∀ s, uncovered.Covers s () → ¬ InSpans list s →
    uncovered'.Covers s ()
  inhabited : ((∃ k b, (k, b) ∈ spans) ∨ ∃ k e, (k, e) ∈ uncovered) →
    (∃ k b, (k, b) ∈ spans') ∨ ∃ k e, (k, e) ∈ uncovered'

theorem enterSpans_spec (val : ℕ) (list : List (ℕ × ℕ))
    (hordered : ∀ span ∈ list, span.1 ≤ span.2) {spans : SpanMap ℕ}
    {uncovered : SectorSet} (hspans : spans.Disjoint)
    (huncovered : uncovered.Disjoint) :
    ∃ spans' uncovered', (enterSpans val list spans uncovered :
        Outcome ε (SpanMap ℕ × SectorSet)) = .ok (spans', uncovered') ∧
      Entered val list spans uncovered spans' uncovered' := by
  induction list generalizing spans uncovered with
  | nil =>
      refine ⟨spans, uncovered, rfl, ?_⟩
      exact {
        disjoint := hspans
        covers_iff := by simp [InSpans]
        within := fun n _ h => h
        uncoveredDisjoint := huncovered
        uncoveredWithin := fun n h => h
        kept := fun s h _ => h
        inhabited := id }
  | cons span rest ih =>
      obtain ⟨beg, end_⟩ := span
      have hle : beg ≤ end_ := hordered (beg, end_) List.mem_cons_self
      obtain ⟨mid, hinsert, hpainted⟩ :=
        insertSpan_spec (ε := ε) val hspans hle
      obtain ⟨midU, hremove, hremoved⟩ :=
        removeSpan_spec (ε := ε) huncovered hle
      obtain ⟨spans', uncovered', hrest, hentered⟩ :=
        ih (fun span hspan => hordered span (List.mem_cons_of_mem _ hspan))
          hpainted.disjoint hremoved.disjoint
      have hin : ∀ s, InSpans ((beg, end_) :: rest) s ↔
          (beg ≤ s ∧ s < end_) ∨ InSpans rest s := by
        intro s
        simp [InSpans]
      refine ⟨spans', uncovered', ?_, {
        disjoint := hentered.disjoint
        covers_iff := ?_
        within := ?_
        uncoveredDisjoint := hentered.uncoveredDisjoint
        uncoveredWithin := fun n h =>
          hentered.uncoveredWithin n (hremoved.within n h)
        kept := ?_
        inhabited := fun _ => hentered.inhabited (Or.inl hpainted.inhabited) }⟩
      · unfold enterSpans
        rw [hinsert, Outcome.ok_bind, hremove, Outcome.ok_bind, hrest]
      · intro s c
        simp only [hentered.covers_iff, hpainted.covers_iff, Paints, hin]
        constructor
        · rintro ((h | ⟨rfl, hs, hs', hnone⟩) | ⟨rfl, hs, hnone⟩)
          · exact Or.inl h
          · exact Or.inr ⟨rfl, Or.inl ⟨hs, hs'⟩, hnone⟩
          · exact Or.inr ⟨rfl, Or.inr hs, fun c' h => hnone c' (Or.inl h)⟩
        · rintro (h | ⟨rfl, hs, hnone⟩)
          · exact Or.inl (Or.inl h)
          · by_cases hfirst : beg ≤ s ∧ s < end_
            · exact Or.inl (Or.inr ⟨rfl, hfirst.1, hfirst.2, hnone⟩)
            · refine Or.inr ⟨rfl, hs.resolve_left hfirst, ?_⟩
              rintro c' (h | ⟨_, hlow, hhigh, _⟩)
              · exact hnone c' h
              · exact hfirst ⟨hlow, hhigh⟩
      · intro n hn hwithin
        apply hentered.within n
        · exact fun span hspan => hn span (List.mem_cons_of_mem _ hspan)
        · exact hpainted.within n (hn (beg, end_) List.mem_cons_self) hwithin
      · intro s hs hout
        rw [hin] at hout
        push Not at hout
        exact hentered.kept s
          (hremoved.kept s hs fun hmem => by have := hout.1 hmem.1; omega)
          hout.2

theorem Entered.charted {exs : List Extent} (ex : Extent) {n : ℕ}
    {list : List (ℕ × ℕ)} {spans spans' : SpanMap ℕ}
    {uncovered uncovered' : SectorSet}
    (hcharted : Charted exs n spans uncovered)
    (hentered : Entered exs.length list spans uncovered spans' uncovered')
    (hmem : ∀ s, InSpans list s ↔ ex.HasSector s)
    (hlist : ∀ span ∈ list, span.2 ≤ n) :
    Charted (exs ++ [ex]) n spans' uncovered' where
  toChart := hcharted.toChart.snoc hentered.disjoint
    (hentered.within n hlist hcharted.within) (by
      intro s c
      rw [hentered.covers_iff, hmem])
  uncoveredDisjoint := hentered.uncoveredDisjoint
  uncoveredWithin := hentered.uncoveredWithin n hcharted.uncoveredWithin
  rest := by
    intro s hs hnone
    have hold : ∀ i, ¬ spans.Covers s i := fun i h =>
      hnone i ((hentered.covers_iff s i).mpr (Or.inl h))
    refine hentered.kept s (hcharted.rest s hs hold) ?_
    intro hin
    exact hnone exs.length
      ((hentered.covers_iff s _).mpr (Or.inr ⟨rfl, hin, hold⟩))
  inhabited := hentered.inhabited hcharted.inhabited

/-! ## Entering one image -/

/-- How far `addExtents` got: all extents were entered, or enough of them to
leave nothing uncovered. -/
def Added (list : List Extent) (n : ℕ) (walk : Walk) :
    Step Walk Walk → Prop
  | .next walk' =>
      walk'.extents = walk.extents ++ list ∧
        walk'.idx = walk.idx + list.countP Extent.hasFile ∧
        walk'.imageSize = walk.imageSize ∧
        Charted walk'.extents n walk'.spans walk'.uncovered
  | .done walk' =>
      walk'.uncovered.isEmpty = true ∧
        (∃ entered, entered <+: list ∧
          walk'.extents = walk.extents ++ entered) ∧
        Charted walk'.extents n walk'.spans walk'.uncovered

theorem addExtents_spec (build : Build) {n : ℕ} (list : List Extent)
    (hregular : ∀ ex ∈ list, ex.Regular)
    (hend : ∀ ex ∈ list, ex.startSector + ex.sectors ≤ n)
    (hn : n * SECTOR_SIZE < wordLimit) (walk : Walk)
    (hcharted : Charted walk.extents n walk.spans walk.uncovered) :
    ∃ step, (addExtents build list walk :
        Outcome ε (Step Walk Walk)) = .ok step ∧ Added list n walk step := by
  induction list generalizing walk with
  | nil => exact ⟨_, rfl, by simp, by simp, rfl, hcharted⟩
  | cons ex rest ih =>
      have hexend : (ex.startSector + ex.sectors) * SECTOR_SIZE < wordLimit :=
        (Nat.mul_le_mul_right _ (hend ex List.mem_cons_self)).trans_lt hn
      obtain ⟨list, hlist, hspans⟩ := Extent.spans_spec (ε := ε) build
        (hregular ex List.mem_cons_self) hexend
      obtain ⟨spans', uncovered', henter, hentered⟩ :=
        enterSpans_spec (ε := ε) walk.extents.length list hspans.ordered
          hcharted.disjoint hcharted.uncoveredDisjoint
      have hcharted' := hentered.charted ex hcharted hspans.mem_iff
        fun span hspan =>
          (hspans.within span hspan).trans (hend ex List.mem_cons_self)
      unfold addExtents
      rw [hlist, Outcome.ok_bind, henter, Outcome.ok_bind]
      simp only
      by_cases hempty : uncovered'.isEmpty = true
      · rw [if_pos hempty]
        exact ⟨_, rfl, hempty, ⟨[ex], by simp, rfl⟩, hcharted'⟩
      · rw [if_neg hempty]
        obtain ⟨step, hstep, hadded⟩ :=
          ih (fun ex hex => hregular ex (List.mem_cons_of_mem _ hex))
            (fun ex hex => hend ex (List.mem_cons_of_mem _ hex))
            { walk with
              spans := spans'
              uncovered := uncovered'
              idx := if ex.hasFile then walk.idx + 1 else walk.idx
              extents := walk.extents ++ [ex] } hcharted'
        refine ⟨step, hstep, ?_⟩
        cases step with
        | next walk' =>
            obtain ⟨hexs, hidx, hsize, hfinal⟩ := hadded
            refine ⟨by simp [hexs], ?_, hsize, hfinal⟩
            rw [hidx, List.countP_cons]
            cases ex.hasFile with
            | true =>
                simp only [if_true]
                omega
            | false => simp
        | done walk' =>
            obtain ⟨hcovered, ⟨entered, hinitial, hexs⟩, hfinal⟩ := hadded
            refine ⟨hcovered, ⟨ex :: entered, ?_, by simp [hexs]⟩, hfinal⟩
            exact (List.prefix_cons_inj ex).mpr hinitial

/-! ## The images of a chain -/

/-- The images which following the parents from `url` reads, as far as the
list goes.  Every image and every file it opens takes the next index. -/
def IsChain (handleImage : HandleImage) :
    Url → ℕ → List ImageExtents → Prop
  | _, _, [] => True
  | url, idx, img :: rest =>
      ∃ parent, handleImage url idx = .ok (img, parent) ∧
        (rest = [] ∨ ∃ parentUrl, parent = some parentUrl ∧
          IsChain handleImage parentUrl
            (idx + 1 + img.extents.countP Extent.hasFile) rest)

/-- All extents of a chain, in image order and then in extent order. -/
def chainExtents (imgs : List ImageExtents) : List Extent :=
  imgs.flatMap ImageExtents.extents

theorem chainExtents_concat (imgs : List ImageExtents) (img : ImageExtents) :
    chainExtents (imgs ++ [img]) = chainExtents imgs ++ img.extents := by
  simp [chainExtents]

/-- One image more in a chain which goes on with the image at `url'`. -/
theorem isChain_concat_iff {handleImage : HandleImage} {url url' : Url} {idx : ℕ}
    {imgs : List ImageExtents} {img : ImageExtents} {parentUrl : Option Url}
    (hhandle : handleImage url' idx = .ok (img, parentUrl))
    (hextends : ∀ more, more ≠ [] →
      (IsChain handleImage url 0 (imgs ++ more) ↔
        IsChain handleImage url' idx more)) (more : List ImageExtents) :
    IsChain handleImage url 0 ((imgs ++ [img]) ++ more) ↔
      (more = [] ∨ ∃ parent, parentUrl = some parent ∧
        IsChain handleImage parent
          (idx + 1 + img.extents.countP Extent.hasFile) more) := by
  rw [List.append_assoc, hextends _ (by simp)]
  simp only [List.singleton_append, IsChain, hhandle]
  constructor
  · rintro ⟨parent, heq, h⟩
    obtain rfl : parentUrl = parent := by simpa using heq
    exact h
  · exact fun h => ⟨parentUrl, rfl, h⟩

/-- The number of sectors of a list of extents. -/
def totalSectors (extents : List Extent) : ℕ :=
  (extents.map Extent.sectors).sum

theorem foldlM_checkedAdd {extents : List Extent} {acc total : ℕ}
    (h : extents.foldlM (fun acc ex => checkedAdd acc ex.sectors) acc =
      some total) :
    total = acc + totalSectors extents := by
  induction extents generalizing acc with
  | nil =>
      obtain rfl : acc = total := by simpa using h
      simp [totalSectors]
  | cons ex rest ih =>
      rw [List.foldlM_cons, Option.bind_eq_bind, Option.bind_eq_some_iff] at h
      obtain ⟨acc', hadd, hrest⟩ := h
      obtain ⟨_, rfl⟩ := checkedAdd_eq_some.mp hadd
      rw [ih hrest]
      simp only [totalSectors, List.map_cons, List.sum_cons]
      omega

theorem imageBytes_eq_some {extents : List Extent} {size : ℕ}
    (h : imageBytes extents = some size) :
    size = totalSectors extents * SECTOR_SIZE ∧ size < wordLimit := by
  unfold imageBytes at h
  rw [Option.bind_eq_bind, Option.bind_eq_some_iff] at h
  obtain ⟨sectors, hsum, hmul⟩ := h
  obtain ⟨hlt, rfl⟩ := checkedMul_eq_some.mp hmul
  rw [foldlM_checkedAdd hsum, Nat.zero_add] at hlt ⊢
  exact ⟨rfl, hlt⟩

theorem Laid.end_le {extents : List Extent} {start total : ℕ}
    (hlaid : Laid start extents)
    (htotal : start + totalSectors extents = total) (hlt : total < wordLimit) :
    ∀ ex ∈ extents, ex.startSector + ex.sectors ≤ total := by
  induction extents generalizing start with
  | nil => simp
  | cons ex rest ih =>
      obtain ⟨hstart, hrest⟩ := hlaid
      simp only [totalSectors, List.map_cons, List.sum_cons] at htotal ih
      rw [Nat.mod_eq_of_lt (by omega)] at hrest
      intro ex' hex'
      rcases List.mem_cons.mp hex' with rfl | hex'
      · omega
      · exact ih hrest (by omega) ex' hex'

/-- What the image loop has done when it stands before the next image. -/
structure Processed (handleImage : HandleImage) (url : Url) (n : ℕ)
    (imgs : List ImageExtents) (walk : Walk) : Prop where
  extents : walk.extents = chainExtents imgs
  extends_iff : ∀ more, more ≠ [] →
    (IsChain handleImage url 0 (imgs ++ more) ↔
      IsChain handleImage walk.currentUrl walk.idx more)
  regular : ∀ ex ∈ walk.extents, ex.Regular ∧ ex.startSector + ex.sectors ≤ n
  imageSize : walk.imageSize = some (n * SECTOR_SIZE)
  charted : Charted walk.extents n walk.spans walk.uncovered

/-- What the image loop has established when it ends. -/
structure Walked (handleImage : HandleImage) (url : Url) (n : ℕ)
    (walk : Walk) : Prop where
  lt : n * SECTOR_SIZE < wordLimit
  regular : ∀ ex ∈ walk.extents, ex.Regular ∧ ex.startSector + ex.sectors ≤ n
  charted : Charted walk.extents n walk.spans walk.uncovered
  /-- the extents come from the front of the chain, and from all of it unless
  nothing is uncovered -/
  chain : ∃ imgs, imgs ≠ [] ∧ IsChain handleImage url 0 imgs ∧
    walk.extents <+: chainExtents imgs ∧
    (walk.uncovered.isEmpty = true ∨ walk.extents = chainExtents imgs ∧
      ∀ more, IsChain handleImage url 0 (imgs ++ more) → more = [])

/-- Where the image loop stands: at its start, or before the next image. -/
def Standing (handleImage : HandleImage) (url : Url) (walk : Walk) : Prop :=
  walk = Walk.start url ∨ ∃ n imgs, n * SECTOR_SIZE < wordLimit ∧
    Processed handleImage url n imgs walk

/-- What an iteration which returns has established. -/
def Stepped (handleImage : HandleImage) (url : Url) :
    Step Walk (ℕ × Walk) → Prop
  | .next walk => Standing handleImage url walk
  | .done (size, walk) =>
      ∃ n, size = n * SECTOR_SIZE ∧ Walked handleImage url n walk

theorem enterImage_spec (build : Build) {handleImage : HandleImage}
    (url : Url) {n idx : ℕ} (imgs : List ImageExtents) {img : ImageExtents}
    {parentUrl : Option Url} (walk : Walk)
    (hhandle : handleImage walk.currentUrl idx = .ok (img, parentUrl))
    (hidx : walk.idx = idx + 1)
    (hextends : ∀ more, more ≠ [] →
      (IsChain handleImage url 0 (imgs ++ more) ↔
        IsChain handleImage walk.currentUrl idx more))
    (htotal : totalSectors img.extents = n)
    (hlt : n * SECTOR_SIZE < wordLimit)
    (hextents : walk.extents = chainExtents imgs)
    (hregular : ∀ ex ∈ walk.extents,
      ex.Regular ∧ ex.startSector + ex.sectors ≤ n)
    (hsize : walk.imageSize = some (n * SECTOR_SIZE))
    (hcharted : Charted walk.extents n walk.spans walk.uncovered) :
    ∃ step, enterImage build img parentUrl (n * SECTOR_SIZE) walk =
        .ok step ∧ Stepped handleImage url step := by
  have hend : ∀ ex ∈ img.extents, ex.startSector + ex.sectors ≤ n := by
    apply img.laid.end_le (by omega)
    rw [sectorSize_eq] at hlt
    omega
  have hcons := isChain_concat_iff hhandle hextends
  have hchain : IsChain handleImage url 0 (imgs ++ [img]) := by
    simpa using (hcons []).mpr (Or.inl rfl)
  have hall : ∀ {entered}, entered <+: img.extents → ∀ walk' : Walk,
      walk'.extents = walk.extents ++ entered →
      ∀ ex ∈ walk'.extents, ex.Regular ∧ ex.startSector + ex.sectors ≤ n := by
    intro entered hinitial walk' hexs ex hex
    rw [hexs, List.mem_append] at hex
    rcases hex with hex | hex
    · exact hregular ex hex
    · have := hinitial.subset hex
      exact ⟨img.regular ex this, hend ex this⟩
  have happend : chainExtents (imgs ++ [img]) =
      walk.extents ++ img.extents := by
    rw [hextents, chainExtents_concat]
  obtain ⟨step, hadd, hadded⟩ := addExtents_spec (ε := OpenError)
    build img.extents img.regular hend hlt walk hcharted
  unfold enterImage
  rw [hadd, Outcome.ok_bind]
  cases step with
  | done walk' =>
      obtain ⟨hempty, ⟨entered, hinitial, hexs⟩, hfinal⟩ := hadded
      refine ⟨_, rfl, n, rfl, {
        lt := hlt
        regular := hall hinitial walk' hexs
        charted := hfinal
        chain := ⟨imgs ++ [img], by simp, hchain, ?_, Or.inl hempty⟩ }⟩
      rw [happend, hexs]
      exact (List.prefix_append_right_inj _).mpr hinitial
  | next walk' =>
      obtain ⟨hexs, hidx', hsize', hfinal⟩ := hadded
      cases hparent : parentUrl with
      | none =>
          refine ⟨_, rfl, n, rfl, {
            lt := hlt
            regular := hall (List.prefix_refl _) walk' hexs
            charted := hfinal
            chain := ⟨imgs ++ [img], by simp, hchain, ?_, Or.inr ⟨?_, ?_⟩⟩ }⟩
          · rw [happend, hexs]
          · rw [happend, hexs]
          · intro more hmore
            rw [hcons, hparent] at hmore
            simpa using hmore
      | some parent =>
          refine ⟨_, rfl, Or.inr ⟨n, imgs ++ [img], hlt, {
            extents := by rw [happend]; exact hexs
            extends_iff := ?_
            regular := hall (List.prefix_refl _) walk' hexs
            imageSize := hsize'.trans hsize
            charted := hfinal }⟩⟩
          intro more hne
          rw [hcons, hparent, hidx', hidx]
          simp [hne]

theorem charted_start (n : ℕ) :
    Charted [] n .empty ((.empty : SectorSet).insert 0 n) where
  disjoint := disjoint_empty
  covers_iff := by simp [FirstHas]
  within := by
    intro k b h
    simp at h
  uncoveredDisjoint := by
    apply disjoint_empty.insert
    exact ⟨Nat.zero_le _, by simp, by simp⟩
  uncoveredWithin := by
    intro k b h
    simp only [mem_insert, not_mem_empty, and_false, or_false] at h
    simp [h.2]
  rest := fun s hs _ =>
    ⟨0, n, mem_insert_self, Nat.zero_le _, hs, rfl⟩
  inhabited := Or.inr ⟨0, n, mem_insert_self⟩

theorem imageLoopBody_spec {build : Build} {handleImage : HandleImage}
    {url : Url} {walk : Walk} {step : Step Walk (ℕ × Walk)}
    (hstanding : Standing handleImage url walk)
    (hbody : imageLoopBody build handleImage walk = .ok step) :
    Stepped handleImage url step := by
  unfold imageLoopBody at hbody
  simp only at hbody
  split_ifs at hbody with hvisited
  obtain ⟨⟨img, parentUrl⟩, hmapped, hbody⟩ := Outcome.bind_eq_ok.mp hbody
  have hhandle : handleImage walk.currentUrl walk.idx = .ok (img, parentUrl) :=
    Outcome.mapError_eq_ok.mp hmapped
  cases hbytes : imageBytes img.extents with
  | none => simp [hbytes] at hbody
  | some size =>
      obtain ⟨rfl, hlt⟩ := imageBytes_eq_some hbytes
      simp only [hbytes] at hbody
      rcases hstanding with rfl | ⟨n, imgs, hn, hprocessed⟩
      · have hsectors : (totalSectors img.extents * SECTOR_SIZE +
            (SECTOR_SIZE - 1)) / SECTOR_SIZE =
              totalSectors img.extents := by
          rw [sectorSize_eq]
          omega
        simp only [Walk.start, hsectors] at hbody
        obtain ⟨step', henter, hstepped⟩ := enterImage_spec build
          url [] { Walk.start url with
            visited := [url]
            idx := 1
            imageSize := some (totalSectors img.extents * SECTOR_SIZE)
            uncovered := OrdMap.empty.insert 0
              (totalSectors img.extents) }
          hhandle rfl (fun _ _ => Iff.rfl) rfl hlt rfl
          (by simp [Walk.start]) rfl (charted_start _)
        rw [show step = step' by simpa using hbody.symm.trans henter]
        exact hstepped
      · simp only [hprocessed.imageSize] at hbody
        split_ifs at hbody with hsize
        rw [ne_eq, not_not, sectorSize_eq] at hsize
        obtain rfl : n = totalSectors img.extents := by omega
        obtain ⟨step', henter, hstepped⟩ := enterImage_spec build
          url imgs { walk with
            visited := walk.currentUrl :: walk.visited
            idx := walk.idx + 1 }
          hhandle rfl hprocessed.extends_iff rfl hlt hprocessed.extents
          hprocessed.regular hprocessed.imageSize hprocessed.charted
        simp only [hprocessed.imageSize] at henter
        rw [show step = step' by simpa using hbody.symm.trans henter]
        exact hstepped

theorem imageLoop_spec {build : Build} {handleImage : HandleImage}
    {fuel size : ℕ} {url : Url} {walk : Walk}
    (hloop : loop (imageLoopBody build handleImage) fuel (Walk.start url) =
      .ok (size, walk)) :
    ∃ n, size = n * SECTOR_SIZE ∧ Walked handleImage url n walk :=
  loop_ok_rule
    (Standing handleImage url)
    (fun result : ℕ × Walk =>
      Stepped handleImage url (.done result))
    (fun _ _ hinv hbody => imageLoopBody_spec hinv hbody)
    (fun _ _ hinv hbody => imageLoopBody_spec hinv hbody) (Or.inl rfl) hloop

end Vmdk
end ImageReader
