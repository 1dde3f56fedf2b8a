import ImageReader.Trail
import ImageReader.VmdkTiling

/-!
# The walk through the parents of an image

The images of a collection name each other as parents in any way.  The walk
passes the trail of parents, and reads no image twice.  It ends with the image
that leaves nothing uncovered or has no parent, and if it comes back to an
image before that, the open fails with a cycle.
-/

namespace ImageReader
namespace Vmdk

variable {build : Build}

/-! ## What is uncovered -/

/-- The spans leave the uncovered set, one after the other. -/
def coverSpans : List (ℕ × ℕ) → SectorSet → Outcome OpenError SectorSet
  | [], uncovered => .ok uncovered
  | (beg, end_) :: rest, uncovered => do
      let uncovered ← removeSpan beg end_ uncovered
      coverSpans rest uncovered

/-- The uncovered set after the extents have been entered. -/
def uncoveredAfter (build : Build) :
    List Extent → SectorSet → Outcome OpenError SectorSet
  | [], uncovered => .ok uncovered
  | ex :: rest, uncovered => do
      let list ← ex.spans build
      let uncovered ← coverSpans list uncovered
      uncoveredAfter build rest uncovered

/-- The uncovered set becomes empty while the extents are entered. -/
def Emptied (build : Build) (exs : List Extent) (uncovered : SectorSet) :
    Prop :=
  ∃ entered left, entered <+: exs ∧
    uncoveredAfter build entered uncovered = .ok left ∧ left.isEmpty = true

section Uncovered

variable {exs more : List Extent} {uncovered left : SectorSet}

theorem uncoveredAfter_append (exs more : List Extent)
    (uncovered : SectorSet) :
    uncoveredAfter build (exs ++ more) uncovered =
      uncoveredAfter build exs uncovered >>= uncoveredAfter build more := by
  induction exs generalizing uncovered with
  | nil => rfl
  | cons ex rest ih =>
      rw [List.cons_append]
      unfold uncoveredAfter
      simp only [ih, Outcome.bind_assoc]

theorem Emptied.mono (h : Emptied build exs uncovered) (hle : exs <+: more) :
    Emptied build more uncovered := by
  obtain ⟨entered, left, hentered, hleft, hempty⟩ := h
  exact ⟨entered, left, hentered.trans hle, hleft, hempty⟩

theorem emptied_nil : Emptied build [] uncovered ↔ uncovered.isEmpty = true := by
  constructor
  · rintro ⟨entered, left, hentered, hleft, hempty⟩
    obtain rfl := List.prefix_nil.mp hentered
    obtain rfl := Outcome.ok.inj hleft
    exact hempty
  · exact fun h => ⟨[], uncovered, List.nil_prefix, rfl, h⟩

theorem emptied_cons_iff {ex : Extent}
    (hcons : ∀ rest, uncoveredAfter build (ex :: rest) uncovered =
      uncoveredAfter build rest left)
    (hopen : ¬ uncovered.isEmpty = true) :
    Emptied build (ex :: exs) uncovered ↔ Emptied build exs left := by
  constructor
  · rintro ⟨entered, last, hentered, hlast, hempty⟩
    rcases List.prefix_cons_iff.mp hentered with rfl | ⟨rest, rfl, hrest⟩
    · obtain rfl := Outcome.ok.inj hlast
      exact absurd hempty hopen
    · exact ⟨rest, last, hrest, (hcons rest).symm.trans hlast, hempty⟩
  · rintro ⟨rest, last, hrest, hlast, hempty⟩
    exact ⟨ex :: rest, last, (List.prefix_cons_inj ex).mpr hrest,
      (hcons rest).trans hlast, hempty⟩

/-- Behind extents which leave something uncovered, the set becomes empty when
what is left does. -/
theorem emptied_append_iff (more : List Extent)
    (hleft : uncoveredAfter build exs uncovered = .ok left)
    (hopen : ¬ Emptied build exs uncovered) :
    Emptied build (exs ++ more) uncovered ↔ Emptied build more left := by
  constructor
  · rintro ⟨entered, last, hentered, hlast, hempty⟩
    rcases List.prefix_or_prefix_of_prefix hentered
      (List.prefix_append exs more) with hle | ⟨behind, rfl⟩
    · exact absurd ⟨entered, last, hle, hlast, hempty⟩ hopen
    · rw [uncoveredAfter_append, hleft, Outcome.ok_bind] at hlast
      exact ⟨behind, last, (List.prefix_append_right_inj exs).mp hentered, hlast,
        hempty⟩
  · rintro ⟨entered, last, hentered, hlast, hempty⟩
    refine ⟨exs ++ entered, last, ?_, ?_, hempty⟩
    · exact (List.prefix_append_right_inj exs).mpr hentered
    · rw [uncoveredAfter_append, hleft]
      exact hlast

end Uncovered

theorem coverSpans_of_enterSpans {exIndex : ℕ} {list : List (ℕ × ℕ)}
    {spans : SpanMap ℕ} {uncovered : SectorSet} {after : SpanMap ℕ × SectorSet}
    (h : (enterSpans exIndex list spans uncovered : Outcome OpenError _) =
      .ok after) :
    coverSpans list uncovered = .ok after.2 := by
  induction list generalizing spans uncovered with
  | nil =>
      obtain rfl := Outcome.ok.inj h
      rfl
  | cons span rest ih =>
      obtain ⟨beg, end_⟩ := span
      unfold enterSpans at h
      obtain ⟨spans', -, h⟩ := Outcome.bind_eq_ok.mp h
      obtain ⟨uncovered', hremove, h⟩ := Outcome.bind_eq_ok.mp h
      unfold coverSpans
      rw [hremove]
      exact ih h

/-- What `addExtents` has done to the uncovered set. -/
def Uncovering (build : Build) (list : List Extent) (walk : Walk) :
    Step Walk Walk → Prop
  | .next walk' => walk'.visited = walk.visited ∧
      ¬ Emptied build list walk.uncovered ∧
      uncoveredAfter build list walk.uncovered = .ok walk'.uncovered
  | .done walk' => walk'.visited = walk.visited ∧
      Emptied build list walk.uncovered

theorem addExtents_uncovering {list : List Extent} {walk : Walk}
    {step : Step Walk Walk}
    (hopen : ¬ walk.uncovered.isEmpty = true)
    (hadd : (addExtents build list walk : Outcome OpenError _) = .ok step) :
    Uncovering build list walk step := by
  induction list generalizing walk with
  | nil =>
      obtain rfl := Outcome.ok.inj hadd
      exact ⟨rfl, emptied_nil.not.mpr hopen, rfl⟩
  | cons ex rest ih =>
      unfold addExtents at hadd
      obtain ⟨list, hlist, hadd⟩ := Outcome.bind_eq_ok.mp hadd
      obtain ⟨⟨spans', uncovered'⟩, henter, hadd⟩ := Outcome.bind_eq_ok.mp hadd
      have hcons : ∀ rest, uncoveredAfter build (ex :: rest) walk.uncovered =
          uncoveredAfter build rest uncovered' := by
        intro rest
        rw [uncoveredAfter, hlist, Outcome.ok_bind,
          coverSpans_of_enterSpans henter, Outcome.ok_bind]
      simp only at hadd
      by_cases hempty : uncovered'.isEmpty = true
      · rw [if_pos hempty] at hadd
        obtain rfl := Outcome.ok.inj hadd
        refine ⟨rfl, (emptied_cons_iff hcons hopen).mpr ?_⟩
        exact (emptied_nil.mpr hempty).mono List.nil_prefix
      · rw [if_neg hempty] at hadd
        have hrest := ih hempty hadd
        cases step with
        | next walk' =>
            obtain ⟨hvisited, hnot, hlast⟩ := hrest
            exact ⟨hvisited, (emptied_cons_iff hcons hopen).not.mpr hnot,
              (hcons rest).trans hlast⟩
        | done walk' =>
            exact ⟨hrest.1, (emptied_cons_iff hcons hopen).mpr hrest.2⟩

/-! ## Collections of images -/

/-- Images of one size which name each other as parents. -/
structure Collection (handleImage : HandleImage) where
  urls : Finset Url
  image : Url → ImageExtents
  parent : Url → Option Url
  size : ℕ
  answers : ∀ url ∈ urls, ∀ idx,
    handleImage url idx = .ok (image url, parent url)
  sized : ∀ url ∈ urls, imageBytes (image url).extents = some size
  resolves : ∀ url ∈ urls, ∀ parentUrl, parent url = some parentUrl →
    parentUrl ∈ urls

namespace Collection

variable {handleImage : HandleImage} {c : Collection handleImage}
  {start url : Url} {k fuel : ℕ} {walk : Walk}

def sectors (c : Collection handleImage) : ℕ :=
  (c.size + (SECTOR_SIZE - 1)) / SECTOR_SIZE

def whole (c : Collection handleImage) : SectorSet :=
  (.empty : SectorSet).insert 0 c.sectors

/-- The extents of the first `k` images on the way from `start`. -/
def extentsTo (c : Collection handleImage) (start : Url) (k : ℕ) :
    List Extent :=
  chainExtents ((trail c.parent start k).map c.image)

/-- Image `k` is there, and with it nothing is left uncovered, or it has no
parent. -/
def StopsAt (build : Build) (c : Collection handleImage) (start : Url)
    (k : ℕ) : Prop :=
  ∃ url, nthAfter c.parent start k = some url ∧
    (Emptied build (c.extentsTo start (k + 1)) c.whole ∨ c.parent url = none)

/-- The parents come back to an image that was passed before nothing is left
uncovered. -/
def ComesBack (build : Build) (c : Collection handleImage) (start : Url) :
    Prop :=
  ∃ k url, nthAfter c.parent start k = some url ∧
    url ∈ trail c.parent start k ∧
    ¬ Emptied build (c.extentsTo start k) c.whole

theorem whole_not_isEmpty (c : Collection handleImage) :
    ¬ c.whole.isEmpty = true := by
  intro h
  exact OrdMap.isEmpty_iff.mp h _ OrdMap.mem_insert_self

theorem extentsTo_succ (h : nthAfter c.parent start k = some url) :
    c.extentsTo start (k + 1) =
      c.extentsTo start k ++ (c.image url).extents := by
  unfold extentsTo
  rw [trail_succ h, List.map_append, List.map_singleton, chainExtents_concat]

theorem extentsTo_initial {j : ℕ} (hle : j ≤ k) :
    c.extentsTo start j <+: c.extentsTo start k := by
  unfold extentsTo chainExtents
  obtain ⟨more, hmore⟩ := trail_initial c.parent start hle
  rw [← hmore, List.map_append, List.flatMap_append]
  exact List.prefix_append _ _

theorem totalSectors_eq (hurl : url ∈ c.urls) :
    totalSectors (c.image url).extents = c.sectors := by
  obtain ⟨hsize, -⟩ := imageBytes_eq_some (c.sized url hurl)
  unfold sectors
  rw [hsize, sectorSize_eq]
  omega

theorem sectors_lt (hurl : url ∈ c.urls) :
    c.sectors * SECTOR_SIZE < wordLimit := by
  obtain ⟨hsize, hlt⟩ := imageBytes_eq_some (c.sized url hurl)
  rw [← totalSectors_eq hurl, ← hsize]
  exact hlt

/-! ## One image -/

/-- The walk before the extents of an image are entered: something is
uncovered. -/
structure Prepared (build : Build) (c : Collection handleImage)
    (walk : Walk) : Prop where
  imageSize : walk.imageSize = some c.size
  charted : Charted walk.extents c.sectors walk.spans walk.uncovered
  uncovered : uncoveredAfter build walk.extents c.whole = .ok walk.uncovered
  incomplete : ¬ Emptied build walk.extents c.whole

theorem Prepared.not_isEmpty (h : Prepared build c walk) :
    ¬ walk.uncovered.isEmpty = true := by
  intro hempty
  exact h.incomplete ⟨_, _, List.prefix_rfl, h.uncovered, hempty⟩

/-- The image at `url` has been entered. -/
def Entered (build : Build) (c : Collection handleImage) (url : Url)
    (walk : Walk) : Step Walk (ℕ × Walk) → Prop
  | .next walk' =>
      c.parent url = some walk'.currentUrl ∧ walk'.visited = walk.visited ∧
        walk'.extents = walk.extents ++ (c.image url).extents ∧
        Prepared build c walk'
  | .done (size, walk') =>
      size = c.size ∧ walk'.visited = walk.visited ∧
        (Emptied build (walk.extents ++ (c.image url).extents) c.whole ∨
          c.parent url = none)

theorem enterImage_entered (hurl : url ∈ c.urls)
    (hprepared : Prepared build c walk) :
    ∃ step, enterImage build (c.image url) (c.parent url) c.size walk =
      .ok step ∧ Entered build c url walk step := by
  have hlt := sectors_lt hurl
  have hend : ∀ ex ∈ (c.image url).extents,
      ex.startSector + ex.sectors ≤ c.sectors := by
    apply (c.image url).laid.end_le
    · rw [totalSectors_eq hurl, Nat.zero_add]
    · rw [sectorSize_eq] at hlt
      omega
  obtain ⟨step, hadd, hadded⟩ := addExtents_spec (ε := OpenError) build
    (c.image url).extents (c.image url).regular hend hlt walk hprepared.charted
  have huncovering := addExtents_uncovering hprepared.not_isEmpty hadd
  have hiff := emptied_append_iff (c.image url).extents hprepared.uncovered hprepared.incomplete
  unfold enterImage
  rw [hadd, Outcome.ok_bind]
  cases step with
  | done walk' =>
      obtain ⟨hvisited, hemptied⟩ := huncovering
      exact ⟨_, rfl, rfl, hvisited, Or.inl (hiff.mpr hemptied)⟩
  | next walk' =>
      obtain ⟨hexs, -, hsize, hcharted⟩ := hadded
      obtain ⟨hvisited, hopen, hafter⟩ := huncovering
      cases hparent : c.parent url with
      | none => exact ⟨_, rfl, rfl, hvisited, Or.inr hparent⟩
      | some parentUrl =>
          refine ⟨_, rfl, hparent, hvisited, hexs, ?_⟩
          refine ⟨hsize.trans hprepared.imageSize, hcharted, ?_, ?_⟩
          · simp only [hexs]
            rw [uncoveredAfter_append, hprepared.uncovered]
            exact hafter
          · simp only [hexs]
            exact hiff.not.mpr hopen

/-- The walk stands before image `k`: at its start, or with something left
uncovered. -/
structure At (build : Build) (c : Collection handleImage) (start : Url)
    (k : ℕ) (walk : Walk) : Prop where
  current : nthAfter c.parent start k = some walk.currentUrl
  visited : walk.visited.reverse = trail c.parent start k
  nodup : (trail c.parent start k).Nodup
  extents : walk.extents = c.extentsTo start k
  standing : walk = Walk.start start ∨ Prepared build c walk

theorem at_start (build : Build) (c : Collection handleImage) (start : Url) :
    At build c start 0 (Walk.start start) where
  current := rfl
  visited := rfl
  nodup := List.nodup_nil
  extents := rfl
  standing := Or.inl rfl

theorem At.mem_urls (hstart : start ∈ c.urls) (h : At build c start k walk) :
    walk.currentUrl ∈ c.urls :=
  nthAfter_mem c.resolves hstart h.current

theorem At.incomplete (h : At build c start k walk) :
    ¬ Emptied build (c.extentsTo start k) c.whole := by
  rw [← h.extents]
  rcases h.standing with rfl | hprepared
  · exact emptied_nil.not.mpr c.whole_not_isEmpty
  · exact hprepared.incomplete

/-- What an iteration before image `k` has done. -/
def Moved (build : Build) (c : Collection handleImage) (start : Url)
    (k : ℕ) : Step Walk (ℕ × Walk) → Prop
  | .next walk' => At build c start (k + 1) walk' ∧ ¬ StopsAt build c start k
  | .done (size, walk') =>
      size = c.size ∧ walk'.visited.reverse = trail c.parent start (k + 1) ∧
        walk'.visited.Nodup ∧ StopsAt build c start k

section FirstVisit

variable (hurl : walk.currentUrl ∈ c.urls)
  (hnew : walk.currentUrl ∉ walk.visited)

include hurl hnew

theorem imageLoopBody_first (hsize : walk.imageSize = none) :
    imageLoopBody build handleImage walk =
      enterImage build (c.image walk.currentUrl) (c.parent walk.currentUrl)
        c.size { walk with
          visited := walk.currentUrl :: walk.visited
          idx := walk.idx + 1
          imageSize := some c.size
          uncovered := walk.uncovered.insert 0 c.sectors } := by
  unfold imageLoopBody
  simp only [hnew, if_false, c.answers _ hurl, Outcome.mapError,
    Outcome.ok_bind, c.sized _ hurl, hsize]
  rfl

theorem imageLoopBody_parent (hsize : walk.imageSize = some c.size) :
    imageLoopBody build handleImage walk =
      enterImage build (c.image walk.currentUrl) (c.parent walk.currentUrl)
        c.size { walk with
          visited := walk.currentUrl :: walk.visited
          idx := walk.idx + 1 } := by
  unfold imageLoopBody
  simp only [hnew, if_false, c.answers _ hurl, Outcome.mapError,
    Outcome.ok_bind, c.sized _ hurl, hsize, ne_eq, not_true_eq_false]

end FirstVisit

/-- An iteration enters the image into a prepared walk. -/
theorem At.prepared (hstart : start ∈ c.urls) (h : At build c start k walk)
    (hnew : walk.currentUrl ∉ walk.visited) :
    ∃ walk', Prepared build c walk' ∧ walk'.extents = walk.extents ∧
      walk'.visited = walk.currentUrl :: walk.visited ∧
      imageLoopBody build handleImage walk =
        enterImage build (c.image walk.currentUrl) (c.parent walk.currentUrl)
          c.size walk' := by
  have hurl := h.mem_urls hstart
  rcases h.standing with rfl | hprepared
  · refine ⟨{ Walk.start start with
      visited := [start]
      idx := 1
      imageSize := some c.size
      uncovered := c.whole }, ?_, rfl, rfl,
        imageLoopBody_first hurl hnew rfl⟩
    exact {
      imageSize := rfl
      charted := charted_start c.sectors
      uncovered := rfl
      incomplete := emptied_nil.not.mpr c.whole_not_isEmpty }
  · refine ⟨{ walk with
      visited := walk.currentUrl :: walk.visited
      idx := walk.idx + 1 }, ?_, rfl, rfl,
        imageLoopBody_parent hurl hnew hprepared.imageSize⟩
    exact ⟨hprepared.imageSize, hprepared.charted, hprepared.uncovered,
      hprepared.incomplete⟩

theorem At.imageLoopBody_moved (hstart : start ∈ c.urls)
    (h : At build c start k walk) (hnew : walk.currentUrl ∉ walk.visited) :
    ∃ step, imageLoopBody build handleImage walk = .ok step ∧
      Moved build c start k step := by
  have hurl := h.mem_urls hstart
  obtain ⟨ready, hprepared, hexs, hready, hbody⟩ := h.prepared hstart hnew
  obtain ⟨step, henter, hentered⟩ := enterImage_entered hurl hprepared
  have hvisited : (walk.currentUrl :: walk.visited).reverse =
      trail c.parent start (k + 1) := by
    rw [List.reverse_cons, h.visited, trail_succ h.current]
  have hnodup : (walk.currentUrl :: walk.visited).Nodup := by
    refine List.nodup_cons.mpr ⟨hnew, ?_⟩
    rw [← List.nodup_reverse, h.visited]
    exact h.nodup
  have hextents : ready.extents ++ (c.image walk.currentUrl).extents =
      c.extentsTo start (k + 1) := by
    rw [extentsTo_succ h.current, hexs, h.extents]
  refine ⟨step, hbody.trans henter, ?_⟩
  cases step with
  | next walk' =>
      obtain ⟨hparent, hsame, hmore, hstill⟩ := hentered
      rw [hextents] at hmore
      refine ⟨{
        current := by rw [nthAfter_succ h.current, hparent]
        visited := by rw [hsame, hready, hvisited]
        nodup := by rwa [← hvisited, List.nodup_reverse]
        extents := hmore
        standing := Or.inr hstill }, ?_⟩
      rintro ⟨url, hat, hempty | hnone⟩
      · exact hstill.incomplete (hmore ▸ hempty)
      · obtain rfl := Option.some.inj (h.current.symm.trans hat)
        simp [hparent] at hnone
  | done result =>
      obtain ⟨size, walk'⟩ := result
      obtain ⟨hsize, hsame, hstops⟩ := hentered
      rw [hextents] at hstops
      refine ⟨hsize, ?_, ?_, walk.currentUrl, h.current, hstops⟩
      · rw [hsame, hready, hvisited]
      · rw [hsame, hready]
        exact hnodup

/-! ## The whole walk -/

def Ends (build : Build) (c : Collection handleImage) (start : Url) :
    Outcome OpenError (ℕ × Walk) → Prop
  | .error e => ∃ k url, e = ⟨url, .parentChainCycle url⟩ ∧
      nthAfter c.parent start k = some url ∧
      url ∈ trail c.parent start k ∧
      ¬ Emptied build (c.extentsTo start k) c.whole
  | .ok (size, walk) => size = c.size ∧ ∃ k,
      walk.visited.reverse = trail c.parent start (k + 1) ∧
        walk.visited.Nodup ∧ StopsAt build c start k ∧
        ∀ j < k, ¬ StopsAt build c start j
  | _ => False

/-- The walk stands before an image, and has not stopped before. -/
def Underway (build : Build) (c : Collection handleImage) (start : Url)
    (walk : Walk) : Prop :=
  ∃ k, At build c start k walk ∧ ∀ j < k, ¬ StopsAt build c start j

theorem underway_start (build : Build) (c : Collection handleImage)
    (start : Url) : Underway build c start (Walk.start start) :=
  ⟨0, at_start build c start, by simp⟩

theorem imageLoopBody_of_back (hback : walk.currentUrl ∈ walk.visited) :
    imageLoopBody build handleImage walk =
      .error ⟨walk.currentUrl, .parentChainCycle walk.currentUrl⟩ := by
  unfold imageLoopBody
  exact if_pos hback

/-- An iteration which goes on has read one more image of the collection. -/
theorem Underway.next {walk' : Walk} (hstart : start ∈ c.urls)
    (h : Underway build c start walk)
    (hbody : imageLoopBody build handleImage walk = .ok (.next walk')) :
    Underway build c start walk' ∧
      walk.visited.length < walk'.visited.length ∧
      walk'.visited.length ≤ c.urls.card := by
  obtain ⟨k, hat, hgone⟩ := h
  have hnew : walk.currentUrl ∉ walk.visited := by
    intro hback
    simp [imageLoopBody_of_back hback] at hbody
  obtain ⟨step, hstep, hmoved⟩ := hat.imageLoopBody_moved hstart hnew
  obtain rfl := Outcome.ok.inj (hbody.symm.trans hstep)
  obtain ⟨hat', hnot⟩ := hmoved
  have hlength : walk.visited.length = k := by
    rw [← List.length_reverse, hat.visited, length_trail hat.current]
  have hlength' : walk'.visited.length = k + 1 := by
    rw [← List.length_reverse, hat'.visited, length_trail hat'.current]
  have hle := le_card_of_nodup_trail c.resolves hstart hat'.current hat'.nodup
  refine ⟨⟨k + 1, hat', ?_⟩, by omega, by omega⟩
  intro j hj
  rcases Nat.lt_succ_iff_lt_or_eq.mp hj with hlt | rfl
  · exact hgone j hlt
  · exact hnot

theorem imageLoop_ends (build : Build) (hstart : start ∈ c.urls)
    (hfuel : c.urls.card < fuel) :
    Ends build c start
      (loop (imageLoopBody build handleImage) fuel (Walk.start start)) := by
  refine loop_rule (Underway build c start)
    (fun walk => c.urls.card - walk.visited.length)
    (Ends build c start) ?_ (underway_start build c start) ?_
  · intro walk h
    obtain ⟨k, hat, hgone⟩ := id h
    by_cases hback : walk.currentUrl ∈ walk.visited
    · rw [imageLoopBody_of_back hback]
      refine ⟨k, _, rfl, hat.current, ?_, hat.incomplete⟩
      rw [← hat.visited]
      exact List.mem_reverse.mpr hback
    · obtain ⟨step, hbody, hmoved⟩ := hat.imageLoopBody_moved hstart hback
      rw [hbody]
      cases step with
      | next walk' =>
          obtain ⟨hunderway, hlt, hle⟩ := h.next hstart hbody
          exact ⟨hunderway, Nat.sub_lt_sub_left (by omega) hlt⟩
      | done result =>
          obtain ⟨hsize, hvisited, hnodup, hstops⟩ := hmoved
          exact ⟨hsize, k, hvisited, hnodup, hstops, hgone⟩
  · exact (Nat.sub_le _ _).trans_lt hfuel

/-- A walk which stops has not come back. -/
theorem not_comesBack (hstops : StopsAt build c start k)
    (hnodup : (trail c.parent start (k + 1)).Nodup) :
    ¬ ComesBack build c start := by
  rintro ⟨j, url, hat, hback, hopen⟩
  by_cases hle : j ≤ k
  · exact not_nodup_trail_of_mem hat hback (by omega : j < k + 1) hnodup
  · obtain ⟨last, hlast, hempty | hnone⟩ := hstops
    · exact hopen (hempty.mono (extentsTo_initial (by omega)))
    · obtain ⟨b, hb⟩ := exists_nthAfter_of_le hat (by omega : k + 1 ≤ j)
      rw [nthAfter_succ hlast, hnone] at hb
      simp at hb

theorem reaches_underway (hstart : start ∈ c.urls)
    (hreach : Reaches (imageLoopBody build handleImage) (Walk.start start)
      walk) : Underway build c start walk :=
  hreach.invariant (fun _ _ h hbody => (h.next hstart hbody).1)
    (underway_start build c start)

theorem At.visited_nodup (h : At build c start k walk) :
    walk.visited.Nodup := by
  rw [← List.nodup_reverse, h.visited]
  exact h.nodup

/-- The walk through the parents ends.  It reads no image twice, and it reads
the images of the trail in their order.  The open fails with a cycle exactly if
the parents come back to an image with something left uncovered; otherwise the
walk stops at the first image where it may. -/
theorem parent_walk_ends (build : Build) (c : Collection handleImage)
    (imagePath : String) (hstart : start ∈ c.urls)
    (hfuel : c.urls.card < fuel) :
    (∀ walk, Reaches (imageLoopBody build handleImage) (Walk.start start)
        walk →
      walk.visited.Nodup ∧
        ∃ k, walk.visited.reverse = trail c.parent start k) ∧
      ((∃ url, openWithOptions build handleImage fuel imagePath start =
          .error ⟨url, .parentChainCycle url⟩) ↔ ComesBack build c start) ∧
      (¬ ComesBack build c start → ∃ k walk reader,
        loop (imageLoopBody build handleImage) fuel (Walk.start start) =
            .ok (c.size, walk) ∧
          openWithOptions build handleImage fuel imagePath start =
            .ok reader ∧
          walk.visited.reverse = trail c.parent start (k + 1) ∧
          walk.visited.Nodup ∧ StopsAt build c start k ∧
          ∀ j < k, ¬ StopsAt build c start j) := by
  have hends := imageLoop_ends build hstart hfuel
  refine ⟨?_, ?_⟩
  · intro walk hreach
    obtain ⟨k, hat, -⟩ := reaches_underway hstart hreach
    exact ⟨hat.visited_nodup, k, hat.visited⟩
  cases hloop : loop (imageLoopBody build handleImage) fuel
      (Walk.start start) with
  | ok result =>
      obtain ⟨size, walk⟩ := result
      rw [hloop] at hends
      obtain ⟨rfl, k, hvisited, hnodup, hstops, hgone⟩ := hends
      have htrail : (trail c.parent start (k + 1)).Nodup := by
        rwa [← hvisited, List.nodup_reverse]
      obtain ⟨reader, _, _, _, hopen, -⟩ :=
        openWithOptions_of_loop imagePath hloop
      refine ⟨iff_of_false ?_ (not_comesBack hstops htrail), fun _ => ?_⟩
      · simp [hopen]
      · exact ⟨k, walk, reader, rfl, hopen, hvisited, hnodup, hstops, hgone⟩
  | error e =>
      rw [hloop] at hends
      obtain ⟨k, url, rfl, hat, hback, hopen⟩ := hends
      have hcomes : ComesBack build c start := ⟨k, url, hat, hback, hopen⟩
      have herror : openWithOptions build handleImage fuel imagePath start =
          .error ⟨url, .parentChainCycle url⟩ := by
        unfold openWithOptions
        rw [hloop]
        rfl
      exact ⟨iff_of_true ⟨url, herror⟩ hcomes, fun h => absurd hcomes h⟩
  | panic fault =>
      rw [hloop] at hends
      exact hends.elim
  | hang =>
      rw [hloop] at hends
      exact hends.elim

/-- Two images without extents which name each other as parents. -/
def mutualParents : HandleImage := fun url _ =>
  .ok (⟨[], by simp, trivial⟩,
    some (if url = "a.vmdk" then "b.vmdk" else "a.vmdk"))

def mutualCollection : Collection mutualParents where
  urls := {"a.vmdk", "b.vmdk"}
  image _ := ⟨[], by simp, trivial⟩
  parent url := some (if url = "a.vmdk" then "b.vmdk" else "a.vmdk")
  size := 0
  answers _ _ _ := rfl
  sized _ _ := rfl
  resolves := by
    rintro url - parentUrl hparent
    obtain rfl := Option.some.inj hparent
    split_ifs <;> simp

theorem parent_walk_ends_mutual :
    (∀ walk, Reaches (imageLoopBody .dev mutualParents)
        (Walk.start "a.vmdk") walk →
      walk.visited.Nodup ∧ ∃ k, walk.visited.reverse =
        trail mutualCollection.parent "a.vmdk" k) ∧
      ((∃ url, openWithOptions .dev mutualParents 3 "a.vmdk" "a.vmdk" =
          .error ⟨url, .parentChainCycle url⟩) ↔
        ComesBack .dev mutualCollection "a.vmdk") ∧
      (¬ ComesBack .dev mutualCollection "a.vmdk" → ∃ k walk reader,
        loop (imageLoopBody .dev mutualParents) 3 (Walk.start "a.vmdk") =
            .ok (mutualCollection.size, walk) ∧
          openWithOptions .dev mutualParents 3 "a.vmdk" "a.vmdk" =
            .ok reader ∧
          walk.visited.reverse =
            trail mutualCollection.parent "a.vmdk" (k + 1) ∧
          walk.visited.Nodup ∧ StopsAt .dev mutualCollection "a.vmdk" k ∧
          ∀ j < k, ¬ StopsAt .dev mutualCollection "a.vmdk" j) :=
  parent_walk_ends .dev mutualCollection "a.vmdk" (by decide) (by decide)

end Collection

end Vmdk
end ImageReader
