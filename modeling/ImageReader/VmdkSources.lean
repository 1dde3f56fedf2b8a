import ImageReader.VmdkHandleImage

/-!
# The sources of a chain

The index under which a file is registered with the cache is counted in three
places.  `Uses` says that a step which is given an index registers the
following ones, one after the other, and that an extent which has a file has
been made for a source registered before it.
-/

namespace ImageReader
namespace Vmdk

theorem cachedUnder_eq_none {events : List CacheEvent} {idx : ℕ}
    (hnew : idx ∉ addedIndices events) : cachedUnder idx events = none := by
  induction events with
  | nil => rfl
  | cons event events ih =>
      cases event with
      | addSource i url src =>
          rw [addedIndices_addSource, List.mem_cons, not_or] at hnew
          rw [cachedUnder, ih hnew.2, if_neg (Ne.symm hnew.1)]
          rfl
      | pushExtent opened => exact ih hnew

/-- A source stays where it has been registered, as long as no index is used
twice. -/
theorem cachedUnder_of_nodup {events : List CacheEvent} {idx : ℕ} {url : Url}
    {src : BackingFile} (hnodup : (addedIndices events).Nodup)
    (hadded : .addSource idx url src ∈ events) :
    cachedUnder idx events = some src := by
  induction events with
  | nil => simp at hadded
  | cons event events ih =>
      cases event with
      | addSource i url' src' =>
          rw [addedIndices_addSource, List.nodup_cons] at hnodup
          rcases List.mem_cons.mp hadded with heq | hlater
          · obtain ⟨rfl, rfl, rfl⟩ := CacheEvent.addSource.inj heq
            rw [cachedUnder, cachedUnder_eq_none hnodup.1, if_pos rfl]
            rfl
          · rw [cachedUnder, ih hnodup.2 hlater]
            rfl
      | pushExtent opened =>
          have hlater : .addSource idx url src ∈ events := by simpa using hadded
          exact ih hnodup hlater

/-! ## The loop over the images -/

namespace Caching

open Registers

section Loop

variable (build : Build) (store : Store)

/-- One iteration of the image loop; behind `handle_image` it registers
nothing. -/
def imageLoopBody (walk : Walk) : Registers (Step Walk (ℕ × Walk)) where
  events :=
    if walk.currentUrl ∈ walk.visited then []
    else (handleImageFiles build store walk.currentUrl walk.idx).events
  result := Vmdk.imageLoopBody build (handleImage build store) walk

def imageLoop : ℕ → Walk → Registers (ℕ × Walk)
  | 0, _ => lift .hang
  | fuel + 1, walk => do
      match ← imageLoopBody build store walk with
      | .next walk => imageLoop fuel walk
      | .done result => pure result

end Loop

theorem imageLoop_result (build : Build) (store : Store) (fuel : ℕ)
    (walk : Walk) :
    (imageLoop build store fuel walk).result =
      loop (Vmdk.imageLoopBody build (handleImage build store)) fuel walk := by
  induction fuel generalizing walk with
  | zero => rfl
  | succ fuel ih =>
      unfold imageLoop loop
      simp only [Registers.result_bind, imageLoopBody]
      cases Vmdk.imageLoopBody build (handleImage build store) walk with
      | ok step =>
          cases step with
          | next walk' => exact ih walk'
          | done result => rfl
      | error e => rfl
      | panic fault => rfl
      | hang => rfl

end Caching

/-! ## Indices in order -/

/-- The bytes behind a storage. -/
def ExtentStorage.backing : ExtentStorage → Option BackingFile
  | .sparse storage => some storage.source
  | .flat storage => some storage.source
  | .zero => none

/-- An extent with a file reads the file whose source has been registered
under its index. -/
def OpenedExtent.Registered (store : Store) (events : List CacheEvent)
    (opened : OpenedExtent) : Prop :=
  opened.extent.hasFile = true →
    ∃ idx url src, opened.registered = some (idx, url) ∧
      opened.extent.storage.backing = some src ∧
      store.sourceForUrl url = .ok src ∧ .addSource idx url src ∈ events

theorem OpenedExtent.Registered.mono {store : Store} {opened : OpenedExtent}
    {events events' : List CacheEvent}
    (h : opened.Registered store events) (hsub : events ⊆ events') :
    opened.Registered store events' := by
  intro hfile
  obtain ⟨idx, url, src, hidx, hbacking, hsource, hadded⟩ := h hfile
  exact ⟨idx, url, src, hidx, hbacking, hsource, hsub hadded⟩

/-- The indices from `idx` on are used one after the other, and at any time
the extents made so far are registered. -/
structure InOrder (store : Store) (idx : ℕ) (events : List CacheEvent) :
    Prop where
  indices : addedIndices events =
    List.range' idx (addedIndices events).length
  registered : ∀ k opened, .pushExtent opened ∈ events.take k →
    opened.Registered store (events.take k)

section Order

variable {store : Store} {idx : ℕ} {events : List CacheEvent}

theorem inOrder_nil (store : Store) (idx : ℕ) : InOrder store idx [] :=
  ⟨rfl, by simp⟩

theorem inOrder_addSource (store : Store) (idx : ℕ) (url : Url)
    (src : BackingFile) : InOrder store idx [.addSource idx url src] := by
  refine ⟨rfl, ?_⟩
  intro k opened hopened
  have := List.mem_of_mem_take hopened
  simp at this

theorem inOrder_pushExtent (idx : ℕ) {opened : OpenedExtent}
    (h : opened.Registered store []) :
    InOrder store idx [.pushExtent opened] := by
  refine ⟨rfl, ?_⟩
  intro k opened' hopened
  obtain rfl : opened' = opened := by
    simpa using List.mem_of_mem_take hopened
  exact h.mono (List.nil_subset _)

/-- A source, and the extent which is made for it. -/
theorem inOrder_register {idx startSector sectors : ℕ} {url : Url}
    {src : BackingFile} {storage : ExtentStorage}
    (hsource : store.sourceForUrl url = .ok src)
    (hbacking : storage.backing = some src) :
    InOrder store idx [.addSource idx url src,
      .pushExtent ⟨⟨startSector, sectors, storage⟩, some (idx, url)⟩] := by
  refine ⟨rfl, ?_⟩
  rintro (_ | _ | k) opened hopened _
  · simp at hopened
  · simp at hopened
  · obtain rfl : opened =
        ⟨⟨startSector, sectors, storage⟩, some (idx, url)⟩ := by
      simpa using hopened
    exact ⟨idx, url, src, rfl, hbacking, hsource, by simp⟩

theorem InOrder.append {more : List CacheEvent}
    (h : InOrder store idx events)
    (hmore : InOrder store (idx + (addedIndices events).length) more) :
    InOrder store idx (events ++ more) where
  indices := by
    rw [addedIndices_append, List.length_append, ← List.range'_append_1,
      ← h.indices, ← hmore.indices]
  registered := by
    intro k opened hopened
    rw [List.take_append] at hopened ⊢
    rcases List.mem_append.mp hopened with hopened | hopened
    · exact (h.registered k opened hopened).mono (List.subset_append_left _ _)
    · exact (hmore.registered _ opened hopened).mono
        (List.subset_append_right _ _)

theorem InOrder.nodup (h : InOrder store idx events) :
    (addedIndices events).Nodup := by
  rw [h.indices]
  exact List.nodup_range'

/-- At any time after an extent with a file has been made, the cache has the
extent's own source under its index. -/
theorem InOrder.cached (h : InOrder store idx events) {k : ℕ}
    {opened : OpenedExtent} (hopened : .pushExtent opened ∈ events.take k)
    (hfile : opened.extent.hasFile = true) :
    ∃ i url src, opened.registered = some (i, url) ∧
      opened.extent.storage.backing = some src ∧
      store.sourceForUrl url = .ok src ∧
      ∀ l, k ≤ l → cachedUnder i (events.take l) = some src := by
  obtain ⟨i, url, src, hidx, hbacking, hsource, hadded⟩ :=
    h.registered k opened hopened hfile
  refine ⟨i, url, src, hidx, hbacking, hsource, ?_⟩
  intro l hl
  have hsub : (events.take k).Sublist (events.take l) :=
    (List.take_prefix_take_left hl).sublist
  have hnodup : (addedIndices (events.take l)).Nodup :=
    h.nodup.sublist ((List.take_sublist l events).filterMap _)
  exact cachedUnder_of_nodup hnodup (hsub.subset hadded)

end Order

namespace Registers

variable {α β : Type} {store : Store} {idx : ℕ}

/-- A step which is given `idx` registers in order from `idx` on; `Post` is
about its value, the next index, and the extents it has made. -/
def Uses (store : Store) (idx : ℕ) (x : Registers α)
    (Post : α → ℕ → List OpenedExtent → Prop) : Prop :=
  InOrder store idx x.events ∧
    ∀ a, x.result = .ok a →
      Post a (idx + (addedIndices x.events).length) (pushedExtents x.events)

theorem uses_lift {x : Outcome OpenError α}
    {Post : α → ℕ → List OpenedExtent → Prop}
    (h : ∀ a, x = .ok a → Post a idx []) : (lift x).Uses store idx Post :=
  ⟨inOrder_nil store idx, h⟩

theorem uses_pure {a : α} {Post : α → ℕ → List OpenedExtent → Prop}
    (h : Post a idx []) : (pure a : Registers α).Uses store idx Post := by
  apply uses_lift
  intro a' heq
  obtain rfl := Outcome.ok.inj heq
  exact h

theorem uses_addSource (store : Store) (idx : ℕ) (url : Url)
    (src : BackingFile) :
    (addSource idx url src).Uses store idx
      fun _ idx' pushed => idx' = idx + 1 ∧ pushed = [] :=
  ⟨inOrder_addSource store idx url src, fun _ _ => ⟨rfl, rfl⟩⟩

theorem Uses.bind {x : Registers α} {f : α → Registers β}
    (Mid : α → ℕ → List OpenedExtent → Prop)
    {Post : β → ℕ → List OpenedExtent → Prop}
    (hx : x.Uses store idx Mid)
    (hf : ∀ a idx' pushed, x.result = .ok a → Mid a idx' pushed →
      (f a).Uses store idx' fun b idx'' pushed' =>
        Post b idx'' (pushed ++ pushed')) :
    (x >>= f).Uses store idx Post := by
  obtain ⟨horder, hmid⟩ := hx
  show (Registers.bind x f).Uses store idx Post
  unfold Registers.bind Uses
  simp only
  cases hcase : x.result with
  | ok a =>
      obtain ⟨horder', hpost⟩ := hf a _ _ hcase (hmid a hcase)
      refine ⟨horder.append horder', ?_⟩
      intro b hb
      rw [addedIndices_append, pushedExtents_append, List.length_append,
        ← Nat.add_assoc]
      exact hpost b hb
  | error e => exact ⟨by simpa using horder, by simp⟩
  | panic fault => exact ⟨by simpa using horder, by simp⟩
  | hang => exact ⟨by simpa using horder, by simp⟩

theorem Uses.lift_bind {x : Outcome OpenError α} {f : α → Registers β}
    {Post : β → ℕ → List OpenedExtent → Prop}
    (hf : ∀ a, x = .ok a → (f a).Uses store idx Post) :
    (lift x >>= f).Uses store idx Post := by
  refine Uses.bind (fun a idx' pushed => idx = idx' ∧ pushed = [] ∧
    x = .ok a) (uses_lift fun a ha => ⟨rfl, rfl, ha⟩) ?_
  rintro a _ _ _ ⟨rfl, rfl, ha⟩
  exact hf a ha

theorem Uses.mono {x : Registers α}
    {Post Post' : α → ℕ → List OpenedExtent → Prop}
    (h : x.Uses store idx Post)
    (himp : ∀ a idx' pushed, x.result = .ok a → Post a idx' pushed →
      Post' a idx' pushed) : x.Uses store idx Post' :=
  ⟨h.1, fun a ha => himp a _ _ ha (h.2 a ha)⟩

end Registers

/-! ## The open code registers in order -/

section Open

variable {build : Build} {store : Store}

theorem readExtent_backing {ed : ExtentDescription} {startSector : ℕ}
    {filename : Text} {src : BackingFile} {storage : ExtentStorage}
    (hopen : readExtent build ed startSector filename src = .ok storage) :
    storage.backing = some src := by
  have hsparse : ∀ {x : Outcome OpenError ExtentStorage},
      x = .ok storage → (x = readSparseExtent build startSector filename src ∨
        x = readSeSparseExtent build startSector filename src) →
      storage.backing = some src := by
    rintro x hx (rfl | rfl)
    · unfold readSparseExtent at hx
      obtain ⟨_, _, hx⟩ := Outcome.bind_eq_ok.mp hx
      obtain ⟨_, _, hx⟩ := Outcome.bind_eq_ok.mp hx
      obtain rfl := Outcome.ok.inj hx
      rfl
    · unfold readSeSparseExtent at hx
      obtain ⟨_, _, hx⟩ := Outcome.bind_eq_ok.mp hx
      obtain ⟨_, _, hx⟩ := Outcome.bind_eq_ok.mp hx
      obtain rfl := Outcome.ok.inj hx
      rfl
  unfold readExtent at hopen
  cases hkind : ed.kind <;> simp only [hkind] at hopen
  case sparse => exact hsparse hopen (Or.inl rfl)
  case vmfsSparse => exact hsparse hopen (Or.inl rfl)
  case seSparse => exact hsparse hopen (Or.inr rfl)
  case flat =>
    obtain rfl := Outcome.ok.inj hopen
    rfl
  case vmfs =>
    obtain rfl := Outcome.ok.inj hopen
    rfl
  all_goals simp at hopen

theorem hasFile_of_backing {ex : Extent} {src : BackingFile}
    (h : ex.storage.backing = some src) : ex.hasFile = true := by
  unfold Extent.hasFile
  cases hstorage : ex.storage with
  | zero => simp [hstorage, ExtentStorage.backing] at h
  | sparse storage => rfl
  | flat storage => rfl

theorem extentSource_source {imageUrl edUrl url : Url} {bin : Bool}
    {src : BackingFile}
    (h : store.extentSource imageUrl edUrl bin = .ok (url, src)) :
    store.sourceForUrl url = .ok src := by
  unfold Store.extentSource at h
  cases hed : store.sourceForUrl edUrl with
  | ok src' =>
      simp only [hed] at h
      obtain ⟨rfl, rfl⟩ := Prod.mk.inj (Outcome.ok.inj h)
      exact hed
  | error e =>
      simp only [hed] at h
      split_ifs at h
      obtain ⟨src', himage, h⟩ := Outcome.bind_eq_ok.mp h
      obtain ⟨rfl, rfl⟩ := Prod.mk.inj (Outcome.ok.inj h)
      exact himage
  | panic fault => simp [hed] at h
  | hang => simp [hed] at h

namespace Caching

open Registers

theorem uses_registerExtent {idx startSector sectors : ℕ} {url : Url}
    {src : BackingFile} (hsource : store.sourceForUrl url = .ok src)
    {opening : Outcome OpenError ExtentStorage}
    (hbacking : ∀ storage, opening = .ok storage →
      storage.backing = some src) :
    (do
      addSource idx url src
      let storage ← lift opening
      pushExtent ⟨⟨startSector, sectors, storage⟩, some (idx, url)⟩ :
        Registers OpenedExtent).Uses store idx fun opened idx' pushed =>
      idx' = idx + 1 ∧ pushed = [opened] ∧ opened.extent.hasFile = true := by
  cases opening with
  | ok storage =>
      have hstorage := hbacking storage rfl
      refine ⟨inOrder_register hsource hstorage, ?_⟩
      intro opened hopened
      obtain rfl := Outcome.ok.inj hopened
      exact ⟨rfl, rfl, hasFile_of_backing hstorage⟩
  | error e => exact ⟨inOrder_addSource store idx url src, nofun⟩
  | panic fault => exact ⟨inOrder_addSource store idx url src, nofun⟩
  | hang => exact ⟨inOrder_addSource store idx url src, nofun⟩

theorem readExtentFile_uses (imageUrl : Url) (bin : Bool)
    (ed : ExtentDescription) (filename : Text) (startSector idx : ℕ) :
    (readExtentFile build store imageUrl bin ed filename startSector
        idx).Uses store idx fun opened idx' pushed =>
      idx' = idx + 1 ∧ pushed = [opened] ∧
        opened.extent.hasFile = true := by
  unfold readExtentFile
  apply Uses.lift_bind
  intro edUrl _
  apply Uses.lift_bind
  rintro ⟨url, src⟩ hsource
  apply uses_registerExtent (extentSource_source hsource)
  intro storage hread
  exact readExtent_backing (Outcome.mapError_eq_ok.mp hread)

theorem readExtentOf_uses (imageUrl : Url) (bin : Bool)
    (ed : ExtentDescription) (startSector idx : ℕ) :
    (readExtentOf build store imageUrl bin ed startSector idx).Uses store idx
      fun result idx' pushed => idx' = result.2 ∧ pushed = [result.1] ∧
        result.2 =
          idx + [result.1.extent].countP Extent.hasFile := by
  unfold readExtentOf
  cases ed.filename with
  | none =>
      refine ⟨?_, ?_⟩
      · apply inOrder_pushExtent
        intro hfile
        simp [Extent.hasFile] at hfile
      · intro result hresult
        obtain rfl := Outcome.ok.inj hresult
        exact ⟨rfl, rfl, rfl⟩
  | some filename =>
      refine Uses.bind _
        (readExtentFile_uses imageUrl bin ed filename startSector idx) ?_
      rintro opened _ _ _ ⟨rfl, rfl, hfile⟩
      exact uses_pure ⟨rfl, rfl, by simp [hfile]⟩

theorem readExtents_uses (imageUrl : Url) (bin : Bool)
    (eds : List ExtentDescription) (startSector idx : ℕ) :
    (readExtents build store imageUrl bin eds startSector idx).Uses store idx
      fun opened idx' pushed => pushed = opened ∧
        idx' = idx + (opened.map OpenedExtent.extent).countP Extent.hasFile := by
  induction eds generalizing startSector idx with
  | nil => exact uses_pure ⟨rfl, rfl⟩
  | cons ed eds ih =>
      refine Uses.bind _ (readExtentOf_uses imageUrl bin ed startSector idx) ?_
      rintro ⟨opened, idx'⟩ next _ _ ⟨rfl, rfl, hnext⟩
      apply Uses.lift_bind
      intro startSector' _
      refine Uses.bind _ (ih startSector' next) ?_
      rintro rest _ _ _ ⟨rfl, rfl⟩
      apply uses_pure
      refine ⟨by simp, ?_⟩
      rw [List.map_cons, ← List.singleton_append, List.countP_append]
      simp only at hnext
      omega

theorem handleImageFiles_uses (build : Build) (store : Store) (url : Url) (idx : ℕ) :
    (handleImageFiles build store url idx).Uses store idx
      fun result idx' pushed => pushed = result.1 ∧
        idx' = idx + 1 +
          (result.1.map OpenedExtent.extent).countP Extent.hasFile := by
  unfold handleImageFiles
  apply Uses.lift_bind
  intro src _
  refine Uses.bind _ (uses_addSource store idx url src) ?_
  rintro _ _ _ _ ⟨rfl, rfl⟩
  apply Uses.lift_bind
  intro ft _
  apply Uses.lift_bind
  intro descriptor _
  apply Uses.lift_bind
  intro eds _
  refine Uses.bind _ (readExtents_uses url _ eds 0 (idx + 1)) ?_
  rintro extents _ _ _ ⟨rfl, rfl⟩
  apply Uses.lift_bind
  intro parent _
  exact uses_pure ⟨by simp, rfl⟩

end Caching

/-! ## The image loop -/

/-- How the extents of an image enter the walk. -/
def Entering (list : List Extent) (walk : Walk) : Step Walk Walk → Prop
  | .next walk' => walk'.extents = walk.extents ++ list ∧
      walk'.idx = walk.idx + list.countP Extent.hasFile
  | .done walk' => walk'.extents <+: walk.extents ++ list

theorem addExtents_entering {list : List Extent} {walk : Walk}
    {step : Step Walk Walk}
    (hadd : (addExtents build list walk : Outcome OpenError _) = .ok step) :
    Entering list walk step := by
  induction list generalizing walk with
  | nil =>
      obtain rfl := Outcome.ok.inj hadd
      simp [Entering]
  | cons ex rest ih =>
      unfold addExtents at hadd
      obtain ⟨spans, _, hadd⟩ := Outcome.bind_eq_ok.mp hadd
      obtain ⟨⟨spans', uncovered'⟩, _, hadd⟩ := Outcome.bind_eq_ok.mp hadd
      simp only at hadd
      by_cases hempty : uncovered'.isEmpty = true
      · rw [if_pos hempty] at hadd
        obtain rfl := Outcome.ok.inj hadd
        simp [Entering]
      · rw [if_neg hempty] at hadd
        have hrest := ih hadd
        cases step with
        | next walk' =>
            obtain ⟨hexs, hidx⟩ := hrest
            refine ⟨by simp [hexs], ?_⟩
            rw [hidx, List.countP_cons]
            cases ex.hasFile with
            | true =>
                simp only [if_true]
                omega
            | false => simp
        | done walk' => simpa [Entering] using hrest

/-- What an iteration leaves behind, when it has made `pushed` and `idx` is
the next index. -/
def Progress (walk : Walk) (idx : ℕ) (pushed : List OpenedExtent) :
    Step Walk (ℕ × Walk) → Prop
  | .next walk' => walk'.idx = idx ∧
      walk'.extents = walk.extents ++ pushed.map OpenedExtent.extent
  | .done result =>
      result.2.extents <+: walk.extents ++ pushed.map OpenedExtent.extent

theorem enterImage_progress {img : ImageExtents} {parent : Option Url}
    {size : ℕ} {walk : Walk} {step : Step Walk (ℕ × Walk)}
    {pushed : List OpenedExtent}
    (hpushed : pushed.map OpenedExtent.extent = img.extents)
    (henter : enterImage build img parent size walk = .ok step) :
    Progress walk (walk.idx + img.extents.countP Extent.hasFile) pushed
      step := by
  unfold enterImage at henter
  obtain ⟨entered, hadd, henter⟩ := Outcome.bind_eq_ok.mp henter
  have hentering := addExtents_entering hadd
  cases entered with
  | done walk' =>
      obtain rfl := Outcome.ok.inj henter
      simpa [Progress, hpushed, Entering] using hentering
  | next walk' =>
      obtain ⟨hexs, hidx⟩ := hentering
      cases parent with
      | none =>
          obtain rfl := Outcome.ok.inj henter
          simp [Progress, hpushed, hexs]
      | some url =>
          obtain rfl := Outcome.ok.inj henter
          exact ⟨hidx, by simp [hpushed, hexs]⟩

theorem imageLoopBody_progress {walk : Walk} {step : Step Walk (ℕ × Walk)}
    (hbody : imageLoopBody build (handleImage build store) walk = .ok step) :
    walk.currentUrl ∉ walk.visited ∧
      ∃ opened parent,
        (handleImageFiles build store walk.currentUrl walk.idx).result =
          .ok (opened, parent) ∧
        Progress walk (walk.idx + 1 +
          (opened.map OpenedExtent.extent).countP Extent.hasFile) opened
          step := by
  unfold imageLoopBody at hbody
  simp only at hbody
  split_ifs at hbody with hvisited
  obtain ⟨⟨img, parent⟩, hhandle, hbody⟩ := Outcome.bind_eq_ok.mp hbody
  obtain ⟨opened, hopened, hextents⟩ :=
    handleImage_eq_ok.mp (Outcome.mapError_eq_ok.mp hhandle)
  refine ⟨hvisited, opened, parent, hopened, ?_⟩
  rw [hextents]
  cases hbytes : imageBytes img.extents with
  | none => simp [hbytes] at hbody
  | some size =>
      simp only [hbytes] at hbody
      cases hsize : walk.imageSize with
      | none =>
          simp only [hsize] at hbody
          exact enterImage_progress hextents hbody
      | some expected =>
          simp only [hsize] at hbody
          split_ifs at hbody
          exact enterImage_progress hextents hbody

namespace Caching

open Registers

theorem imageLoopBody_uses (build : Build) (store : Store) (walk : Walk) :
    (imageLoopBody build store walk).Uses store walk.idx
      fun step idx' pushed => Progress walk idx' pushed step := by
  have hfiles := handleImageFiles_uses build store walk.currentUrl walk.idx
  constructor
  · unfold imageLoopBody
    split_ifs
    · exact inOrder_nil store walk.idx
    · exact hfiles.1
  · intro step hstep
    obtain ⟨hvisited, opened, parent, hopened, hprogress⟩ :=
      imageLoopBody_progress hstep
    obtain ⟨hpushed, hidx⟩ :=
      hfiles.2 (opened, parent) hopened
    unfold imageLoopBody
    rw [if_neg hvisited, hpushed, hidx]
    exact hprogress

theorem imageLoop_uses (build : Build) (store : Store) (fuel : ℕ) (walk : Walk) :
    (imageLoop build store fuel walk).Uses store walk.idx
      fun result _ pushed => result.2.extents <+:
        walk.extents ++ pushed.map OpenedExtent.extent := by
  induction fuel generalizing walk with
  | zero => exact uses_lift nofun
  | succ fuel ih =>
      unfold imageLoop
      refine Uses.bind _ (imageLoopBody_uses build store walk) ?_
      rintro (walk' | result) idx' pushed _ hprogress
      · obtain ⟨rfl, hexs⟩ := hprogress
        refine (ih walk').mono ?_
        intro result _ pushed' _ hresult
        rw [hexs] at hresult
        simpa using hresult
      · exact uses_pure (by simpa [Progress] using hprogress)

/-- Opening a chain never uses an index twice, an extent with a file reads
the source which was registered under its index, at any time after it has
been made, and the extents of the reader are among the ones made. -/
theorem imageLoop_sources (build : Build) (store : Store) (url : Url)
    (fuel : ℕ) :
    let run := imageLoop build store fuel (Walk.start url)
    (addedIndices run.events).Nodup ∧
      (∀ k opened, .pushExtent opened ∈ run.events.take k →
        opened.extent.hasFile = true →
        ∃ i url src, opened.registered = some (i, url) ∧
          opened.extent.storage.backing = some src ∧
          store.sourceForUrl url = .ok src ∧
          ∀ l, k ≤ l → cachedUnder i (run.events.take l) = some src) ∧
      run.result =
        loop (Vmdk.imageLoopBody build (handleImage build store)) fuel
          (Walk.start url) ∧
      ∀ size walk, run.result = .ok (size, walk) →
        walk.extents <+:
          (pushedExtents run.events).map OpenedExtent.extent := by
  intro run
  obtain ⟨horder, hextents⟩ := imageLoop_uses build store fuel (Walk.start url)
  refine ⟨horder.nodup, fun k opened hopened hfile =>
    horder.cached hopened hfile, imageLoop_result build store fuel _, ?_⟩
  intro size walk hrun
  exact hextents (size, walk) hrun

end Caching

end Open

end Vmdk
end ImageReader
