import ImageReader.E01Segment

/-!
# The chunks of a segment

A run of the iterator is the list of sections it visits before the first done
section, with their offsets.  `tableOf` says what one of them brings to the
chunks of the segment, with the bounds the reader relies on.
-/

namespace ImageReader
namespace E01

/-! ## Closing a table -/

theorem closeLast_append_singleton (endOfSectors : ℕ) (chunks : List Chunk)
    (ch : Chunk) :
    closeLast endOfSectors (chunks ++ [ch]) =
      chunks ++ [{ ch with endOffset := endOfSectors }] := by
  unfold closeLast
  rw [List.length_append, List.length_singleton, Nat.add_sub_cancel]
  induction chunks with
  | nil => rfl
  | cons first rest ih => simpa using ih

theorem closeLast_append (endOfSectors : ℕ) (chunks : List Chunk) {t : List Chunk}
    (ht : t ≠ []) :
    closeLast endOfSectors (chunks ++ t) =
      chunks ++ closeLast endOfSectors t := by
  obtain ⟨init, last, rfl⟩ := List.eq_nil_or_concat' t |>.resolve_left ht
  rw [← List.append_assoc, closeLast_append_singleton,
    closeLast_append_singleton, List.append_assoc]

@[simp] theorem closeLast_nil (endOfSectors : ℕ) :
    closeLast endOfSectors [] = [] := rfl

/-! ## Runs of the iterator -/

/-- The iterator visits these sections, none of them done, and stands at
`stop`. -/
inductive Visits (build : Build) (io : BytesReader) (ignoreChecksums : Bool) :
    ℕ → List (ℕ × Section) → ℕ → Prop
  | nil (cur : ℕ) : Visits build io ignoreChecksums cur [] cur
  | cons {cur cur' stop : ℕ} {found : Section} {rest : List (ℕ × Section)}
      (hnext : nextSection build io ignoreChecksums cur =
        .ok (some (.ok found), cur'))
      (hnot : found ≠ .done)
      (hrest : Visits build io ignoreChecksums cur' rest stop) :
      Visits build io ignoreChecksums cur ((cur, found) :: rest) stop

section Runs

variable {build : Build} {io : BytesReader} {ignoreChecksums : Bool}
  {cur cur' stop : ℕ} {sections : List (ℕ × Section)}

/-- A section which the iterator yields stands in the file, and the iterator
moves forward. -/
theorem of_nextSection_eq_ok {found : Section}
    (hnext : nextSection build io ignoreChecksums cur =
      .ok (some (.ok found), cur')) :
    cur < io.size ∧ cur < cur' ∧ ∃ kind,
      ValidSection io ignoreChecksums cur kind ∧
        found = bodySection io.content (declaredSize io.content cur)
          (cur + 76) kind := by
  obtain ⟨h, -⟩ | ⟨hlt, -, _, hread, h, rfl⟩ | ⟨-, ⟨e, h⟩, -⟩ :=
    nextSection_cases hnext
  · simp at h
  · obtain ⟨kind, hvalid, -, -, rfl⟩ := readSection_eq_ok.mp hread
    obtain rfl := Except.ok.inj (Option.some.inj h)
    exact ⟨hlt, lt_follow hlt, kind, hvalid, rfl⟩
  · simp at h

theorem Visits.le (h : Visits build io ignoreChecksums cur sections stop) :
    ∀ pos ∈ sections.map Prod.fst ++ [stop], cur ≤ pos := by
  induction h with
  | nil cur => simp
  | cons hnext _ _ ih =>
      obtain ⟨-, hforward, -⟩ := of_nextSection_eq_ok hnext
      intro pos hpos
      rcases List.mem_cons.mp hpos with rfl | hpos
      · exact le_rfl
      · exact hforward.le.trans (ih pos hpos)

/-- The offsets of a run increase. -/
theorem Visits.pairwise (h : Visits build io ignoreChecksums cur sections stop) :
    (sections.map Prod.fst ++ [stop]).Pairwise (· < ·) := by
  induction h with
  | nil cur => simp
  | cons hnext _ hrest ih =>
      obtain ⟨-, hforward, -⟩ := of_nextSection_eq_ok hnext
      refine List.pairwise_cons.mpr ⟨?_, ih⟩
      intro pos hpos
      exact hforward.trans_le (hrest.le pos hpos)

theorem Visits.length_le
    (h : Visits build io ignoreChecksums cur sections stop) :
    sections.length ≤ io.size - cur := by
  induction h with
  | nil cur => simp
  | cons hnext _ _ ih =>
      obtain ⟨hlt, hforward, -⟩ := of_nextSection_eq_ok hnext
      rw [List.length_cons]
      omega

theorem Visits.valid (h : Visits build io ignoreChecksums cur sections stop) :
    ∀ s ∈ sections, ∃ kind, ValidSection io ignoreChecksums s.1 kind ∧
      s.2 = bodySection io.content (declaredSize io.content s.1) (s.1 + 76)
        kind := by
  induction h with
  | nil cur => simp
  | cons hnext _ _ ih =>
      obtain ⟨-, -, hfound⟩ := of_nextSection_eq_ok hnext
      intro s hs
      rcases List.mem_cons.mp hs with rfl | hs
      · exact hfound
      · exact ih s hs

/-! ## The loop -/

variable {path : String} {vars : SegmentVars} {fuel : ℕ}

def absorbAll (vars : SegmentVars) (sections : List (ℕ × Section)) :
    SegmentVars :=
  sections.foldl (fun vars s => vars.absorb s.2) vars

theorem segmentBody_next {found : Section} (hnot : found ≠ .done)
    (hnext : nextSection build io ignoreChecksums cur =
      .ok (some (.ok found), cur')) :
    segmentBody build io ignoreChecksums path (cur, vars) =
      .ok (.next (cur', vars.absorb found)) := by
  unfold segmentBody
  simp only [hnext, liftNext, Outcome.ok_bind]
  cases found with
  | done => exact absurd rfl hnot
  | volume | table | sectors | hash | digest | other => rfl

theorem segmentBody_done
    (hnext : nextSection build io ignoreChecksums cur =
      .ok (some (.ok .done), cur')) :
    segmentBody build io ignoreChecksums path (cur, vars) =
      .ok (.done (true, cur', vars)) := by
  unfold segmentBody
  simp only [hnext, liftNext, Outcome.ok_bind]
  rfl

theorem segmentBody_end
    (hnext : nextSection build io ignoreChecksums cur = .ok (none, cur')) :
    segmentBody build io ignoreChecksums path (cur, vars) =
      .ok (.done (false, cur', vars)) := by
  unfold segmentBody
  simp only [hnext, liftNext, Outcome.ok_bind]
  rfl

theorem segmentBody_error {e : LibError}
    (hnext : nextSection build io ignoreChecksums cur =
      .ok (some (.error e), cur')) :
    segmentBody build io ignoreChecksums path (cur, vars) =
      .error (.ofLib path e) := by
  unfold segmentBody
  simp only [hnext, liftNext, Outcome.ok_bind]

/-- What the loop returns comes from a run up to the first done section, or
up to the end. -/
theorem segmentLoop_eq_ok {done : Bool} {vars' : SegmentVars}
    (hloop : loop (segmentBody build io ignoreChecksums path) fuel
      (cur, vars) = .ok (done, cur', vars')) :
    ∃ sections stop, Visits build io ignoreChecksums cur sections stop ∧
      nextSection build io ignoreChecksums stop =
        .ok (if done then some (.ok .done) else none, cur') ∧
      vars' = absorbAll vars sections := by
  induction fuel generalizing cur vars with
  | zero => simp [loop] at hloop
  | succ fuel ih =>
      cases hnext : nextSection build io ignoreChecksums cur with
      | ok r =>
          obtain ⟨item, cur₁⟩ := r
          rcases item with _ | e | found
          · rw [loop_done (segmentBody_end hnext)] at hloop
            obtain ⟨rfl, rfl, rfl⟩ : false = done ∧ cur₁ = cur' ∧
              vars = vars' := by simpa using hloop
            exact ⟨[], cur, .nil cur, hnext, rfl⟩
          · simp [loop_error (segmentBody_error hnext)] at hloop
          · by_cases hdone : found = .done
            · subst hdone
              rw [loop_done (segmentBody_done hnext)] at hloop
              obtain ⟨rfl, rfl, rfl⟩ : true = done ∧ cur₁ = cur' ∧
                vars = vars' := by simpa using hloop
              exact ⟨[], cur, .nil cur, hnext, rfl⟩
            · rw [loop_next (segmentBody_next hdone hnext)] at hloop
              obtain ⟨sections, stop, hvisits, hend, rfl⟩ := ih hloop
              exact ⟨(cur, found) :: sections, stop,
                .cons hnext hdone hvisits, hend, rfl⟩
      | error e => exact e.elim
      | panic fault => simp [loop, segmentBody, hnext, liftNext] at hloop
      | hang => simp [loop, segmentBody, hnext, liftNext] at hloop

/-- The loop absorbs the sections of a run and stands where the run stands. -/
theorem segmentLoop_visits
    (hvisits : Visits build io ignoreChecksums cur sections stop) :
    loop (segmentBody build io ignoreChecksums path) (sections.length + fuel)
        (cur, vars) =
      loop (segmentBody build io ignoreChecksums path) fuel
        (stop, absorbAll vars sections) := by
  induction hvisits generalizing vars with
  | nil cur =>
      rw [List.length_nil, Nat.zero_add]
      rfl
  | cons hfound hnot _ ih =>
      rw [List.length_cons, Nat.add_right_comm,
        loop_next (segmentBody_next hnot hfound), ih]
      rfl

/-- A section of the run which does not parse ends the loop with its error. -/
theorem segmentLoop_error {e : LibError}
    (hvisits : Visits build io ignoreChecksums cur sections stop)
    (hnext : nextSection build io ignoreChecksums stop =
      .ok (some (.error e), cur'))
    (hfuel : sections.length < fuel) :
    loop (segmentBody build io ignoreChecksums path) fuel (cur, vars) =
      .error (.ofLib path e) := by
  obtain ⟨more, rfl⟩ := Nat.exists_eq_add_of_lt hfuel
  rw [Nat.add_assoc, segmentLoop_visits hvisits]
  exact loop_error (segmentBody_error hnext)

/-- A done section ends the loop with what the run has brought. -/
theorem segmentLoop_done
    (hvisits : Visits build io ignoreChecksums cur sections stop)
    (hnext : nextSection build io ignoreChecksums stop =
      .ok (some (.ok .done), cur'))
    (hfuel : sections.length < fuel) :
    loop (segmentBody build io ignoreChecksums path) fuel (cur, vars) =
      .ok (true, cur', absorbAll vars sections) := by
  obtain ⟨more, rfl⟩ := Nat.exists_eq_add_of_lt hfuel
  rw [Nat.add_assoc, segmentLoop_visits hvisits]
  exact loop_done (segmentBody_done hnext)

/-- The loop ends. -/
theorem segmentLoop_settles (hfuel : io.size - cur < fuel) :
    (loop (segmentBody build io ignoreChecksums path) fuel
      (cur, vars)).Settles build.Overflows := by
  apply loop_rule (fun _ => True) (fun state : ℕ × SegmentVars =>
    io.size - state.1) (fun outcome => outcome.Settles build.Overflows) _
    trivial hfuel
  rintro ⟨cur, vars⟩ -
  have hsettles := nextSection_settles build io ignoreChecksums cur
  cases hnext : nextSection build io ignoreChecksums cur with
  | ok r =>
      obtain ⟨item, cur₁⟩ := r
      match item with
      | none =>
          rw [segmentBody_end hnext]
          trivial
      | some (.error e) =>
          rw [segmentBody_error hnext]
          trivial
      | some (.ok found) =>
          by_cases hdone : found = .done
          · subst hdone
            rw [segmentBody_done hnext]
            trivial
          · obtain ⟨hlt, hforward, -⟩ := of_nextSection_eq_ok hnext
            rw [segmentBody_next hdone hnext]
            exact ⟨trivial, by dsimp only; omega⟩
  | error e => exact e.elim
  | panic fault =>
      rw [hnext] at hsettles
      have hfault : build.Overflows fault := hsettles
      unfold segmentBody
      simp only [hnext, liftNext, Outcome.panic_bind]
      exact hfault
  | hang =>
      rw [hnext] at hsettles
      exact hsettles.elim

end Runs

/-! ## The chunks of a run -/

def sectorsEnd? : Section → Option ℕ
  | .sectors endOfSectors => some endOfSectors
  | _ => none

/-- The end of the last sectors section. -/
def sectorsEnd (sections : List (ℕ × Section)) : ℕ :=
  ((sections.filterMap fun s => sectorsEnd? s.2).getLast?).getD 0

/-- The chunks out of a section with these ones before it. -/
def chunksOf (before : List (ℕ × Section)) : Section → List Chunk
  | .table t => closeLast (sectorsEnd before) t
  | _ => []

theorem absorb_endOfSectors (vars : SegmentVars) (found : Section) :
    (vars.absorb found).endOfSectors =
      (sectorsEnd? found).getD vars.endOfSectors := by
  match found with
  | .table [] => rfl
  | .table (_ :: _) => rfl
  | .sectors _ => rfl
  | .volume _ | .hash _ | .digest _ _ | .done | .other => rfl

theorem absorb_chunks {vars : SegmentVars} {before : List (ℕ × Section)}
    (hend : vars.endOfSectors = sectorsEnd before) (found : Section) :
    (vars.absorb found).chunks = vars.chunks ++ chunksOf before found := by
  match found with
  | .table [] => simp [SegmentVars.absorb, chunksOf]
  | .table (ch :: t) =>
      simp only [SegmentVars.absorb, chunksOf, ← hend]
      exact closeLast_append _ _ (List.cons_ne_nil ch t)
  | .sectors _ => simp [SegmentVars.absorb, chunksOf]
  | .volume _ | .hash _ | .digest _ _ | .done | .other =>
      simp [SegmentVars.absorb, chunksOf]

theorem sectorsEnd_concat (before : List (ℕ × Section)) (s : ℕ × Section) :
    sectorsEnd (before ++ [s]) = (sectorsEnd? s.2).getD (sectorsEnd before) := by
  unfold sectorsEnd
  cases h : sectorsEnd? s.2 <;> simp [List.filterMap_append, h]

theorem absorbAll_endOfSectors (sections : List (ℕ × Section)) :
    (absorbAll .new sections).endOfSectors = sectorsEnd sections := by
  induction sections using List.reverseRecOn with
  | nil => rfl
  | append_singleton before s ih =>
      rw [sectorsEnd_concat, ← ih, ← absorb_endOfSectors]
      simp [absorbAll]

/-- The chunks which section `j` brings. -/
def tableOf (sections : List (ℕ × Section)) (j : ℕ) : List Chunk :=
  match sections[j]? with
  | some s => chunksOf (sections.take j) s.2
  | none => []

theorem absorbAll_chunks (sections : List (ℕ × Section)) :
    (absorbAll .new sections).chunks =
      (List.range sections.length).flatMap (tableOf sections) := by
  induction sections using List.reverseRecOn with
  | nil => rfl
  | append_singleton before s ih =>
      have hbefore : (List.range before.length).flatMap
          (tableOf (before ++ [s])) =
            (List.range before.length).flatMap (tableOf before) := by
        apply List.flatMap_congr
        intro j hj
        have hlt := List.mem_range.mp hj
        unfold tableOf
        rw [List.getElem?_append_left hlt,
          List.take_append_of_le_length hlt.le]
      have hlast : tableOf (before ++ [s]) before.length =
          chunksOf before s.2 := by
        simp [tableOf]
      have hstep : absorbAll .new (before ++ [s]) =
          (absorbAll .new before).absorb s.2 := by
        simp [absorbAll]
      rw [hstep, absorb_chunks (absorbAll_endOfSectors before), ih,
        List.length_append, List.length_singleton, List.range_succ,
        List.flatMap_append, hbefore, List.flatMap_singleton, hlast]

/-- The chunks of a table in its segment: its entries, each of which ends where
the next one starts, and the last one at the end of the sectors. -/
structure BoundedTable (segmentIndex endOfSectors : ℕ)
    (entries chunks : List Chunk) : Prop where
  length_eq : chunks.length = entries.length
  entry : ∀ (i : ℕ) (ch : Chunk), chunks[i]? = some ch →
    ∃ entry : Chunk, entries[i]? = some entry ∧
      ch.dataOffset = entry.dataOffset ∧ ch.compressed = entry.compressed ∧
      ch.segment = segmentIndex
  linked : ∀ (i : ℕ) (ch ch' : Chunk), chunks[i]? = some ch →
    chunks[i + 1]? = some ch' →
      ch.endOffset = ch'.dataOffset ∧ ch.dataOffset ≤ ch.endOffset
  last : ∀ ch : Chunk, chunks.getLast? = some ch → ch.endOffset = endOfSectors

def inSegment (segmentIndex : ℕ) (ch : Chunk) : Chunk :=
  { ch with segment := segmentIndex }

theorem boundedTable {content : Bytes} {ignoreChecksums : Bool} {pos : ℕ}
    (segmentIndex endOfSectors : ℕ)
    (hvalid : ValidTable content ignoreChecksums pos) :
    BoundedTable segmentIndex endOfSectors (tableChunks content pos)
      ((closeLast endOfSectors (tableChunks content pos)).map
        (inSegment segmentIndex)) := by
  have hmono := hvalid.monotone
  unfold tableChunks
  cases hcount : entryCount content pos with
  | zero => constructor <;> simp
  | succ n =>
      rw [hcount] at hmono
      dsimp only
      rw [closeLast_append_singleton]
      set last := { openChunk content pos n with endOffset := endOfSectors }
        with hlast
      have hinit : ∀ i < n, ∀ tail : Chunk,
          (closedChunks content pos n ++ [tail])[i]? =
            some (closedChunk content pos i) := by
        intro i hi tail
        rw [List.getElem?_append_left (by simpa using hi)]
        simp [closedChunks, hi]
      have hend : ∀ tail : Chunk,
          (closedChunks content pos n ++ [tail])[n]? = some tail := by
        intro tail
        rw [List.getElem?_append_right (by simp)]
        simp
      have hpast : ∀ {i : ℕ} {ch : Chunk},
          ((closedChunks content pos n ++ [last]).map
            (inSegment segmentIndex))[i]? = some ch → i ≤ n := by
        intro i ch hch
        have hi := (List.getElem?_eq_some_iff.mp hch).1
        simp only [List.length_map, List.length_append, length_closedChunks,
          List.length_singleton] at hi
        omega
      constructor
      · simp
      · intro i ch hch
        have hi := hpast hch
        rw [List.getElem?_map] at hch
        rcases Nat.eq_or_lt_of_le hi with rfl | hlt
        · rw [hend] at hch
          obtain rfl := Option.some.inj hch
          exact ⟨_, hend _, rfl, rfl, rfl⟩
        · rw [hinit i hlt] at hch
          obtain rfl := Option.some.inj hch
          exact ⟨_, hinit i hlt _, rfl, rfl, rfl⟩
      · intro i ch ch' hch hch'
        have hlt : i < n := hpast hch'
        have hnext : ch'.dataOffset = entryOffset content pos (i + 1) := by
          have hi := hpast hch'
          rw [List.getElem?_map] at hch'
          rcases Nat.eq_or_lt_of_le hi with heq | hlt'
          · rw [heq, hend] at hch'
            obtain rfl := Option.some.inj hch'
            rw [heq]
            rfl
          · rw [hinit (i + 1) hlt'] at hch'
            obtain rfl := Option.some.inj hch'
            rfl
        rw [List.getElem?_map, hinit i hlt] at hch
        obtain rfl := Option.some.inj hch
        exact ⟨hnext.symm, hmono i (by omega)⟩
      · simp [inSegment, hlast]

/-! ## A whole segment -/

theorem segmentFileHeader_settles {P : Fault → Prop} (io : BytesReader) :
    (segmentFileHeader io).Settles P := by
  unfold segmentFileHeader
  cases io.readBytes 0 8 with
  | error e => trivial
  | ok firstBytes =>
      dsimp only
      cases io.seek 0 with
      | error e => trivial
      | ok _ =>
          dsimp only
          split_ifs
          · exact (readInto_settles io _ _ 0).bind fun _ _ => trivial
          · apply (readInto_settles io _ _ 0).bind
            intro h _
            dsimp only
            split_ifs <;> trivial
          · trivial

theorem liftNext_settles {α : Type} {P : Fault → Prop} {x : Outcome Empty α}
    (h : x.Settles P) : (liftNext x).Settles P := by
  cases x with
  | ok a => trivial
  | error e => exact e.elim
  | panic fault => exact h
  | hang => exact h

section Segment

variable {build : Build} {path : String} {segmentIndex : ℕ} {io : BytesReader}
  {ignoreChecksums : Bool}

theorem readSegment_settles :
    (readSegment build path segmentIndex io ignoreChecksums).Settles
      build.Overflows := by
  unfold readSegment
  apply ((segmentFileHeader_settles io).mapError _).bind
  rintro ⟨number, start⟩ -
  apply (segmentLoop_settles (by omega)).bind
  rintro ⟨done, cur, vars⟩ -
  cases done with
  | true =>
      exact (liftNext_settles (nextSection_settles build io _ _)).bind
        fun _ _ => trivial
  | false => trivial

/-- The chunks of section `j`, in their segment. -/
def segmentTable (segmentIndex : ℕ) (sections : List (ℕ × Section)) (j : ℕ) :
    List Chunk :=
  (tableOf sections j).map (inSegment segmentIndex)

/-- What a segment is made of: the sections from `start` to the first done one
or to the end, and the chunks of their tables in this order. -/
structure SegmentOf (build : Build) (io : BytesReader) (ignoreChecksums : Bool)
    (segmentIndex start : ℕ) (sections : List (ℕ × Section)) (done : Bool)
    (chunks : List Chunk) : Prop where
  run : ∃ stop cur, Visits build io ignoreChecksums start sections stop ∧
    nextSection build io ignoreChecksums stop =
      .ok (if done then some (.ok .done) else none, cur)
  chunks_eq : chunks =
    (List.range sections.length).flatMap (segmentTable segmentIndex sections)
  table : ∀ j pos t, sections[j]? = some (pos, .table t) →
    t = tableChunks io.content (pos + 76) ∧
      BoundedTable segmentIndex (sectorsEnd (sections.take j)) t
        (segmentTable segmentIndex sections j)
  sectors : ∀ pos endOfSectors, (pos, .sectors endOfSectors) ∈ sections →
    pos + 76 + declaredSize io.content pos < wordLimit →
      endOfSectors = pos + 76 + declaredSize io.content pos

theorem segmentOf_absorbAll {start stop cur : ℕ} {done : Bool}
    {sections : List (ℕ × Section)}
    (hvisits : Visits build io ignoreChecksums start sections stop)
    (hend : nextSection build io ignoreChecksums stop =
      .ok (if done then some (.ok .done) else none, cur)) :
    SegmentOf build io ignoreChecksums segmentIndex start sections done
      ((absorbAll .new sections).chunks.map (inSegment segmentIndex)) where
  run := ⟨stop, cur, hvisits, hend⟩
  chunks_eq := by
    rw [absorbAll_chunks, List.map_flatMap]
    rfl
  table := by
    intro j pos t hj
    obtain ⟨kind, hvalid, hfound⟩ :=
      hvisits.valid _ (List.mem_of_getElem? hj)
    cases kind with
    | table =>
        have ht : t = tableChunks io.content (pos + 76) :=
          Section.table.inj hfound
        subst ht
        refine ⟨rfl, ?_⟩
        have htable : segmentTable segmentIndex sections j =
            (closeLast (sectorsEnd (sections.take j))
              (tableChunks io.content (pos + 76))).map
                (inSegment segmentIndex) := by
          simp [segmentTable, tableOf, hj, chunksOf]
        rw [htable]
        exact boundedTable _ _ hvalid.body
    | volume | sectors | hash | digest | done | other =>
        simp [bodySection] at hfound
  sectors := by
    intro pos endOfSectors hmem hexact
    obtain ⟨kind, -, hfound⟩ := hvisits.valid _ hmem
    cases kind with
    | sectors =>
        rw [Section.sectors.inj hfound]
        exact Nat.mod_eq_of_lt hexact
    | volume | table | hash | digest | done | other =>
        simp [bodySection] at hfound

end Segment

/-- Whatever stands behind the first done section, the segment is read. -/
theorem readSegment_done {number : UInt16} {start stop cur cur' : ℕ}
    {sections : List (ℕ × Section)} {item : Option (Except LibError Section)}
    (hheader : segmentFileHeader io = .ok (number, start))
    (hvisits : Visits build io ignoreChecksums start sections stop)
    (hnext : nextSection build io ignoreChecksums stop =
      .ok (some (.ok .done), cur))
    (hbehind : nextSection build io ignoreChecksums cur = .ok (item, cur')) :
    ∃ seg, readSegment build path segmentIndex io ignoreChecksums =
      .ok (seg, true) := by
  have hfuel : sections.length < io.size + 2 := by
    have := hvisits.length_le
    omega
  unfold readSegment
  rw [hheader]
  simp only [Outcome.mapError, Outcome.ok_bind]
  rw [segmentLoop_done hvisits hnext hfuel]
  simp only [Outcome.ok_bind, if_true, hbehind, liftNext]
  exact ⟨_, rfl⟩

/-- `read_segment` ends, its iterator goes forward, and what it returns is the
segment up to the first done section; a section before that which does not
parse is its error, and one behind it is not. -/
theorem readSegment_exact (build : Build) (path : String) (segmentIndex : ℕ)
    (io : BytesReader) (ignoreChecksums : Bool) :
    (readSegment build path segmentIndex io ignoreChecksums).Settles
      build.Overflows ∧
    (∀ start sections stop,
      Visits build io ignoreChecksums start sections stop →
        (sections.map Prod.fst ++ [stop]).Pairwise (· < ·)) ∧
    (∀ seg done, readSegment build path segmentIndex io ignoreChecksums =
      .ok (seg, done) → ∃ number start sections,
        segmentFileHeader io = .ok (number, start) ∧
        SegmentOf build io ignoreChecksums segmentIndex start sections done
          seg.chunks) ∧
    (∀ number start sections stop e cur,
      segmentFileHeader io = .ok (number, start) →
      Visits build io ignoreChecksums start sections stop →
      nextSection build io ignoreChecksums stop =
        .ok (some (.error e), cur) →
      readSegment build path segmentIndex io ignoreChecksums =
        .error (.ofLib path e)) ∧
    ∀ number start sections stop cur item cur',
      segmentFileHeader io = .ok (number, start) →
      Visits build io ignoreChecksums start sections stop →
      nextSection build io ignoreChecksums stop =
        .ok (some (.ok .done), cur) →
      nextSection build io ignoreChecksums cur = .ok (item, cur') →
      ∃ seg, readSegment build path segmentIndex io ignoreChecksums =
        .ok (seg, true) := by
  refine ⟨readSegment_settles, fun _ _ _ h => h.pairwise, ?_, ?_,
    fun _ _ _ _ _ _ _ => readSegment_done⟩
  · intro seg done hread
    obtain ⟨⟨number, start⟩, hheader, hread⟩ := Outcome.bind_eq_ok.mp hread
    obtain ⟨⟨done', cur, vars⟩, hloop, hread⟩ := Outcome.bind_eq_ok.mp hread
    obtain ⟨sections, stop, hvisits, hend, rfl⟩ := segmentLoop_eq_ok hloop
    have hresult : seg.chunks = (absorbAll .new sections).chunks.map
        (inSegment segmentIndex) ∧ done' = done := by
      cases done' with
      | true =>
          obtain ⟨_, _, hread⟩ := Outcome.bind_eq_ok.mp hread
          obtain ⟨rfl, rfl⟩ := Prod.mk.inj (Outcome.ok.inj hread)
          exact ⟨rfl, rfl⟩
      | false =>
          obtain ⟨rfl, rfl⟩ := Prod.mk.inj (Outcome.ok.inj hread)
          exact ⟨rfl, rfl⟩
    obtain ⟨hchunks, rfl⟩ := hresult
    rw [hchunks]
    exact ⟨number, start, sections, Outcome.mapError_eq_ok.mp hheader,
      segmentOf_absorbAll hvisits hend⟩
  · intro number start sections stop e cur hheader hvisits hnext
    have hfuel : sections.length < io.size + 2 := by
      have := hvisits.length_le
      omega
    unfold readSegment
    rw [hheader]
    simp only [Outcome.mapError, Outcome.ok_bind]
    rw [segmentLoop_error hvisits hnext hfuel]
    rfl

/-- Sectors, a table of two entries, a done section and one byte behind it. -/
def trailingTable : BytesReader :=
  .ofBytes (firstSegment ++ descriptorBytes "sectors" 93 80 ++ [1, 2, 3, 4] ++
    descriptorBytes "table" 201 108 ++ [2] ++ List.replicate 23 0 ++
    [89, 0, 0, 0, 91, 0, 0, 0] ++ descriptorBytes "done" 277 76 ++ [0])

theorem trailingTable_visits :
    Visits .release trailingTable true 13
      [(13, .sectors 93), (93, .table [⟨0, 89, 91, false⟩, ⟨0, 91, 0, false⟩])]
      201 := by
  refine .cons ?_ (by decide) (.cons ?_ (by decide) (.nil 201))
  · decide +kernel
  · decide +kernel

theorem readSegment_exact_trailingTable :
    nextSection .release trailingTable true 277 = .ok (some (.error
      (.deserializationFailed "EwfSectionDescriptorV1" (.other 0))), 277) ∧
    ∃ seg number start sections,
      readSegment .release "image.E01" 3 trailingTable true =
        .ok (seg, true) ∧
      segmentFileHeader trailingTable = .ok (number, start) ∧
      SegmentOf .release trailingTable true 3 start sections true
        seg.chunks := by
  obtain ⟨_, _, hsegment, _, hdone⟩ :=
    readSegment_exact .release "image.E01" 3 trailingTable true
  have hbehind : nextSection .release trailingTable true 277 = .ok (some
      (.error (.deserializationFailed "EwfSectionDescriptorV1" (.other 0))),
        277) := by decide +kernel
  have hheader : segmentFileHeader trailingTable = .ok (1, 13) := by
    decide +kernel
  obtain ⟨seg, hread⟩ := hdone 1 13 _ 201 277 _ 277 hheader
    trailingTable_visits (by decide +kernel) hbehind
  obtain ⟨number, start, sections, hstart, hsegmentOf⟩ :=
    hsegment seg true hread
  exact ⟨hbehind, seg, number, start, sections, hread, hstart, hsegmentOf⟩

/-- A segment with a done section, and one byte behind it. -/
def trailingByte : BytesReader :=
  .ofBytes (firstSegment ++ descriptorBytes "done" 89 76 ++ [0])

/-- The section behind the done one does not parse, and the segment is read. -/
theorem trailingByte_is_read :
    nextSection .release trailingByte false 13 =
      .ok (some (.ok .done), 89) ∧
    (∃ e, nextSection .release trailingByte false 89 =
      .ok (some (.error e), 89)) ∧
    ∃ seg, readSegment .release "image.E01" 0 trailingByte false =
      .ok (seg, true) :=
  ⟨rfl, ⟨_, rfl⟩, ⟨_, rfl⟩⟩

end E01
end ImageReader
