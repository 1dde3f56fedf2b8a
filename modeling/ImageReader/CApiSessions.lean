import ImageReader.CApiHandles

/-!
# Sessions of a C caller

A caller keeps to the contracts of the interface: what it passes as a handle is
null or open, what it frees is null or an error which it has been given and has
not freed yet.  Everything else is up to it: the order of the calls, null
pointers, what becomes of the calls into the reader, panics included.

`Told` is what a call means to the caller, without any memory; the memory has
to bear it out.
-/

namespace ImageReader
namespace CApi

open MemoryAction

variable {ρ η : Type}

inductive Call (ρ : Type) where
  | open (attempt : Attempt ρ) (err : Bool)
  | read (handle : ℕ) (buf : Bool) (does : ρ → Attempt ℕ) (err : Bool)
  | close (handle : ℕ)
  | free (error : ℕ)

/-! The openings; `openReader` is the opening of the reader. -/

/-- `rawdisk_open` -/
def Call.rawdiskOpen (openReader : Text → Attempt ρ)
    (imagePath : Option (Option Text)) (err : Bool) : Call ρ :=
  .open (.ofArguments (pathArguments imagePath) openReader) err

/-- `vmdk_open` -/
def Call.vmdkOpen (openReader : Text → Attempt ρ)
    (imagePath : Option (Option Text)) (err : Bool) : Call ρ :=
  .open (.ofArguments (pathArguments imagePath) openReader) err

/-- `e01_open` -/
def Call.e01Open (openReader : List Text × Policies → Attempt ρ)
    (segmentPaths : Option (List (Option (Option Text))))
    (options : Option RawOptions) (err : Bool) : Call ρ :=
  .open (.ofArguments (e01Arguments segmentPaths options) openReader) err

/-- `e01_open_glob` -/
def Call.e01OpenGlob (openReader : Text × Policies → Attempt ρ)
    (exampleSegmentPath : Option (Option Text)) (options : Option RawOptions)
    (err : Bool) : Call ρ :=
  .open (.ofArguments (e01GlobArguments exampleSegmentPath options) openReader)
    err

/-- What a call comes to. -/
inductive Told (ρ : Type) where
  | opened (r : ρ)
  | count (n : ℕ)
  | failed (text : CString)
  | closed (handle : ℕ)
  | freed (error : ℕ)

def Attempt.told {α : Type} (attempt : Attempt α) (tell : α → Told ρ) :
    Told ρ :=
  match attempt with
  | .ok x => tell x
  | .error e => .failed (errorText e)
  | .panic payload => .failed (errorText (panicMessage payload))

section Calls

variable (api : HandleApi ρ η) (allocator : Allocator (Block ρ η))

def Call.told (handles : List (ℕ × ρ)) : Call ρ → Told ρ
  | .open attempt _ => attempt.told fun r =>
      match api.refusal r with
      | none => .opened r
      | some e => .failed (errorText e)
  | .read handle buf does _ =>
      if handle = 0 then .failed (errorText "handle is null".toList)
      else if !buf then .failed (errorText "buf is null".toList)
      else
        match handles.find? fun open_ => open_.1 = handle with
        | some open_ => (does open_.2).told .count
        | none => .count 0
  | .close handle => .closed handle
  | .free error => .freed error

def Call.run : Call ρ → MemoryAction (Block ρ η) (ℕ × Option ℕ)
  | .open attempt err => openHandle api allocator attempt err
  | .read handle buf does err => readHandle api allocator handle buf does err
  | .close handle => do
      closeHandle api handle
      pure (0, none)
  | .free error => do
      freeError error
      pure (0, none)

end Calls

/-- `err` is not null. -/
def Call.err : Call ρ → Bool
  | .open _ err => err
  | .read _ _ _ err => err
  | _ => false

/-- What a call returns, and the error which it has written. -/
def Told.Answered (told : Told ρ) (err : Bool) (reply : ℕ × Option ℕ) : Prop :=
  match told with
  | .opened _ => reply.1 ≠ 0 ∧ reply.2 = none
  | .count n => reply = (n, none)
  | .failed _ => reply.1 = 0 ∧ reply.2.isSome = err
  | _ => reply = (0, none)

/-- The memory, the open handles with their readers, and the errors which have
not been freed with their messages. -/
structure Session (ρ η : Type) where
  memory : Memory (Block ρ η)
  handles : List (ℕ × ρ)
  errors : List (ℕ × CString)

namespace Session

def start : Session ρ η := ⟨.empty, [], []⟩

def next (s : Session ρ η) (told : Told ρ) (reply : ℕ × Option ℕ)
    (memory : Memory (Block ρ η)) : Session ρ η :=
  match told with
  | .opened r => { s with memory, handles := (reply.1, r) :: s.handles }
  | .count _ => { s with memory }
  | .failed text =>
      { s with
        memory
        errors := (reply.2.map fun a => (a, text)).toList ++ s.errors }
  | .closed handle =>
      { s with memory, handles := s.handles.filter fun open_ => open_.1 ≠ handle }
  | .freed error =>
      { s with memory, errors := s.errors.filter fun live => live.1 ≠ error }

/-- The contracts. -/
def Allows (s : Session ρ η) : Call ρ → Prop
  | .open _ _ => True
  | .read handle _ _ _ => handle = 0 ∨ handle ∈ s.handles.map Prod.fst
  | .close handle => handle = 0 ∨ handle ∈ s.handles.map Prod.fst
  | .free error => error = 0 ∨ error ∈ s.errors.map Prod.fst

inductive Step (api : HandleApi ρ η) (allocator : Allocator (Block ρ η)) :
    Session ρ η → Session ρ η → Prop
  | call {s : Session ρ η} {call : Call ρ} {reply : ℕ × Option ℕ}
      {memory : Memory (Block ρ η)} (hallows : s.Allows call)
      (hrun : call.run api allocator s.memory = some (reply, memory)) :
      Step api allocator s (s.next (call.told api s.handles) reply memory)

open Relation (ReflTransGen) in
def Reachable (api : HandleApi ρ η) (allocator : Allocator (Block ρ η))
    (s : Session ρ η) : Prop :=
  ReflTransGen (Step api allocator) start s

end Session

/-! ## What is in memory -/

/-- An open handle with what it owns. -/
structure OpenHandle (api : HandleApi ρ η) where
  address : ℕ
  reader : ρ
  handle : η
  own : List (ℕ × Block ρ η)
  nonnull : address ≠ 0
  footprint : api.Footprint reader handle own

def OpenHandle.cells {api : HandleApi ρ η} (h : OpenHandle api) :
    List (ℕ × Block ρ η) := (h.address, .handle h.handle) :: h.own

structure LiveError where
  address : ℕ
  message : ℕ
  text : CString
  nonnull : address ≠ 0
  message_nonnull : message ≠ 0

def LiveError.cells (e : LiveError) : List (ℕ × Block ρ η) :=
  [(e.address, .error e.message), (e.message, .text e.text)]

/-- What a failed call has left behind. -/
structure Reports (err : Bool) (text : CString) (reply : ℕ × Option ℕ)
    (own : List (ℕ × Block ρ η)) : Prop where
  value : reply.1 = 0
  silent : err = false → reply.2 = none ∧ own = []
  written : err = true → ∃ e : LiveError, e.text = text ∧
    reply.2 = some e.address ∧ own = e.cells

section Calls

variable {api : HandleApi ρ η} (allocator : Allocator (Block ρ η))

theorem owning_fail (e : Text) (err : Bool) :
    Owning (fail allocator e err : MemoryAction (Block ρ η) _) []
      (Reports err (errorText e)) := by
  cases err with
  | false =>
      show Owning (pure (0, none)) _ _
      exact owning_pure _ ⟨rfl, fun _ => ⟨rfl, rfl⟩, by simp⟩
  | true =>
      show Owning (do
        let message ← alloc allocator (.text (errorText e))
        let error ← alloc allocator (.error message)
        pure (0, some error)) _ _
      refine (owning_alloc allocator _).bind ?_
      rintro message own ⟨hmessage, rfl⟩
      refine (owning_alloc allocator _).step (.refl _) ?_
      rintro error mine ⟨herror, rfl⟩
      exact owning_pure _ ⟨rfl, by simp, fun _ =>
        ⟨⟨error, message, errorText e, herror, hmessage⟩, rfl, rfl, rfl⟩⟩

/-- What a call has returned and left behind, as it was told. -/
def Yields (api : HandleApi ρ η) (told : Told ρ) (err : Bool)
    (reply : ℕ × Option ℕ) (own : List (ℕ × Block ρ η)) : Prop :=
  match told with
  | .opened r => ∃ h : OpenHandle api, h.reader = r ∧
      reply = (h.address, none) ∧ own = h.cells
  | .count n => reply = (n, none) ∧ own = []
  | .failed text => Reports err text reply own
  | _ => False

theorem owning_openHandle (attempt : Attempt ρ) (err : Bool)
    (handles : List (ℕ × ρ)) :
    Owning (openHandle api allocator attempt err) []
      (Yields api ((Call.open attempt err).told api handles) err) := by
  cases attempt with
  | error e => exact owning_fail allocator e err
  | panic payload => exact owning_fail allocator (panicMessage payload) err
  | ok r =>
      unfold Call.told Attempt.told openHandle
      simp only
      cases hrefusal : api.refusal r with
      | none =>
          refine (api.newHandle_ok allocator r hrefusal).bind ?_
          rintro result own ⟨h, rfl, hfootprint⟩
          refine (owning_alloc allocator _).step (.refl _) ?_
          rintro handle mine ⟨hhandle, rfl⟩
          exact owning_pure _ ⟨⟨handle, r, h, own, hhandle, hfootprint⟩,
            rfl, rfl, rfl⟩
      | some e =>
          refine (api.newHandle_error allocator r e hrefusal).bind ?_
          rintro result own ⟨rfl, rfl⟩
          exact owning_fail allocator e err

theorem owning_loadHandle (h : OpenHandle api) :
    Owning (loadHandle h.address) h.cells fun x own =>
      x = h.handle ∧ own = h.cells := by
  refine (owning_load (b := Block.handle h.handle) List.mem_cons_self).bind ?_
  rintro b own ⟨rfl, rfl⟩
  exact owning_pure _ ⟨rfl, rfl⟩

theorem owning_loadReader (h : OpenHandle api) :
    Owning (loadReader (api.reader h.handle)) h.cells fun x own =>
      x = h.reader ∧ own = h.cells := by
  refine (owning_load (b := Block.reader h.reader) (List.mem_cons_of_mem _
    (api.reader_mem _ _ _ h.footprint))).bind ?_
  rintro b own ⟨rfl, rfl⟩
  exact owning_pure _ ⟨rfl, rfl⟩

/-- A read leaves its handle as it is. -/
theorem owning_readHandle (h : OpenHandle api) (buf : Bool)
    (does : ρ → Attempt ℕ) (err : Bool) {handles : List (ℕ × ρ)}
    (hfind : handles.find? (fun open_ => open_.1 = h.address) =
      some (h.address, h.reader)) :
    Owning (readHandle api allocator h.address buf does err) h.cells
      fun reply own => ∃ mine, own = mine ++ h.cells ∧
        Yields api ((Call.read h.address buf does err).told api handles) err
          reply mine := by
  have hfail : ∀ e : Text, Owning (fail allocator e err) h.cells
      fun reply own => ∃ mine, own = mine ++ h.cells ∧
        Reports err (errorText e) reply mine :=
    fun e => (owning_fail allocator e err).frame h.cells
  unfold readHandle Call.told
  simp only
  rw [if_neg h.nonnull, if_neg h.nonnull]
  cases buf with
  | false => exact hfail _
  | true =>
      simp only [Bool.not_true, Bool.false_eq_true, if_false]
      rw [hfind]
      show Owning _ _ fun reply own => ∃ mine, own = mine ++ h.cells ∧
        Yields api ((does h.reader).told .count) err reply mine
      refine (owning_loadHandle h).bind ?_
      rintro x own ⟨rfl, rfl⟩
      refine (owning_loadReader h).bind ?_
      rintro r own ⟨rfl, rfl⟩
      cases does h.reader with
      | ok n => exact owning_pure _ ⟨[], rfl, rfl, rfl⟩
      | error e => exact hfail e
      | panic payload => exact hfail _

theorem owning_closeHandle (h : OpenHandle api) :
    Owning (closeHandle api h.address) h.cells fun _ own => own = [] := by
  unfold closeHandle
  rw [if_neg h.nonnull]
  refine (owning_loadHandle h).bind ?_
  rintro x own ⟨rfl, rfl⟩
  refine (api.dropHandle_owning _ _ _ h.footprint).step
    (List.perm_append_singleton (h.address, Block.handle h.handle)
      h.own).symm ?_
  rintro - mine rfl
  refine (owning_release _ _).bind ?_
  rintro b own ⟨rfl, rfl⟩
  exact owning_pure _ rfl

theorem owning_freeError (e : LiveError) :
    Owning (freeError e.address : MemoryAction (Block ρ η) _) e.cells
      fun _ own => own = [] := by
  unfold freeError
  rw [if_neg e.nonnull]
  refine (owning_load (b := Block.error e.message) List.mem_cons_self).bind ?_
  rintro b own ⟨rfl, rfl⟩
  simp only
  rw [if_pos e.message_nonnull]
  refine (owning_dropText e.message e.text).step
    (.swap (e.message, Block.text e.text) (e.address, Block.error e.message)
      []) ?_
  rintro - mine rfl
  refine (owning_release _ _).bind ?_
  rintro b own ⟨rfl, rfl⟩
  exact owning_pure _ rfl

end Calls

/-! ## What a session keeps -/

namespace Session

/-- The memory is what the open handles and the live errors own, each block
once and nothing else. -/
structure Exact (api : HandleApi ρ η) (s : Session ρ η)
    (live : List (OpenHandle api)) (errors : List LiveError) : Prop where
  handles_eq : live.map (fun h => (h.address, h.reader)) = s.handles
  errors_eq : errors.map (fun e => (e.address, e.text)) = s.errors
  cells : s.memory.cells.Perm
    (live.flatMap OpenHandle.cells ++ errors.flatMap LiveError.cells)

variable {api : HandleApi ρ η} {allocator : Allocator (Block ρ η)}
variable {s s' : Session ρ η} {live : List (OpenHandle api)}
variable {errors : List LiveError} {h : OpenHandle api} {e : LiveError}

theorem nodup_of_flatMap {α : Type} {key : α → ℕ}
    {cells : α → List (ℕ × Block ρ η)}
    (hkey : ∀ x, key x ∈ (cells x).map Prod.fst) {xs : List α}
    (hnodup : ((xs.flatMap cells).map Prod.fst).Nodup) :
    (xs.map key).Nodup := by
  induction xs with
  | nil => exact List.nodup_nil
  | cons x rest ih =>
      rw [List.flatMap_cons, List.map_append, List.nodup_append] at hnodup
      obtain ⟨-, hrest, hapart⟩ := hnodup
      refine List.nodup_cons.mpr ⟨?_, ih hrest⟩
      intro hmem
      obtain ⟨y, hy, hsame⟩ := List.mem_map.mp hmem
      obtain ⟨cell, hcell, haddr⟩ := List.mem_map.mp (hkey y)
      refine hapart (key x) (hkey x) (key y) ?_ hsame.symm
      exact List.mem_map.mpr
        ⟨cell, List.mem_flatMap.mpr ⟨y, hy, hcell⟩, haddr⟩

theorem Exact.nodup_cells (hexact : s.Exact api live errors) :
    ((live.flatMap OpenHandle.cells).map Prod.fst).Nodup ∧
      ((errors.flatMap LiveError.cells : List (ℕ × Block ρ η)).map
        Prod.fst).Nodup := by
  have hnodup := (hexact.cells.map Prod.fst).nodup_iff.mp s.memory.nodup
  rw [List.map_append, List.nodup_append] at hnodup
  exact ⟨hnodup.1, hnodup.2.1⟩

theorem Exact.nodup_handles (hexact : s.Exact api live errors) :
    (live.map OpenHandle.address).Nodup :=
  nodup_of_flatMap (fun h => by simp [OpenHandle.cells]) hexact.nodup_cells.1

theorem Exact.nodup_errors (hexact : s.Exact api live errors) :
    (errors.map LiveError.address).Nodup :=
  nodup_of_flatMap (ρ := ρ) (η := η) (fun e => by simp [LiveError.cells])
    hexact.nodup_cells.2

theorem Exact.exists_handle (hexact : s.Exact api live errors) {a : ℕ}
    (hmem : a ∈ s.handles.map Prod.fst) : ∃ h ∈ live, h.address = a := by
  rw [← hexact.handles_eq, List.map_map] at hmem
  exact List.mem_map.mp hmem

theorem Exact.exists_error (hexact : s.Exact api live errors) {a : ℕ}
    (hmem : a ∈ s.errors.map Prod.fst) : ∃ e ∈ errors, e.address = a := by
  rw [← hexact.errors_eq, List.map_map] at hmem
  exact List.mem_map.mp hmem

theorem Exact.find_handle (hexact : s.Exact api live errors)
    (hmem : h ∈ live) :
    s.handles.find? (fun open_ => open_.1 = h.address) =
      some (h.address, h.reader) := by
  have hnodup : (s.handles.map Prod.fst).Nodup := by
    rw [← hexact.handles_eq, List.map_map]
    exact hexact.nodup_handles
  have hin : (h.address, h.reader) ∈ s.handles := by
    rw [← hexact.handles_eq]
    exact List.mem_map_of_mem (f := fun h : OpenHandle api =>
      (h.address, h.reader)) hmem
  exact find?_key_eq_some hnodup hin

/-- The other handles. -/
def others (live : List (OpenHandle api)) (h : OpenHandle api) :
    List (OpenHandle api) := live.filter fun l => l.address ≠ h.address

def otherErrors (errors : List LiveError) (e : LiveError) : List LiveError :=
  errors.filter fun l => l.address ≠ e.address

theorem Exact.cells_handle (hexact : s.Exact api live errors)
    (hmem : h ∈ live) :
    s.memory.cells.Perm (h.cells ++
      ((others live h).flatMap OpenHandle.cells ++
        errors.flatMap LiveError.cells)) := by
  have hsplit := (perm_cons_filter_ne hexact.nodup_handles hmem).flatMap_right
    OpenHandle.cells
  rw [List.flatMap_cons] at hsplit
  refine hexact.cells.trans ((hsplit.append_right _).trans ?_)
  rw [List.append_assoc]
  exact .refl _

theorem Exact.cells_error (hexact : s.Exact api live errors)
    (hmem : e ∈ errors) :
    s.memory.cells.Perm (e.cells ++ (live.flatMap OpenHandle.cells ++
      (otherErrors errors e).flatMap LiveError.cells)) := by
  have hsplit := (perm_cons_filter_ne hexact.nodup_errors hmem).flatMap_right
    (LiveError.cells (ρ := ρ) (η := η))
  rw [List.flatMap_cons] at hsplit
  exact hexact.cells.trans
    ((hsplit.append_left _).trans (List.perm_append_comm_assoc _ _ _))

/-! ### One call -/

theorem Exact.yields (hexact : s.Exact api live errors) {told : Told ρ}
    {err : Bool} {reply : ℕ × Option ℕ} {own : List (ℕ × Block ρ η)}
    {memory : Memory (Block ρ η)} (hyields : Yields api told err reply own)
    (hcells : memory.cells.Perm (own ++ (live.flatMap OpenHandle.cells ++
      errors.flatMap LiveError.cells))) :
    told.Answered err reply ∧ ∃ live' errors',
      (s.next told reply memory).Exact api live' errors' := by
  cases told with
  | opened r =>
      obtain ⟨h, rfl, rfl, rfl⟩ := hyields
      refine ⟨⟨h.nonnull, rfl⟩, h :: live, errors, ?_, hexact.errors_eq, ?_⟩
      · rw [List.map_cons, hexact.handles_eq]
        rfl
      · rw [List.flatMap_cons, List.append_assoc]
        exact hcells
  | count n =>
      obtain ⟨rfl, rfl⟩ := hyields
      exact ⟨rfl, live, errors, hexact.handles_eq, hexact.errors_eq, hcells⟩
  | failed text =>
      cases err with
      | false =>
          obtain ⟨hnone, rfl⟩ := hyields.silent rfl
          refine ⟨⟨hyields.value, by rw [hnone]; rfl⟩, live, errors,
            hexact.handles_eq, ?_, hcells⟩
          simp only [next, hnone]
          exact hexact.errors_eq
      | true =>
          obtain ⟨e, rfl, hsome, rfl⟩ := hyields.written rfl
          refine ⟨⟨hyields.value, by rw [hsome]; rfl⟩, live, e :: errors,
            hexact.handles_eq, ?_, ?_⟩
          · simp only [next, hsome]
            rw [List.map_cons, hexact.errors_eq]
            rfl
          · rw [List.flatMap_cons]
            exact hcells.trans (List.perm_append_comm_assoc _ _ _)
  | closed a => exact hyields.elim
  | freed a => exact hyields.elim

theorem Exact.closed (hexact : s.Exact api live errors) (a : ℕ)
    (reply : ℕ × Option ℕ) {memory : Memory (Block ρ η)}
    (hcells : memory.cells.Perm
      ((live.filter fun l => l.address ≠ a).flatMap OpenHandle.cells ++
        errors.flatMap LiveError.cells)) :
    (s.next (.closed a) reply memory).Exact api
      (live.filter fun l => l.address ≠ a) errors := by
  refine ⟨?_, hexact.errors_eq, hcells⟩
  simp only [next]
  rw [← hexact.handles_eq, List.filter_map]
  rfl

theorem Exact.freed (hexact : s.Exact api live errors) (a : ℕ)
    (reply : ℕ × Option ℕ) {memory : Memory (Block ρ η)}
    (hcells : memory.cells.Perm (live.flatMap OpenHandle.cells ++
      (errors.filter fun l => l.address ≠ a).flatMap LiveError.cells)) :
    (s.next (.freed a) reply memory).Exact api live
      (errors.filter fun l => l.address ≠ a) := by
  refine ⟨hexact.handles_eq, ?_, hcells⟩
  simp only [next]
  rw [← hexact.errors_eq, List.filter_map]
  rfl

/-- A call within the contracts is defined, and leaves exactly what it should
behind. -/
theorem Exact.call (hexact : s.Exact api live errors)
    (allocator : Allocator (Block ρ η)) {call : Call ρ}
    (hallows : s.Allows call) :
    ∃ reply memory, call.run api allocator s.memory = some (reply, memory) ∧
      (call.told api s.handles).Answered call.err reply ∧
      ∃ live' errors',
        (s.next (call.told api s.handles) reply memory).Exact api
          live' errors' := by
  cases call with
  | «open» attempt err =>
      obtain ⟨reply, memory, own, hrun, hcells, hyields⟩ :=
        owning_openHandle allocator attempt err s.handles s.memory _
          hexact.cells
      exact ⟨reply, memory, hrun, hexact.yields hyields hcells⟩
  | read handle buf does err =>
      rcases hallows with rfl | hmem
      · obtain ⟨reply, memory, own, hrun, hcells, hreports⟩ :=
          owning_fail allocator "handle is null".toList err s.memory _
            hexact.cells
        exact ⟨reply, memory, hrun, hexact.yields hreports hcells⟩
      · obtain ⟨h, hlive, rfl⟩ := hexact.exists_handle hmem
        have hsplit := hexact.cells_handle hlive
        obtain ⟨reply, memory, own, hrun, hcells, mine, rfl, hyields⟩ :=
          owning_readHandle allocator h buf does err
            (hexact.find_handle hlive) s.memory _ hsplit
        refine ⟨reply, memory, hrun, hexact.yields hyields ?_⟩
        rw [List.append_assoc] at hcells
        exact hcells.trans ((hsplit.symm.trans hexact.cells).append_left mine)
  | close handle =>
      rcases hallows with rfl | hmem
      · refine ⟨(0, none), s.memory, rfl, rfl, _, _, hexact.closed 0 _ ?_⟩
        have hall : live.filter (fun l => l.address ≠ 0) = live :=
          List.filter_eq_self.mpr fun l _ => decide_eq_true l.nonnull
        rw [hall]
        exact hexact.cells
      · obtain ⟨h, hlive, rfl⟩ := hexact.exists_handle hmem
        obtain ⟨_, memory, own, hrun, hcells, rfl⟩ := owning_closeHandle h
          s.memory _ (hexact.cells_handle hlive)
        refine ⟨(0, none), memory, ?_, rfl, _, _, hexact.closed _ _ hcells⟩
        show (closeHandle api h.address s.memory).bind _ = _
        rw [hrun]
        rfl
  | free error =>
      rcases hallows with rfl | hmem
      · refine ⟨(0, none), s.memory, rfl, rfl, _, _, hexact.freed 0 _ ?_⟩
        have hall : errors.filter (fun l => l.address ≠ 0) = errors :=
          List.filter_eq_self.mpr fun l _ => decide_eq_true l.nonnull
        rw [hall]
        exact hexact.cells
      · obtain ⟨e, hlive, rfl⟩ := hexact.exists_error hmem
        obtain ⟨_, memory, own, hrun, hcells, rfl⟩ := owning_freeError e
          s.memory _ (hexact.cells_error hlive)
        refine ⟨(0, none), memory, ?_, rfl, _, _, hexact.freed _ _ hcells⟩
        show (freeError e.address s.memory).bind _ = _
        rw [hrun]
        rfl

theorem Step.exact (hstep : Step api allocator s s')
    (hexact : s.Exact api live errors) :
    ∃ live' errors', s'.Exact api live' errors' := by
  cases hstep with
  | @call c reply memory hallows hrun =>
      obtain ⟨reply', memory', hrun', -, hnext⟩ :=
        hexact.call allocator hallows
      rw [hrun] at hrun'
      obtain ⟨rfl, rfl⟩ := Prod.mk.inj (Option.some.inj hrun')
      exact hnext

theorem exact_start (api : HandleApi ρ η) :
    (start : Session ρ η).Exact api [] [] := ⟨rfl, rfl, .nil⟩

theorem Reachable.exact (h : Reachable api allocator s) :
    ∃ live errors, s.Exact api live errors := by
  induction h with
  | refl => exact ⟨_, _, exact_start api⟩
  | tail _ hstep ih =>
      obtain ⟨live, errors, hexact⟩ := ih
      exact hstep.exact hexact

/-! ## Sessions -/

/-- What a session can be relied on for. -/
structure Kept (api : HandleApi ρ η) (allocator : Allocator (Block ρ η))
    (s : Session ρ η) : Prop where
  /-- no call within the contracts is undefined behaviour, and each returns
  what it was to come to -/
  defined : ∀ call, s.Allows call → ∃ reply memory,
    call.run api allocator s.memory = some (reply, memory) ∧
      (call.told api s.handles).Answered call.err reply
  /-- nothing has leaked, and nothing is owned twice -/
  exact : ∃ live errors, s.Exact api live errors
  handles : ∀ a r, (a, r) ∈ s.handles → ∃ h own,
    s.memory.get? a = some (.handle h) ∧ api.Footprint r h own ∧
      ∀ x b, (x, b) ∈ own → s.memory.get? x = some b
  errors : ∀ a text, (a, text) ∈ s.errors → ∃ message,
    s.memory.get? a = some (.error message) ∧
      s.memory.get? message = some (.text text)
  empty : s.handles = [] → s.errors = [] → s.memory.cells = []

theorem Exact.get?_handle (hexact : s.Exact api live errors)
    (hmem : h ∈ live) {x : ℕ} {b : Block ρ η} (hcell : (x, b) ∈ h.cells) :
    s.memory.get? x = some b :=
  Memory.get?_eq_some.mpr ((hexact.cells_handle hmem).mem_iff.mpr
    (List.mem_append_left _ hcell))

theorem Exact.get?_error (hexact : s.Exact api live errors)
    (hmem : e ∈ errors) {x : ℕ} {b : Block ρ η} (hcell : (x, b) ∈ e.cells) :
    s.memory.get? x = some b :=
  Memory.get?_eq_some.mpr ((hexact.cells_error hmem).mem_iff.mpr
    (List.mem_append_left _ hcell))

theorem Reachable.kept (h : Reachable api allocator s) :
    s.Kept api allocator := by
  obtain ⟨live, errors, hexact⟩ := h.exact
  refine ⟨?_, ⟨live, errors, hexact⟩, ?_, ?_, ?_⟩
  · intro call hallows
    obtain ⟨reply, memory, hrun, hanswered, -⟩ :=
      hexact.call allocator hallows
    exact ⟨reply, memory, hrun, hanswered⟩
  · intro a r hmem
    rw [← hexact.handles_eq] at hmem
    obtain ⟨l, hlive, hsame⟩ := List.mem_map.mp hmem
    obtain ⟨rfl, rfl⟩ := Prod.mk.inj hsame
    refine ⟨l.handle, l.own, hexact.get?_handle hlive List.mem_cons_self,
      l.footprint, ?_⟩
    intro x b hcell
    exact hexact.get?_handle hlive (List.mem_cons_of_mem _ hcell)
  · intro a text hmem
    rw [← hexact.errors_eq] at hmem
    obtain ⟨e, hlive, hsame⟩ := List.mem_map.mp hmem
    obtain ⟨rfl, rfl⟩ := Prod.mk.inj hsame
    exact ⟨e.message, hexact.get?_error hlive List.mem_cons_self,
      hexact.get?_error hlive (List.mem_cons_of_mem _ List.mem_cons_self)⟩
  · intro hhandles herrors
    have hlive : live = [] := by
      have heq := hexact.handles_eq
      rw [hhandles] at heq
      exact List.map_eq_nil_iff.mp heq
    have hlive' : errors = [] := by
      have heq := hexact.errors_eq
      rw [herrors] at heq
      exact List.map_eq_nil_iff.mp heq
    have hcells := hexact.cells
    rw [hlive, hlive'] at hcells
    exact hcells.eq_nil

end Session

/-- Sessions of a caller of any of the interfaces. -/
theorem sessions_kept {ρ ρ' : Type} (e01 : ρ → E01Facts)
    (path : ρ' → PathFacts) (allocator : Allocator (Block ρ E01Handle))
    (allocator' : Allocator (Block ρ' PathHandle)) :
    (∀ s, Session.Reachable (e01Api e01) allocator s →
      s.Kept (e01Api e01) allocator) ∧
    ∀ s, Session.Reachable (pathApi path) allocator' s →
      s.Kept (pathApi path) allocator' :=
  ⟨fun _ h => h.kept, fun _ h => h.kept⟩

/-- Two segments, and a stored MD5. -/
def twoSegments : E01Facts where
  segmentPaths := [some ['a'], some ['b']]
  chunkSize := 32768
  chunkCount := 1
  sectorCount := 64
  sectorSize := 512
  imageSize := 32768
  storedMd5 := some ⟨List.replicate 16 0, rfl⟩
  storedSha1 := none

/-- A read panics: the handle is still open, and there is an error. -/
theorem sessions_kept_panicked :
    ∃ s : Session E01Facts E01Handle, s.Kept (e01Api id) .above ∧
      s.handles = [(6, twoSegments)] ∧
      s.errors = [(8, errorText (panicMessage none))] ∧
      s.memory.cells.length = 8 := by
  have hstart : Session.Reachable (e01Api id) .above
      (.start : Session E01Facts E01Handle) := .refl
  have hopened := hstart.tail (@Session.Step.call _ _ (e01Api id) .above _
    (.open (.ok twoSegments) true) (6, none) _ trivial rfl)
  have hread := hopened.tail (@Session.Step.call _ _ (e01Api id) .above _
    (.read 6 true (fun _ => .panic none) true) (0, some 8) _
    (Or.inr List.mem_cons_self) rfl)
  exact ⟨_, (sessions_kept id id .above .above).1 _ hread, rfl, rfl, rfl⟩

end CApi
end ImageReader
