import Mathlib.Tactic

/-!
# Memory and what is owned of it

Memory is blocks at addresses.  An allocator may put a block anywhere where
there is none, also where one has been before.  To release or to read what is
not there is undefined.

`Owning` is a triple with the frame built in: whatever the rest of the memory
is, an action which owns some blocks is defined, leaves the rest alone and ends
with the blocks that its postcondition tells.
-/

namespace ImageReader

/-- Where no two keys are the same, one entry is taken out by its key. -/
theorem perm_cons_filter_ne {α κ : Type*} [DecidableEq κ] {key : α → κ}
    {xs : List α} (hnodup : (xs.map key).Nodup) {x : α} (hmem : x ∈ xs) :
    xs.Perm (x :: xs.filter fun y => key y ≠ key x) := by
  obtain ⟨before, after, rfl⟩ := List.append_of_mem hmem
  rw [List.map_append, List.map_cons, List.nodup_middle, List.nodup_cons,
    ← List.map_append] at hnodup
  have hother : ∀ y ∈ before ++ after, decide (key y ≠ key x) = true := by
    intro y hy
    rw [decide_eq_true_eq]
    intro hkey
    exact hnodup.1 (List.mem_map.mpr ⟨y, hy, hkey⟩)
  have hfilter : (before ++ x :: after).filter (fun y => key y ≠ key x) =
      before ++ after := by
    rw [List.filter_append, List.filter_cons_of_neg (by simp),
      ← List.filter_append]
    exact List.filter_eq_self.mpr hother
  rw [hfilter]
  exact List.perm_middle

theorem find?_key_eq_some {α κ : Type*} [DecidableEq κ] {key : α → κ}
    {xs : List α} (hnodup : (xs.map key).Nodup) {x : α} (hmem : x ∈ xs) :
    xs.find? (fun y => key y = key x) = some x := by
  have hsome : (xs.find? fun y => key y = key x).isSome := by
    rw [List.find?_isSome]
    exact ⟨x, hmem, by simp⟩
  obtain ⟨y, hfind⟩ := Option.isSome_iff_exists.mp hsome
  have hkey : key y = key x := by simpa using List.find?_some hfind
  rw [hfind, List.inj_on_of_nodup_map hnodup (List.mem_of_find?_eq_some hfind)
    hmem hkey]

/-- Address 0 is the null pointer. -/
structure Memory (β : Type) where
  cells : List (ℕ × β)
  nodup : (cells.map Prod.fst).Nodup
  nonnull : 0 ∉ cells.map Prod.fst

/-- Where the next block comes. -/
structure Allocator (β : Type) where
  place : Memory β → ℕ
  fresh : ∀ m : Memory β, place m ∉ m.cells.map Prod.fst
  nonnull : ∀ m : Memory β, place m ≠ 0

/-- Above everything that there is. -/
def Allocator.above {β : Type} : Allocator β where
  place := fun m => (m.cells.map Prod.fst).foldr max 0 + 1
  fresh := by
    intro m hmem
    have hle := List.le_max_of_le' 0 hmem (le_refl _)
    omega
  nonnull := fun _ => Nat.succ_ne_zero _

/-- An action on memory; `none` is undefined behaviour. -/
abbrev MemoryAction (β : Type) := StateT (Memory β) Option

namespace Memory

variable {β : Type}

def empty : Memory β := ⟨[], List.nodup_nil, List.not_mem_nil⟩

def insert (m : Memory β) (a : ℕ) (b : β) (hfresh : a ∉ m.cells.map Prod.fst)
    (hnonnull : a ≠ 0) : Memory β where
  cells := (a, b) :: m.cells
  nodup := List.nodup_cons.mpr ⟨hfresh, m.nodup⟩
  nonnull := by
    intro hmem
    rcases List.mem_cons.mp hmem with hzero | hold
    · exact hnonnull hzero.symm
    · exact m.nonnull hold

def get? (m : Memory β) (a : ℕ) : Option β :=
  (m.cells.find? fun cell => cell.1 = a).map Prod.snd

/-- The memory without what is at an address. -/
def erase (m : Memory β) (a : ℕ) : Memory β where
  cells := m.cells.filter fun cell => cell.1 ≠ a
  nodup := m.nodup.sublist (List.filter_sublist.map Prod.fst)
  nonnull := fun hmem =>
    m.nonnull ((List.filter_sublist.map Prod.fst).subset hmem)

variable {m : Memory β} {a : ℕ} {b : β}

theorem get?_eq_some : m.get? a = some b ↔ (a, b) ∈ m.cells := by
  unfold get?
  constructor
  · intro h
    obtain ⟨cell, hfind, rfl⟩ := Option.map_eq_some_iff.mp h
    have haddr : cell.1 = a := by simpa using List.find?_some hfind
    rw [← haddr]
    exact List.mem_of_find?_eq_some hfind
  · intro hmem
    rw [find?_key_eq_some m.nodup hmem]
    rfl

theorem cells_erase_perm (hmem : (a, b) ∈ m.cells) :
    m.cells.Perm ((a, b) :: (m.erase a).cells) :=
  perm_cons_filter_ne m.nodup hmem

end Memory

namespace MemoryAction

open Memory

variable {β : Type}

def alloc (allocator : Allocator β) (b : β) : MemoryAction β ℕ := fun m =>
  let a := allocator.place m
  some (a, m.insert a b (allocator.fresh m) (allocator.nonnull m))

def load (a : ℕ) : MemoryAction β β := fun m => (m.get? a).map fun b => (b, m)

/-- The block which was there. -/
def release (a : ℕ) : MemoryAction β β := fun m =>
  (m.get? a).map fun b => (b, m.erase a)

def undefined {α : Type} : MemoryAction β α := fun _ => none

/-- Whatever else there is: an action which owns `own` is defined, and leaves
what the postcondition tells in its place. -/
def Owning {α : Type} (act : MemoryAction β α) (own : List (ℕ × β))
    (post : α → List (ℕ × β) → Prop) : Prop :=
  ∀ (m : Memory β) (rest : List (ℕ × β)), m.cells.Perm (own ++ rest) →
    ∃ (x : α) (m' : Memory β) (own' : List (ℕ × β)),
      act m = some (x, m') ∧ m'.cells.Perm (own' ++ rest) ∧ post x own'

variable {α α' : Type} {act : MemoryAction β α} {own own' rest : List (ℕ × β)}
variable {post post' : α → List (ℕ × β) → Prop}

/-! ## Rules -/

theorem owning_pure (x : α) (h : post x own) :
    Owning (pure x : MemoryAction β α) own post :=
  fun m _ hperm => ⟨x, m, own, rfl, hperm, h⟩

theorem Owning.bind {next : α → MemoryAction β α'}
    {post' : α' → List (ℕ × β) → Prop} (h : Owning act own post)
    (hnext : ∀ x own', post x own' → Owning (next x) own' post') :
    Owning (act >>= next) own post' := by
  intro m rest hperm
  obtain ⟨x, m', own', hrun, hperm', hpost⟩ := h m rest hperm
  obtain ⟨y, m'', own'', hrun', hperm'', hpost'⟩ :=
    hnext x own' hpost m' rest hperm'
  refine ⟨y, m'', own'', ?_, hperm'', hpost'⟩
  show (act m).bind _ = _
  rw [hrun]
  exact hrun'

theorem Owning.weaken (h : Owning act own post)
    (himp : ∀ x own', post x own' → post' x own') : Owning act own post' := by
  intro m rest hperm
  obtain ⟨x, m', own', hrun, hperm', hpost⟩ := h m rest hperm
  exact ⟨x, m', own', hrun, hperm', himp x own' hpost⟩

theorem Owning.perm (h : Owning act own' post) (hperm : own.Perm own') :
    Owning act own post := fun m rest hcells =>
  h m rest (hcells.trans (hperm.append_right rest))

/-- What an action does not need it keeps. -/
theorem Owning.frame (h : Owning act own post) (kept : List (ℕ × β)) :
    Owning act (own ++ kept) fun x own' =>
      ∃ mine, own' = mine ++ kept ∧ post x mine := by
  intro m rest hperm
  obtain ⟨x, m', mine, hrun, hperm', hpost⟩ :=
    h m (kept ++ rest) (hperm.trans (by rw [List.append_assoc]))
  refine ⟨x, m', mine ++ kept, hrun, ?_, mine, rfl, hpost⟩
  rw [List.append_assoc]
  exact hperm'

/-- The next action has what is kept, and what this one has left. -/
theorem Owning.step {next : α → MemoryAction β α'} {kept : List (ℕ × β)}
    {post' : α' → List (ℕ × β) → Prop} (h : Owning act own' post)
    (hperm : own.Perm (own' ++ kept))
    (hnext : ∀ x mine, post x mine → Owning (next x) (mine ++ kept) post') :
    Owning (act >>= next) own post' := by
  refine ((h.frame kept).perm hperm).bind ?_
  rintro x own ⟨mine, rfl, hpost⟩
  exact hnext x mine hpost

theorem owning_alloc (allocator : Allocator β) (b : β) :
    Owning (alloc allocator b) [] fun a own => a ≠ 0 ∧ own = [(a, b)] := by
  intro m rest hperm
  exact ⟨_, _, [(allocator.place m, b)], rfl, hperm.cons _,
    allocator.nonnull m, rfl⟩

theorem owning_load {a : ℕ} {b : β} (hmem : (a, b) ∈ own) :
    Owning (load a) own fun x own' => x = b ∧ own' = own := by
  intro m rest hperm
  have hget : m.get? a = some b :=
    get?_eq_some.mpr (hperm.mem_iff.mpr (List.mem_append_left rest hmem))
  refine ⟨b, m, own, ?_, hperm, rfl, rfl⟩
  unfold load
  rw [hget]
  rfl

theorem owning_release (a : ℕ) (b : β) :
    Owning (release a) [(a, b)] fun x own => x = b ∧ own = [] := by
  intro m rest hperm
  have hmem : (a, b) ∈ m.cells :=
    hperm.mem_iff.mpr (List.mem_append_left rest List.mem_cons_self)
  refine ⟨b, m.erase a, [], ?_, ?_, rfl, rfl⟩
  · unfold release
    rw [get?_eq_some.mpr hmem]
    rfl
  · exact ((cells_erase_perm hmem).symm.trans hperm).cons_inv

/-- One block after another. -/
theorem owning_mapM_alloc (allocator : Allocator β) {γ : Type} (block : γ → β)
    (xs : List γ) :
    Owning (xs.mapM fun x => alloc allocator (block x)) [] fun addrs own =>
      addrs.length = xs.length ∧ own.Perm (addrs.zip (xs.map block)) := by
  induction xs with
  | nil => exact owning_pure [] ⟨rfl, .nil⟩
  | cons x rest ih =>
      rw [List.mapM_cons]
      refine (owning_alloc allocator (block x)).bind ?_
      rintro a own ⟨-, rfl⟩
      refine ih.step (.refl _) ?_
      rintro addrs mine ⟨hlength, hmine⟩
      refine owning_pure (a :: addrs) ⟨?_, ?_⟩
      · rw [List.length_cons, List.length_cons, hlength]
      · exact (List.perm_append_singleton _ _).trans (hmine.cons _)

end MemoryAction

end ImageReader
