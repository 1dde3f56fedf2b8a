import ImageReader.VmdkErrors
import ImageReader.VmdkExtents

/-!
# Registering sources with the cache

Every file that opening a chain uses is registered with the block cache under
an index, and read through a cursor on that index.  `Registers` is a step of
the open code together with what it does to the cache: the sources it
registers and the extents it makes, in order, also when the step fails.
-/

namespace ImageReader
namespace Vmdk

/-- An extent, with the index and the file it has been registered under. -/
structure OpenedExtent where
  extent : Extent
  registered : Option (ℕ × Url)

inductive CacheEvent where
  /-- `cache.add_source(idx, src)` with the source of `url` -/
  | addSource (idx : ℕ) (url : Url) (src : BackingFile)
  /-- `extents.push(..)`, with a cursor on the index it is registered under -/
  | pushExtent (opened : OpenedExtent)

/-- The indices passed to `add_source`. -/
def addedIndices (events : List CacheEvent) : List ℕ :=
  events.filterMap fun
    | .addSource idx _ _ => some idx
    | .pushExtent _ => none

def pushedExtents (events : List CacheEvent) : List OpenedExtent :=
  events.filterMap fun
    | .addSource _ _ _ => none
    | .pushExtent opened => some opened

/-- The source which the cache has under an index: the last one that was
registered. -/
def cachedUnder (idx : ℕ) : List CacheEvent → Option BackingFile
  | [] => none
  | .addSource i _ src :: events =>
      (cachedUnder idx events).or (if i = idx then some src else none)
  | .pushExtent _ :: events => cachedUnder idx events

section Events

variable (a b : List CacheEvent)

@[simp] theorem addedIndices_append :
    addedIndices (a ++ b) = addedIndices a ++ addedIndices b :=
  List.filterMap_append

@[simp] theorem pushedExtents_append :
    pushedExtents (a ++ b) = pushedExtents a ++ pushedExtents b :=
  List.filterMap_append

@[simp] theorem addedIndices_nil : addedIndices [] = [] := rfl

@[simp] theorem addedIndices_addSource (idx : ℕ) (url : Url)
    (src : BackingFile) :
    addedIndices (.addSource idx url src :: a) = idx :: addedIndices a := rfl

@[simp] theorem addedIndices_pushExtent (opened : OpenedExtent) :
    addedIndices (.pushExtent opened :: a) = addedIndices a := rfl

@[simp] theorem pushedExtents_nil : pushedExtents [] = [] := rfl

@[simp] theorem pushedExtents_addSource (idx : ℕ) (url : Url)
    (src : BackingFile) :
    pushedExtents (.addSource idx url src :: a) = pushedExtents a := rfl

@[simp] theorem pushedExtents_pushExtent (opened : OpenedExtent) :
    pushedExtents (.pushExtent opened :: a) = opened :: pushedExtents a := rfl

end Events

/-! ## Steps with their events -/

structure Registers (α : Type) where
  events : List CacheEvent
  result : Outcome OpenError α

namespace Registers

variable {α β : Type}

def lift (x : Outcome OpenError α) : Registers α := ⟨[], x⟩

def bind (x : Registers α) (f : α → Registers β) : Registers β where
  events := x.events ++
    match x.result with
    | .ok a => (f a).events
    | _ => []
  result := x.result >>= fun a => (f a).result

instance : Monad Registers where
  pure a := lift (.ok a)
  bind := bind

def addSource (idx : ℕ) (url : Url) (src : BackingFile) : Registers Unit :=
  ⟨[.addSource idx url src], .ok ()⟩

def pushExtent (opened : OpenedExtent) : Registers OpenedExtent :=
  ⟨[.pushExtent opened], .ok opened⟩

@[simp] theorem result_lift (x : Outcome OpenError α) :
    (lift x).result = x := rfl

@[simp] theorem result_pure (a : α) : (pure a : Registers α).result = .ok a :=
  rfl

@[simp] theorem result_bind (x : Registers α) (f : α → Registers β) :
    (x >>= f).result = x.result >>= fun a => (f a).result := rfl

theorem bind_eq_ok {x : Registers α} {f : α → Registers β} {b : β} :
    (x >>= f).result = .ok b ↔
      ∃ a, x.result = .ok a ∧ (f a).result = .ok b :=
  Outcome.bind_eq_ok

@[simp] theorem result_addSource (idx : ℕ) (url : Url) (src : BackingFile) :
    (addSource idx url src).result = .ok () := rfl

@[simp] theorem result_pushExtent (opened : OpenedExtent) :
    (pushExtent opened).result = .ok opened := rfl

end Registers

end Vmdk
end ImageReader
