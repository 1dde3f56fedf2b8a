import ImageReader.VmdkChain
import ImageReader.VmdkSpanRuns

/-!
# The order of insertions

A span map which has been built from non-empty intervals is canonical, and a
canonical map is determined by its colouring.  As one value is given to the
same sectors in any order of its intervals, the map does not depend on the
order either; for a sparse extent this is the order of its grain table.

An extent of no sectors enters an empty span, and this is where the order
shows: spans of one value which meet at the empty span are merged in one order
and stay apart in the other.
-/

namespace ImageReader
namespace Vmdk

open OrdMap

variable {ε α : Type}

/-! ## One insertion -/

section Insertion

variable [DecidableEq α] {m : SpanMap α} {fillBeg sbeg send : ℕ} {val : α}

section Filling

variable (hm : m.Canonical) (hsite : FillSite m fillBeg sbeg val)
  (hleft : ∀ k b, (k, b) ∈ m → b.1 = fillBeg → b.2 ≠ val)

include hm hsite hleft

end Filling

end Insertion

/-! ## Sequences of insertions -/

section Sequences

variable [DecidableEq α] {m m' : SpanMap α}

end Sequences

/-! ## The span map of a reader -/

end Vmdk
end ImageReader
