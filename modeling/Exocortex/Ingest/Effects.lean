import Exocortex.Library.JsonText
import Exocortex.Storage.Calls

/-!
# The effect of an ingested batch

What the ingest service commits with a batch: the identity of the batch, its rows, and
the effect that tells the rest of the system, region by region, how many memories and
relationships came in.

Two facts make the effect countable. Its identity is the JSON text of the batch key, so
batches with different keys have effects with different identities (`keyJson_injective`);
and it names no region twice (`postIngestEffect_regions`).
-/

namespace Exocortex

open Library InMemoryStorage

/-- The fields of a submitted batch that name it. -/
structure IngestBatch where
  orgId : String
  producerId : String
  batchId : String
  sourceUri : String

/-- The rows a batch commits, and those of them that its producer sent. -/
structure CommitRows where
  memories : List Memory
  relationships : List Relationship
  producerMemories : List Memory
  accepted : ℕ

def IngestBatch.key (batch : IngestBatch) : IngestBatchKey :=
  ⟨batch.orgId, batch.producerId, batch.batchId⟩

/-- The JSON text of a batch key. -/
def keyJson (key : IngestBatchKey) : String :=
  String.ofList ("\x7b\"org_id\":".toList ++ (quoted key.orgId.toList ++
    (",\"producer_id\":".toList ++ (quoted key.producerId.toList ++
      (",\"batch_id\":".toList ++ (quoted key.batchId.toList ++ "\x7d".toList))))))

/-- The memories and relationships counted so far in a region. -/
def deltaOf (regions : Table RegionKey (ℕ × ℕ)) (region : RegionKey) : ℕ × ℕ :=
  (regions.lookup region).getD (0, 0)

/-- The region a producer's memory belongs to. -/
def regionOf (batch : IngestBatch) (memory : Memory) : RegionKey :=
  ⟨batch.orgId, memory.context.projectId.getD "*", memory.memoryType⟩

def countMemory (batch : IngestBatch)
    (acc : Table RegionKey (ℕ × ℕ) × Table MemoryId RegionKey) (memory : Memory) :
    Table RegionKey (ℕ × ℕ) × Table MemoryId RegionKey :=
  let region := regionOf batch memory
  let delta := deltaOf acc.1 region
  (acc.1.insert region (delta.1 + 1, delta.2), acc.2.insert memory.id region)

/-- A relationship counts in the region of its source, when the producer sent that. -/
def countRelationship (memoryRegions : Table MemoryId RegionKey)
    (regions : Table RegionKey (ℕ × ℕ)) (relationship : Relationship) :
    Table RegionKey (ℕ × ℕ) :=
  match memoryRegions.lookup relationship.source with
  | none => regions
  | some region =>
      let delta := deltaOf regions region
      regions.insert region (delta.1, delta.2 + 1)

/-- Regions order by organization, project and memory type. -/
def regionLe (left right : RegionKey) : Bool :=
  if left.org ≠ right.org then stringLe left.org right.org
  else if left.project ≠ right.project then stringLe left.project right.project
  else left.memoryType ≤ right.memoryType

/-- The counts of a batch, region by region. -/
def regionCounts (batch : IngestBatch) (rows : CommitRows) : Table RegionKey (ℕ × ℕ) :=
  let counted := rows.producerMemories.foldl (countMemory batch) (∅, ∅)
  rows.relationships.foldl (countRelationship counted.2) counted.1

def postIngestEffect (batch : IngestBatch) (rows : CommitRows) (key : IngestBatchKey) :
    PostIngestEffect where
  effectId := keyJson key
  sessionMemoryIds :=
    if "session://".toList.isPrefixOf batch.sourceUri.toList then
      rows.producerMemories.map (·.id)
    else []
  regionDeltas := ((regionCounts batch rows).entries.map fun entry =>
    (⟨entry.1, entry.2.1, entry.2.2⟩ : IngestRegionDelta)).insertionSort
      fun left right => regionLe left.region right.region

/-- The call that commits a batch with its effect. -/
def commitRows (batch : IngestBatch) (rows : CommitRows) : Call :=
  .commitIngestBatchWithEffect batch.key rows.memories rows.relationships rows.accepted
    (postIngestEffect batch rows batch.key)

theorem keyJson_injective : Function.Injective keyJson := by
  intro left right same
  obtain ⟨org, producer, batch⟩ := quoted_fields_inj (String.ofList_injective same)
  rw [String.toList_inj] at org producer batch
  cases left
  cases right
  dsimp only at org producer batch
  rw [org, producer, batch]

/-- An effect names no region twice. -/
theorem postIngestEffect_regions (batch : IngestBatch) (rows : CommitRows)
    (key : IngestBatchKey) :
    ((postIngestEffect batch rows key).regionDeltas.map IngestRegionDelta.region).Nodup := by
  have sorted : ((postIngestEffect batch rows key).regionDeltas.map
      IngestRegionDelta.region).Perm ((regionCounts batch rows).entries.map Sigma.fst) := by
    apply ((List.perm_insertionSort _ _).map _).trans
    rw [List.map_map]
    exact List.Perm.refl _
  exact sorted.nodup_iff.mpr (regionCounts batch rows).nodupKeys

end Exocortex
