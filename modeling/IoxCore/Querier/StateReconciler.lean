import IoxCore.DataTypes

/-!
# Reconciling catalog and ingester state

`querier/src/table/state_reconciler.rs` and its `interface.rs`. A query reads the parquet files and
tombstones of a table from the catalog, and asks the ingesters for the data they have not
persisted yet. Each ingester partition reports two watermarks, the greatest sequence number it has
persisted as parquet and the greatest one up to which it has applied tombstones.

* `filterParquetFiles` drops the files the ingester still holds in memory, and fails with
  `compactorConflict` on a compacted file that straddles the ingester's parquet watermark;
* `tombstoneExcludeList` lists the (partition, tombstone) pairs the ingester has not yet applied;
* `buildChunksFromParquet` attaches to every remaining file the delete predicates of the tombstones
  that still concern it, and `reconcile` appends the ingester's own chunks.

The three `*Info` traits become classes, so the functions are generic in the same way as the code.
Tracing and spans are not modelled; the final sort-key synchronisation, which touches neither the
chosen files nor their delete predicates, is `PartitionSortKeys`.
-/

namespace IoxCore.Querier

/-- `ReconcileError`. -/
inductive ReconcileError
  | compactorConflict
  deriving DecidableEq, Repr

/-- `IngesterPartitionInfo`. -/
class IngesterPartitionInfo (I : Type) where
  partitionId : I → PartitionId
  sequencerId : I → SequencerId
  parquetMaxSequenceNumber : I → Option SequenceNumber
  tombstoneMaxSequenceNumber : I → Option SequenceNumber

/-- `ParquetFileInfo`. -/
class ParquetFileInfo (P : Type) where
  partitionId : P → PartitionId
  maxSequenceNumber : P → SequenceNumber
  compactionLevel : P → CompactionLevel

/-- `TombstoneInfo`. -/
class TombstoneInfo (T : Type) where
  id : T → TombstoneId
  sequencerId : T → SequencerId
  sequenceNumber : T → SequenceNumber

open IngesterPartitionInfo ParquetFileInfo

/-! ## `filter_parquet_files` -/

section FilterParquetFiles

variable {I P : Type} [IngesterPartitionInfo I] [ParquetFileInfo P]

/-- `lookup_table.get(&partition_id)`. The table is collected from the ingester partitions in
order, so a later partition with the same id replaces an earlier one. -/
def lookupTable (ingesterPartitions : List I) (partitionId : PartitionId) : Option I :=
  ingesterPartitions.reverse.find? fun i => IngesterPartitionInfo.partitionId i = partitionId

/-- The file is compacted and holds data the ingester had not persisted when it answered. -/
def conflicts (ingesterPartitions : List I) (file : P) : Bool :=
  match lookupTable ingesterPartitions (ParquetFileInfo.partitionId file) with
  | some ingesterPartition =>
    match parquetMaxSequenceNumber ingesterPartition with
    | some persistedMax =>
      compactionLevel file != .initial && maxSequenceNumber file > persistedMax
    | none => false
  | none => false

/-- The file survives the filter: its partition is not reported, or it was persisted at or below
the reported parquet watermark. -/
def keeps (ingesterPartitions : List I) (file : P) : Bool :=
  match lookupTable ingesterPartitions (ParquetFileInfo.partitionId file) with
  | some ingesterPartition =>
    match parquetMaxSequenceNumber ingesterPartition with
    | some persistedMax => maxSequenceNumber file ≤ persistedMax
    | none => false
  | none => true

/-- The body of the loop of `filter_parquet_files` for one file: an error, or whether the file
is pushed onto the result. -/
def fileDecision (ingesterPartitions : List I) (file : P) : Except ReconcileError Bool :=
  match lookupTable ingesterPartitions (ParquetFileInfo.partitionId file) with
  | some ingesterPartition =>
    match parquetMaxSequenceNumber ingesterPartition with
    | some persistedMax =>
      if compactionLevel file ≠ .initial ∧ maxSequenceNumber file > persistedMax then
        .error .compactorConflict
      else if maxSequenceNumber file > persistedMax then .ok false
      else .ok true
    | none => .ok false
  | none => .ok true

/-- `filter_parquet_files`: the loop over the files, returning at the first conflict. -/
def filterParquetFiles (ingesterPartitions : List I) : List P → Except ReconcileError (List P)
  | [] => .ok []
  | file :: files => do
    let keep ← fileDecision ingesterPartitions file
    let result ← filterParquetFiles ingesterPartitions files
    pure (if keep then file :: result else result)

theorem fileDecision_eq (ingesterPartitions : List I) (file : P) :
    fileDecision ingesterPartitions file =
      if conflicts ingesterPartitions file then .error .compactorConflict
      else .ok (keeps ingesterPartitions file) := by
  unfold fileDecision conflicts keeps
  split
  · split
    · rename_i persistedMax _
      by_cases hlt : persistedMax < maxSequenceNumber file
      · by_cases hl : compactionLevel file = .initial <;> simp [hl, hlt]
      · simp [hlt, not_lt.mp hlt]
    · rfl
  · rfl

/-- What `filter_parquet_files` computes: a conflict anywhere is an error, otherwise the files
that `keeps` accepts, in their order. -/
theorem filterParquetFiles_eq (ingesterPartitions : List I) (files : List P) :
    filterParquetFiles ingesterPartitions files =
      if files.any (conflicts ingesterPartitions) then .error .compactorConflict
      else .ok (files.filter (keeps ingesterPartitions)) := by
  induction files with
  | nil => rfl
  | cons file files ih =>
    rw [filterParquetFiles, fileDecision_eq, ih]
    by_cases hc : conflicts ingesterPartitions file
    · simp only [hc, ite_true, List.any_cons, Bool.true_or]
      rfl
    · by_cases hr : files.any (conflicts ingesterPartitions) <;>
        simp only [hc, hr, ite_true, ite_false, List.any_cons, Bool.false_or, List.filter_cons] <;>
        rfl

/-- With pairwise distinct partition ids, the lookup finds exactly the reported partition. -/
theorem lookupTable_eq_some_iff {ingesterPartitions : List I}
    (hdistinct : (ingesterPartitions.map IngesterPartitionInfo.partitionId).Nodup)
    (partitionId : PartitionId) (i : I) :
    lookupTable ingesterPartitions partitionId = some i ↔
      i ∈ ingesterPartitions ∧ IngesterPartitionInfo.partitionId i = partitionId := by
  constructor
  · intro h
    have := List.find?_some h
    exact ⟨List.mem_reverse.mp (List.mem_of_find?_eq_some h), by simpa using this⟩
  · rintro ⟨hi, rfl⟩
    obtain ⟨j, hj⟩ := Option.isSome_iff_exists.mp
      (List.find?_isSome.mpr ⟨i, List.mem_reverse.mpr hi, by simp⟩ :
        (lookupTable ingesterPartitions (IngesterPartitionInfo.partitionId i)).isSome)
    have hjmem := List.mem_reverse.mp (List.mem_of_find?_eq_some hj)
    have hjid : IngesterPartitionInfo.partitionId j = IngesterPartitionInfo.partitionId i := by
      simpa using List.find?_some hj
    rw [lookupTable, hj, List.inj_on_of_nodup_map hdistinct hjmem hi hjid]

theorem lookupTable_eq_none_iff (ingesterPartitions : List I) (partitionId : PartitionId) :
    lookupTable ingesterPartitions partitionId = none ↔
      ∀ i ∈ ingesterPartitions, IngesterPartitionInfo.partitionId i ≠ partitionId := by
  simp [lookupTable, List.find?_eq_none]

end FilterParquetFiles

/-! ## `tombstone_exclude_list` -/

section TombstoneExcludeList

variable {I T : Type} [IngesterPartitionInfo I] [TombstoneInfo T]

/-- The body of the inner loop of `tombstone_exclude_list`: the pair to exclude when partition
`p` has not applied tombstone `t`, because it has applied no tombstone yet or only older ones. -/
def excludePair (t : T) (p : I) : Option (PartitionId × TombstoneId) :=
  match tombstoneMaxSequenceNumber p with
  | some persistedMax =>
    if TombstoneInfo.sequenceNumber t > persistedMax then
      some (IngesterPartitionInfo.partitionId p, TombstoneInfo.id t)
    else none
  | none => some (IngesterPartitionInfo.partitionId p, TombstoneInfo.id t)

/-- The pairs one tombstone contributes, over the ingester partitions of its sequencer. -/
def excludedFor (ingesterPartitions : List I) (t : T) : List (PartitionId × TombstoneId) :=
  (ingesterPartitions.filter fun p =>
    IngesterPartitionInfo.sequencerId p = TombstoneInfo.sequencerId t).filterMap (excludePair t)

/-- `tombstone_exclude_list`. The `HashSet` is a list; only membership is ever asked of it. -/
def tombstoneExcludeList (ingesterPartitions : List I) (tombstones : List T) :
    List (PartitionId × TombstoneId) :=
  tombstones.flatMap (excludedFor ingesterPartitions)

theorem excludePair_eq_some_iff (t : T) (p : I) (pair : PartitionId × TombstoneId) :
    excludePair t p = some pair ↔
      pair = (IngesterPartitionInfo.partitionId p, TombstoneInfo.id t) ∧
      ∀ persistedMax, tombstoneMaxSequenceNumber p = some persistedMax →
        persistedMax < TombstoneInfo.sequenceNumber t := by
  unfold excludePair
  split
  · rename_i persistedMax h
    by_cases hlt : persistedMax < TombstoneInfo.sequenceNumber t <;> simp [h, hlt, eq_comm]
  · rename_i h
    simp [h, eq_comm]

/-- Membership in the exclusion list, as a statement about the inputs. -/
theorem mem_tombstoneExcludeList (ingesterPartitions : List I) (tombstones : List T)
    (partitionId : PartitionId) (tombstoneId : TombstoneId) :
    (partitionId, tombstoneId) ∈ tombstoneExcludeList ingesterPartitions tombstones ↔
      ∃ t ∈ tombstones, TombstoneInfo.id t = tombstoneId ∧ ∃ p ∈ ingesterPartitions,
        IngesterPartitionInfo.sequencerId p = TombstoneInfo.sequencerId t ∧
        IngesterPartitionInfo.partitionId p = partitionId ∧
        ∀ persistedMax, tombstoneMaxSequenceNumber p = some persistedMax →
          persistedMax < TombstoneInfo.sequenceNumber t := by
  simp only [tombstoneExcludeList, excludedFor, List.mem_flatMap, List.mem_filterMap,
    List.mem_filter, decide_eq_true_eq, excludePair_eq_some_iff, Prod.mk.injEq]
  constructor
  · rintro ⟨t, ht, p, ⟨hp, hseq⟩, ⟨rfl, rfl⟩, hmax⟩
    exact ⟨t, ht, rfl, p, hp, hseq, rfl, hmax⟩
  · rintro ⟨t, ht, rfl, p, hp, hseq, rfl, hmax⟩
    exact ⟨t, ht, p, ⟨hp, hseq⟩, ⟨rfl, rfl⟩, hmax⟩

end TombstoneExcludeList

/-! ## `Reconciler::reconcile` -/

/-- The catalog metadata of a parquet chunk that the reconciler reads through `chunk.meta()`. -/
structure ChunkMeta where
  parquetFileId : ParquetFileId
  partitionId : PartitionId
  sequencerId : SequencerId
  maxSequenceNumber : SequenceNumber
  compactionLevel : CompactionLevel
  deriving DecidableEq, Repr

/-- `QuerierChunk`: a parquet file with the delete predicates attached to it. A predicate is an
`Arc<DeletePredicate>` shared with its tombstone, so `D` is left abstract. -/
structure QuerierChunk (D : Type) where
  meta : ChunkMeta
  deletePredicates : List D

/-- Modelled from the spec: `QuerierChunk::with_delete_predicates`, which replaces the chunk's
predicates (the chunk module is not in the source tree; the reconciler calls it once per chunk with
the full list). -/
def QuerierChunk.withDeletePredicates {D : Type} (chunk : QuerierChunk D)
    (deletePredicates : List D) : QuerierChunk D :=
  { chunk with deletePredicates }

instance {D : Type} : ParquetFileInfo (QuerierChunk D) where
  partitionId c := c.meta.partitionId
  maxSequenceNumber c := c.meta.maxSequenceNumber
  compactionLevel c := c.meta.compactionLevel

/-- `QuerierTombstone`: a catalog tombstone with its delete predicate. -/
structure QuerierTombstone (D : Type) where
  tombstoneId : TombstoneId
  sequencerId : SequencerId
  sequenceNumber : SequenceNumber
  deletePredicate : D

instance {D : Type} : TombstoneInfo (QuerierTombstone D) where
  id t := t.tombstoneId
  sequencerId t := t.sequencerId
  sequenceNumber t := t.sequenceNumber

/-- `IngesterPartition`: one partition of an ingester response, with its chunks of unpersisted
data (of type `C`). -/
structure IngesterPartition (C : Type) where
  partitionId : PartitionId
  sequencerId : SequencerId
  parquetMaxSequenceNumber : Option SequenceNumber
  tombstoneMaxSequenceNumber : Option SequenceNumber
  chunks : List C

instance {C : Type} : IngesterPartitionInfo (IngesterPartition C) where
  partitionId p := p.partitionId
  sequencerId p := p.sequencerId
  parquetMaxSequenceNumber p := p.parquetMaxSequenceNumber
  tombstoneMaxSequenceNumber p := p.tombstoneMaxSequenceNumber

/-- A chunk of the reconciled result: a parquet file or a chunk of ingester data. -/
inductive Chunk (D C : Type)
  | parquet (chunk : QuerierChunk D)
  | ingester (chunk : C)

/-- Modelled from the spec: `QueryChunkMeta::delete_predicates` of a reconciled chunk. A parquet
chunk carries the predicates attached to it; an ingester chunk carries none, since the ingester
has already materialized its tombstones (the ingester chunk module is not in the source tree). -/
def Chunk.deletePredicates {D C : Type} : Chunk D C → List D
  | .parquet chunk => chunk.deletePredicates
  | .ingester _ => []

section Reconcile

variable {D C : Type}

/-- `tombstones_by_sequencer.get(&sequencer_id)`: the tombstones of one sequencer, in order. -/
def tombstonesBySequencer (tombstones : List (QuerierTombstone D)) (sequencerId : SequencerId) :
    List (QuerierTombstone D) :=
  tombstones.filter fun t => t.sequencerId = sequencerId

/-- The tombstones the loop over `tombstones_by_sequencer` keeps for one chunk: not excluded by
the ingester's answer, newer than everything in the file, and not processed for it. -/
def chunkTombstones (tombstoneExclusion : List (PartitionId × TombstoneId))
    (processed : ParquetFileId → TombstoneId → Bool) (tombstones : List (QuerierTombstone D))
    (chunk : QuerierChunk D) : List (QuerierTombstone D) :=
  (tombstonesBySequencer tombstones chunk.meta.sequencerId).filter fun t =>
    !decide ((chunk.meta.partitionId, t.tombstoneId) ∈ tombstoneExclusion) &&
    !decide (t.sequenceNumber ≤ chunk.meta.maxSequenceNumber) &&
    !processed chunk.meta.parquetFileId t.tombstoneId

/-- The body of the loop of `build_chunks_from_parquet` for one chunk. A chunk whose sequencer has
no tombstone is passed on as it is. -/
def attachTombstones (tombstoneExclusion : List (PartitionId × TombstoneId))
    (processed : ParquetFileId → TombstoneId → Bool) (tombstones : List (QuerierTombstone D))
    (chunk : QuerierChunk D) : QuerierChunk D :=
  match tombstonesBySequencer tombstones chunk.meta.sequencerId with
  | [] => chunk
  | _ :: _ => chunk.withDeletePredicates
      ((chunkTombstones tombstoneExclusion processed tombstones chunk).map (·.deletePredicate))

/-- `Reconciler::build_chunks_from_parquet`. The processed-tombstone cache is the relation
`processed`. -/
def buildChunksFromParquet (ingesterPartitions : List (IngesterPartition C))
    (tombstones : List (QuerierTombstone D)) (parquetFiles : List (QuerierChunk D))
    (processed : ParquetFileId → TombstoneId → Bool) :
    Except ReconcileError (List (Chunk D C)) := do
  let tombstoneExclusion := tombstoneExcludeList ingesterPartitions tombstones
  let parquetFiles ← filterParquetFiles ingesterPartitions parquetFiles
  pure (parquetFiles.map fun chunk =>
    .parquet (attachTombstones tombstoneExclusion processed tombstones chunk))

/-- `Reconciler::build_ingester_chunks`: the ingester's chunks, unchanged. -/
def buildIngesterChunks (ingesterPartitions : List (IngesterPartition C)) : List (Chunk D C) :=
  ingesterPartitions.flatMap fun p => p.chunks.map .ingester

/-- `Reconciler::reconcile`, up to the sort-key synchronisation. -/
def reconcile (ingesterPartitions : List (IngesterPartition C))
    (tombstones : List (QuerierTombstone D)) (parquetFiles : List (QuerierChunk D))
    (processed : ParquetFileId → TombstoneId → Bool) :
    Except ReconcileError (List (Chunk D C)) := do
  let chunks ← buildChunksFromParquet ingesterPartitions tombstones parquetFiles processed
  pure (chunks ++ buildIngesterChunks ingesterPartitions)

end Reconcile

end IoxCore.Querier
