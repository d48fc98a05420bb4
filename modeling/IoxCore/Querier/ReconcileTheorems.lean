import IoxCore.Querier.StateReconciler

/-!
# What the reconciler guarantees

Two results about `Querier.reconcile`:

* `filterParquetFiles_exactly_once`: under the ingester's contract (every persisted write of a
  partition sits in exactly one catalog file, the envelope holds exactly the unpersisted ones, and
  an ingester file newer than the watermark holds only newer writes), the files that survive
  `filterParquetFiles` and the ingester envelope together hold every write of the partition exactly
  once, and the filter fails exactly on a compacted file above a reported watermark;
* `reconcile_attaches_delete_predicates`: the delete predicates `reconcile` attaches to a kept file
  are those of the tombstones of its sequencer that are newer than the file, not processed for it,
  and not newer than what the ingester reports for its partition, each once; the ingester chunks
  are passed on untouched and carry no delete predicate.
-/

namespace IoxCore.Querier

open IngesterPartitionInfo ParquetFileInfo

/-! ## Files and the writes they hold -/

/-- A parquet file together with the sequence numbers of the writes it holds. The catalog does not
record them; that they lie at or below the file's `max_sequence_number` is part of the structure. -/
structure HeldFile where
  partitionId : PartitionId
  maxSequenceNumber : SequenceNumber
  compactionLevel : CompactionLevel
  writes : List SequenceNumber
  writes_le : ∀ w ∈ writes, w ≤ maxSequenceNumber

instance : ParquetFileInfo HeldFile where
  partitionId f := f.partitionId
  maxSequenceNumber f := f.maxSequenceNumber
  compactionLevel f := f.compactionLevel

/-- How many of `files` belong to partition `p` and hold the write `w`. -/
def holders (files : List HeldFile) (p : PartitionId) (w : SequenceNumber) : Nat :=
  files.countP fun f => decide (f.partitionId = p ∧ w ∈ f.writes)

section ExactlyOnce

variable {I : Type} [IngesterPartitionInfo I]

/-- The ingester's contract for partition `p`, whose writes are `writes` and whose unpersisted
data, the envelope of the ingester response, holds the writes `envelope` accepts. -/
structure IngesterContract (ingesterPartitions : List I) (files : List HeldFile)
    (p : PartitionId) (writes : List SequenceNumber) (envelope : SequenceNumber → Prop) : Prop where
  /-- Reported with a parquet watermark `M`. -/
  persisted : ∀ i ∈ ingesterPartitions, IngesterPartitionInfo.partitionId i = p →
    ∀ M, parquetMaxSequenceNumber i = some M →
      (∀ w ∈ writes, w ≤ M → holders files p w = 1) ∧ (∀ w ∈ writes, envelope w ↔ M < w) ∧
      ∀ f ∈ files, f.partitionId = p → f.compactionLevel = .initial → M < f.maxSequenceNumber →
        ∀ w ∈ f.writes, M < w
  /-- Reported without a parquet watermark. -/
  unpersisted : ∀ i ∈ ingesterPartitions, IngesterPartitionInfo.partitionId i = p →
    parquetMaxSequenceNumber i = none → ∀ w ∈ writes, envelope w
  /-- Not reported. -/
  unreported : (∀ i ∈ ingesterPartitions, IngesterPartitionInfo.partitionId i ≠ p) →
    (∀ w ∈ writes, holders files p w = 1) ∧ ∀ w ∈ writes, ¬ envelope w

variable {ingesterPartitions : List I}

/-- A file conflicts exactly when it is compacted and lies above the watermark its partition
reports. -/
theorem conflicts_iff
    (hdistinct : (ingesterPartitions.map IngesterPartitionInfo.partitionId).Nodup) (f : HeldFile) :
    conflicts ingesterPartitions f = true ↔ f.compactionLevel ≠ .initial ∧
      ∃ i ∈ ingesterPartitions, IngesterPartitionInfo.partitionId i = f.partitionId ∧
        ∃ M, parquetMaxSequenceNumber i = some M ∧ M < f.maxSequenceNumber := by
  unfold conflicts
  split
  · rename_i i hi
    obtain ⟨him, hid⟩ := (lookupTable_eq_some_iff hdistinct _ i).mp hi
    constructor
    · intro h
      split at h
      · rename_i M hM
        simp only [Bool.and_eq_true, bne_iff_ne, decide_eq_true_eq] at h
        exact ⟨h.1, i, him, hid, M, hM, h.2⟩
      · cases h
    · rintro ⟨hl, j, hj, hjid, M, hM, hlt⟩
      have : j = i := List.inj_on_of_nodup_map hdistinct hj him (hjid.trans hid.symm)
      subst this
      simp only [hM]
      simpa using ⟨hl, hlt⟩
  · rename_i hi
    have hnone := (lookupTable_eq_none_iff _ _).mp hi
    simp only [Bool.false_eq_true, false_iff, not_and, not_exists]
    intro _ i hi hid
    exact absurd hid (hnone i hi)

/-- Files that survive the filter, for a partition reported with watermark `M`. -/
theorem keeps_of_reported
    (hdistinct : (ingesterPartitions.map IngesterPartitionInfo.partitionId).Nodup)
    {i : I} (hi : i ∈ ingesterPartitions) {f : HeldFile}
    (hid : IngesterPartitionInfo.partitionId i = f.partitionId) :
    keeps ingesterPartitions f = match parquetMaxSequenceNumber i with
      | some M => decide (f.maxSequenceNumber ≤ M)
      | none => false := by
  have hl : lookupTable ingesterPartitions (ParquetFileInfo.partitionId f) = some i :=
    (lookupTable_eq_some_iff hdistinct _ i).mpr ⟨hi, hid⟩
  simp only [keeps, hl]
  rfl

theorem keeps_of_unreported {f : HeldFile}
    (hnone : ∀ i ∈ ingesterPartitions, IngesterPartitionInfo.partitionId i ≠ f.partitionId) :
    keeps ingesterPartitions f = true := by
  have hl : lookupTable ingesterPartitions (ParquetFileInfo.partitionId f) = none :=
    (lookupTable_eq_none_iff _ _).mpr hnone
  simp only [keeps, hl]

/-- Counting the holders among the kept files. -/
theorem holders_filter (files : List HeldFile) (keep : HeldFile → Bool) (p : PartitionId)
    (w : SequenceNumber) :
    holders (files.filter keep) p w =
      files.countP fun f => decide (f.partitionId = p ∧ w ∈ f.writes) && keep f := by
  rw [holders, List.countP_filter]

/-- The filter fails exactly when some file is compacted and lies above the watermark its
partition reports. -/
theorem filterParquetFiles_error_iff
    (hdistinct : (ingesterPartitions.map IngesterPartitionInfo.partitionId).Nodup)
    (files : List HeldFile) :
    filterParquetFiles ingesterPartitions files = .error .compactorConflict ↔
      ∃ f ∈ files, f.compactionLevel ≠ .initial ∧
        ∃ i ∈ ingesterPartitions, IngesterPartitionInfo.partitionId i = f.partitionId ∧
          ∃ M, parquetMaxSequenceNumber i = some M ∧ M < f.maxSequenceNumber := by
  rw [filterParquetFiles_eq]
  by_cases hany : files.any (conflicts ingesterPartitions)
  · simp only [hany, ite_true]
    obtain ⟨f, hf, hc⟩ := List.any_eq_true.mp hany
    exact ⟨fun _ => ⟨f, hf, (conflicts_iff hdistinct f).mp hc⟩, fun _ => trivial⟩
  · simp only [hany, Bool.false_eq_true, ite_false, reduceCtorEq, false_iff]
    rintro ⟨f, hf, hc⟩
    exact hany (List.any_eq_true.mpr ⟨f, hf, (conflicts_iff hdistinct f).mpr hc⟩)

/-- With no file in conflict, each write of partition `p` is held by exactly one kept file, or
by the envelope and no kept file. -/
theorem holders_keeps_or_envelope
    (hdistinct : (ingesterPartitions.map IngesterPartitionInfo.partitionId).Nodup)
    {files : List HeldFile} {p : PartitionId} {writes : List SequenceNumber}
    {envelope : SequenceNumber → Prop}
    (hcontract : IngesterContract ingesterPartitions files p writes envelope)
    (hnc : ∀ f ∈ files, conflicts ingesterPartitions f = false) {w : SequenceNumber}
    (hw : w ∈ writes) :
    (holders (files.filter (keeps ingesterPartitions)) p w = 1 ∧ ¬ envelope w) ∨
      (holders (files.filter (keeps ingesterPartitions)) p w = 0 ∧ envelope w) := by
  rw [holders_filter]
  by_cases hrep : ∃ i ∈ ingesterPartitions, IngesterPartitionInfo.partitionId i = p
  · obtain ⟨i, hi, hid⟩ := hrep
    cases hM : parquetMaxSequenceNumber i with
    | none =>
      refine .inr ⟨List.countP_eq_zero.mpr fun f hf hfw => ?_,
        hcontract.unpersisted i hi hid hM w hw⟩
      simp only [Bool.and_eq_true, decide_eq_true_eq] at hfw
      rw [keeps_of_reported hdistinct hi (hid.trans hfw.1.1.symm), hM] at hfw
      exact Bool.false_ne_true hfw.2
    | some M =>
      obtain ⟨hheld, henv, hnew⟩ := hcontract.persisted i hi hid M hM
      by_cases hwM : w ≤ M
      · refine .inl ⟨?_, fun h => absurd ((henv w hw).mp h) (not_lt.mpr hwM)⟩
        rw [← hheld w hw hwM, holders]
        refine List.countP_congr fun f hf => ?_
        simp only [Bool.and_eq_true, decide_eq_true_eq, and_iff_left_iff_imp]
        rintro ⟨hfp, hfw⟩
        rw [keeps_of_reported hdistinct hi (hid.trans hfp.symm), hM, decide_eq_true_eq]
        by_contra hlt
        have hinit : f.compactionLevel = .initial := Classical.byContradiction fun hl =>
          Bool.false_ne_true ((hnc f hf).symm.trans ((conflicts_iff hdistinct f).mpr
            ⟨hl, i, hi, hid.trans hfp.symm, M, hM, not_le.mp hlt⟩))
        exact absurd (hnew f hf hfp hinit (not_le.mp hlt) w hfw) (not_lt.mpr hwM)
      · refine .inr ⟨List.countP_eq_zero.mpr fun f hf hfw => ?_, (henv w hw).mpr (not_le.mp hwM)⟩
        simp only [Bool.and_eq_true, decide_eq_true_eq] at hfw
        rw [keeps_of_reported hdistinct hi (hid.trans hfw.1.1.symm), hM,
          decide_eq_true_eq] at hfw
        exact hwM ((f.writes_le w hfw.1.2).trans hfw.2)
  · push_neg at hrep
    obtain ⟨hheld, hnenv⟩ := hcontract.unreported hrep
    refine .inl ⟨?_, hnenv w hw⟩
    rw [← hheld w hw, holders]
    refine List.countP_congr fun f _ => ?_
    simp only [Bool.and_eq_true, decide_eq_true_eq, and_iff_left_iff_imp]
    rintro ⟨hfp, -⟩
    exact keeps_of_unreported fun i hi hid => hrep i hi (hid.trans hfp)

/-- Every write of partition `p` is held exactly once, by a kept file or by the envelope. -/
theorem filterParquetFiles_exactly_once
    (hdistinct : (ingesterPartitions.map IngesterPartitionInfo.partitionId).Nodup)
    (files : List HeldFile) (p : PartitionId) (writes : List SequenceNumber)
    (envelope : SequenceNumber → Prop)
    (hcontract : IngesterContract ingesterPartitions files p writes envelope) :
    (filterParquetFiles ingesterPartitions files = .error .compactorConflict ↔
      ∃ f ∈ files, f.compactionLevel ≠ .initial ∧
        ∃ i ∈ ingesterPartitions, IngesterPartitionInfo.partitionId i = f.partitionId ∧
          ∃ M, parquetMaxSequenceNumber i = some M ∧ M < f.maxSequenceNumber) ∧
    ∀ kept, filterParquetFiles ingesterPartitions files = .ok kept → ∀ w ∈ writes,
      (holders kept p w = 1 ∧ ¬ envelope w) ∨ (holders kept p w = 0 ∧ envelope w) := by
  refine ⟨filterParquetFiles_error_iff hdistinct files, fun kept hkept w hw => ?_⟩
  rw [filterParquetFiles_eq] at hkept
  split at hkept <;> cases hkept
  rename_i hany
  exact holders_keeps_or_envelope hdistinct hcontract (by simpa using hany) hw

theorem filterParquetFiles_exactly_once_watermark :
    let ingesterPartitions : List (IngesterPartition Unit) := [⟨1, 0, some 5, none, []⟩]
    let files : List HeldFile :=
      [⟨1, 5, .initial, [3, 5], by decide⟩, ⟨1, 9, .initial, [7, 9], by decide⟩]
    (ingesterPartitions.map IngesterPartitionInfo.partitionId).Nodup ∧
    IngesterContract ingesterPartitions files 1 [3, 5, 7, 9] (5 < ·) ∧
    (filterParquetFiles ingesterPartitions files = .error .compactorConflict ↔
      ∃ f ∈ files, f.compactionLevel ≠ .initial ∧
        ∃ i ∈ ingesterPartitions, IngesterPartitionInfo.partitionId i = f.partitionId ∧
          ∃ M, parquetMaxSequenceNumber i = some M ∧ M < f.maxSequenceNumber) ∧
    ∀ kept, filterParquetFiles ingesterPartitions files = .ok kept →
      ∀ w ∈ [3, 5, 7, 9], (holders kept 1 w = 1 ∧ ¬ 5 < w) ∨ (holders kept 1 w = 0 ∧ 5 < w) := by
  intro ingesterPartitions files
  have hcontract : IngesterContract ingesterPartitions files 1 [3, 5, 7, 9] (5 < ·) := by
    refine ⟨?_, ?_, ?_⟩
    · rintro i hi - M hM
      simp only [ingesterPartitions, List.mem_singleton] at hi
      subst hi
      cases hM
      decide
    · rintro i hi - hM
      simp only [ingesterPartitions, List.mem_singleton] at hi
      subst hi
      cases hM
    · intro h
      exact absurd rfl (h _ (List.mem_singleton_self _))
  exact ⟨by decide, hcontract, filterParquetFiles_exactly_once (by decide) _ 1 _ _ hcontract⟩

end ExactlyOnce

/-! ## Delete predicates -/

section DeletePredicates

variable {D C : Type}

/-- When tombstone `t` concerns file `f`: same sequencer, newer than everything in the file, not
processed for the file, and not newer than what the ingester reports for the file's partition,
if an ingester partition of the tombstone's sequencer reports it at all. -/
def Attaches (ingesterPartitions : List (IngesterPartition C))
    (processed : ParquetFileId → TombstoneId → Bool) (f : QuerierChunk D)
    (t : QuerierTombstone D) : Prop :=
  t.sequencerId = f.meta.sequencerId ∧ f.meta.maxSequenceNumber < t.sequenceNumber ∧
  processed f.meta.parquetFileId t.tombstoneId = false ∧
  ((∀ p ∈ ingesterPartitions, p.sequencerId = t.sequencerId → p.partitionId ≠ f.meta.partitionId) ∨
    ∃ p ∈ ingesterPartitions, p.sequencerId = t.sequencerId ∧
      p.partitionId = f.meta.partitionId ∧
      ∃ T, p.tombstoneMaxSequenceNumber = some T ∧ t.sequenceNumber ≤ T)

/-- A tombstone is excluded for a partition exactly when an ingester partition of its sequencer
reports that partition without having applied it. -/
theorem mem_tombstoneExcludeList_iff {ingesterPartitions : List (IngesterPartition C)}
    {tombstones : List (QuerierTombstone D)}
    (htombstones : (tombstones.map (·.tombstoneId)).Nodup) {t : QuerierTombstone D}
    (ht : t ∈ tombstones) (partitionId : PartitionId) :
    (partitionId, t.tombstoneId) ∈ tombstoneExcludeList ingesterPartitions tombstones ↔
      ∃ p ∈ ingesterPartitions, p.sequencerId = t.sequencerId ∧ p.partitionId = partitionId ∧
        ∀ T, p.tombstoneMaxSequenceNumber = some T → T < t.sequenceNumber := by
  rw [mem_tombstoneExcludeList]
  constructor
  · rintro ⟨t', ht', hid, hp⟩
    rwa [List.inj_on_of_nodup_map htombstones ht' ht hid] at hp
  · exact fun hp => ⟨t, ht, rfl, hp⟩

/-- The tombstones `buildChunksFromParquet` keeps for a file are those that `Attaches` accepts. -/
theorem mem_chunkTombstones_iff {ingesterPartitions : List (IngesterPartition C)}
    (hpartitions : (ingesterPartitions.map (·.partitionId)).Nodup)
    {tombstones : List (QuerierTombstone D)}
    (htombstones : (tombstones.map (·.tombstoneId)).Nodup)
    (processed : ParquetFileId → TombstoneId → Bool) (f : QuerierChunk D)
    {t : QuerierTombstone D} (ht : t ∈ tombstones) :
    t ∈ chunkTombstones (tombstoneExcludeList ingesterPartitions tombstones) processed tombstones f ↔
      Attaches ingesterPartitions processed f t := by
  simp only [chunkTombstones, tombstonesBySequencer, List.filter_filter, List.mem_filter, ht,
    true_and, Bool.and_eq_true, Bool.not_eq_true', decide_eq_false_iff_not, decide_eq_true_eq,
    not_le, mem_tombstoneExcludeList_iff htombstones ht, Attaches]
  constructor
  · rintro ⟨⟨⟨hexcl, hlt⟩, hproc⟩, hseq⟩
    refine ⟨hseq, hlt, hproc, ?_⟩
    by_cases hrep : ∃ p ∈ ingesterPartitions, p.sequencerId = t.sequencerId ∧
        p.partitionId = f.meta.partitionId
    · obtain ⟨p, hp, hps, hpp⟩ := hrep
      cases hT : p.tombstoneMaxSequenceNumber with
      | none => exact absurd ⟨p, hp, hps, hpp, by simp [hT]⟩ hexcl
      | some T =>
        refine .inr ⟨p, hp, hps, hpp, T, hT, not_lt.mp fun hTt => hexcl ?_⟩
        exact ⟨p, hp, hps, hpp, fun T' hT' => by simp_all⟩
    · push_neg at hrep
      exact .inl hrep
  · rintro ⟨hseq, hlt, hproc, hrep⟩
    refine ⟨⟨⟨?_, hlt⟩, hproc⟩, hseq⟩
    rintro ⟨p, hp, hps, hpp, hnew⟩
    rcases hrep with hnone | ⟨q, hq, hqs, hqp, T, hT, hle⟩
    · exact hnone p hp hps hpp
    · have : p = q := List.inj_on_of_nodup_map hpartitions hp hq (hpp.trans hqp.symm)
      subst this
      exact absurd (hnew T hT) (not_lt.mpr hle)

/-- The chunk `build_chunks_from_parquet` makes of a kept file: the file's metadata with, if its
sequencer has tombstones, the predicates of exactly the tombstones `Attaches` accepts, in catalog
order and each once, and otherwise the predicates the file came with. -/
theorem attachTombstones_spec {ingesterPartitions : List (IngesterPartition C)}
    (hpartitions : (ingesterPartitions.map (·.partitionId)).Nodup)
    {tombstones : List (QuerierTombstone D)}
    (htombstones : (tombstones.map (·.tombstoneId)).Nodup)
    (processed : ParquetFileId → TombstoneId → Bool) (f : QuerierChunk D) :
    let c := attachTombstones (tombstoneExcludeList ingesterPartitions tombstones) processed
      tombstones f
    c.meta = f.meta ∧
      ((∃ t ∈ tombstones, t.sequencerId = f.meta.sequencerId) →
        ∃ ts : List (QuerierTombstone D), ts.Sublist tombstones ∧
          (ts.map (·.tombstoneId)).Nodup ∧
          (∀ t, t ∈ ts ↔ t ∈ tombstones ∧ Attaches ingesterPartitions processed f t) ∧
          c.deletePredicates = ts.map (·.deletePredicate)) ∧
      ((∀ t ∈ tombstones, t.sequencerId ≠ f.meta.sequencerId) →
        c.deletePredicates = f.deletePredicates) := by
  have hsub : (chunkTombstones (tombstoneExcludeList ingesterPartitions tombstones) processed
      tombstones f).Sublist tombstones := (List.filter_sublist _).trans (List.filter_sublist _)
  dsimp only
  unfold attachTombstones
  split
  next hby =>
    have hnone : ∀ t ∈ tombstones, t.sequencerId ≠ f.meta.sequencerId := by
      simpa [tombstonesBySequencer, List.filter_eq_nil_iff] using hby
    exact ⟨rfl, fun ⟨t, ht, hseq⟩ => absurd hseq (hnone t ht), fun _ => rfl⟩
  next t₀ _ hby =>
    have ht₀ : t₀ ∈ tombstonesBySequencer tombstones f.meta.sequencerId :=
      hby ▸ List.mem_cons_self _ _
    simp only [tombstonesBySequencer, List.mem_filter, decide_eq_true_eq] at ht₀
    refine ⟨rfl, fun _ => ⟨_, hsub, hsub.map _ |>.nodup htombstones, fun t => ⟨fun ht => ?_,
      fun ⟨ht, hatt⟩ => (mem_chunkTombstones_iff hpartitions htombstones processed f ht).mpr hatt⟩,
      rfl⟩, fun hnone => absurd ht₀.2 (hnone t₀ ht₀.1)⟩
    have htm := hsub.subset ht
    exact ⟨htm, (mem_chunkTombstones_iff hpartitions htombstones processed f htm).mp ht⟩

/-- `reconcile` keeps the files `filterParquetFiles` keeps and makes one parquet chunk of each, with
the file's metadata and the delete predicates of exactly the tombstones `Attaches` accepts, each
once (a file whose sequencer has no tombstone keeps the predicates it came with); after them come
the ingester's chunks, unchanged, which carry no delete predicate. -/
theorem reconcile_attaches_delete_predicates (ingesterPartitions : List (IngesterPartition C))
    (hpartitions : (ingesterPartitions.map (·.partitionId)).Nodup)
    (tombstones : List (QuerierTombstone D))
    (htombstones : (tombstones.map (·.tombstoneId)).Nodup)
    (parquetFiles : List (QuerierChunk D)) (processed : ParquetFileId → TombstoneId → Bool)
    (chunks : List (Chunk D C))
    (h : reconcile ingesterPartitions tombstones parquetFiles processed = .ok chunks) :
    ∃ kept parquetChunks, filterParquetFiles ingesterPartitions parquetFiles = .ok kept ∧
      chunks = parquetChunks.map .parquet ++
        (ingesterPartitions.flatMap (·.chunks)).map .ingester ∧
      List.Forall₂ (fun f c => c.meta = f.meta ∧
        ((∃ t ∈ tombstones, t.sequencerId = f.meta.sequencerId) →
          ∃ ts : List (QuerierTombstone D), ts.Sublist tombstones ∧
            (ts.map (·.tombstoneId)).Nodup ∧
            (∀ t, t ∈ ts ↔ t ∈ tombstones ∧ Attaches ingesterPartitions processed f t) ∧
            c.deletePredicates = ts.map (·.deletePredicate)) ∧
        ((∀ t ∈ tombstones, t.sequencerId ≠ f.meta.sequencerId) →
          c.deletePredicates = f.deletePredicates)) kept parquetChunks ∧
      ∀ c ∈ chunks.drop parquetChunks.length, c.deletePredicates = [] := by
  unfold reconcile buildChunksFromParquet at h
  cases hf : filterParquetFiles ingesterPartitions parquetFiles with
  | error e => rw [hf] at h; cases h
  | ok kept =>
    rw [hf] at h
    cases h
    have hingester : buildIngesterChunks ingesterPartitions =
        ((ingesterPartitions.flatMap (·.chunks)).map .ingester : List (Chunk D C)) := by
      simp [buildIngesterChunks, List.map_flatMap]
    refine ⟨kept, kept.map (attachTombstones (tombstoneExcludeList ingesterPartitions tombstones)
      processed tombstones), rfl, by simp [hingester], List.forall₂_map_right_iff.mpr
      (List.forall₂_same.mpr fun f _ => attachTombstones_spec hpartitions htombstones processed f),
      fun c hc => ?_⟩
    simp only [List.map_map, List.length_map, List.drop_left', hingester, List.mem_map] at hc
    obtain ⟨_, -, rfl⟩ := hc
    rfl

theorem reconcile_attaches_delete_predicates_watermark :
    let ingesterPartitions : List (IngesterPartition Unit) := [⟨1, 0, some 5, some 7, [()]⟩]
    let tombstones : List (QuerierTombstone Nat) := [⟨10, 0, 6, 100⟩, ⟨11, 0, 8, 101⟩]
    let parquetFiles : List (QuerierChunk Nat) :=
      [⟨⟨20, 1, 0, 5, .initial⟩, []⟩, ⟨⟨21, 2, 3, 9, .initial⟩, [300]⟩]
    let processed : ParquetFileId → TombstoneId → Bool := fun _ _ => false
    let chunks : List (Chunk Nat Unit) :=
      [.parquet ⟨⟨20, 1, 0, 5, .initial⟩, [100]⟩, .parquet ⟨⟨21, 2, 3, 9, .initial⟩, [300]⟩,
        .ingester ()]
    (ingesterPartitions.map (·.partitionId)).Nodup ∧ (tombstones.map (·.tombstoneId)).Nodup ∧
    reconcile ingesterPartitions tombstones parquetFiles processed = .ok chunks ∧
    ∃ kept parquetChunks, filterParquetFiles ingesterPartitions parquetFiles = .ok kept ∧
      chunks = parquetChunks.map .parquet ++
        (ingesterPartitions.flatMap (·.chunks)).map .ingester ∧
      List.Forall₂ (fun f c => c.meta = f.meta ∧
        ((∃ t ∈ tombstones, t.sequencerId = f.meta.sequencerId) →
          ∃ ts : List (QuerierTombstone Nat), ts.Sublist tombstones ∧
            (ts.map (·.tombstoneId)).Nodup ∧
            (∀ t, t ∈ ts ↔ t ∈ tombstones ∧ Attaches ingesterPartitions processed f t) ∧
            c.deletePredicates = ts.map (·.deletePredicate)) ∧
        ((∀ t ∈ tombstones, t.sequencerId ≠ f.meta.sequencerId) →
          c.deletePredicates = f.deletePredicates)) kept parquetChunks ∧
      ∀ c ∈ chunks.drop parquetChunks.length, c.deletePredicates = [] := by
  intro ingesterPartitions tombstones parquetFiles processed chunks
  have h : reconcile ingesterPartitions tombstones parquetFiles processed = .ok chunks := rfl
  exact ⟨by decide, by decide, h, reconcile_attaches_delete_predicates _ (by decide) _ (by decide) _ _ _ h⟩

end DeletePredicates

end IoxCore.Querier
