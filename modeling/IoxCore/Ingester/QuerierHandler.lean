import IoxCore.DataTypes

/-!
# The ingester's answer to a querier

`prepare_data_to_querier` in `ingester/src/querier_handler.rs`. It walks the sequencers of the
ingester and, for each that knows the requested namespace and table, gathers the table's
unpersisted partitions. It fails with `NamespaceNotFound` when no sequencer knows the namespace and
with `TableNotFound` when none of them holds an unpersisted partition of the table; otherwise it
answers with a stream of one item per unpersisted partition, each built by
`prepare_data_to_querier_for_partition`.

`IngesterData`, its sequencers, namespaces and tables, and `UnpersistedPartitionData` live in
`ingester/src/data.rs`, which is not in the source tree. The sequencers are the list the loop walks,
and what the loop reads of them (`namespace`, `table_data`, `unpersisted_partition_data`) is a
parameter. So is the query of one partition, `prepare_data_to_querier_for_partition`, whose batches
come from `QueryableBatch::with_data` in `data.rs`. A stream is the list of its items.

The results: a successful answer holds exactly the unpersisted partitions of the table, in
sequencer order, each with its own id and status even where its query finds no data; and the two
errors name the requested namespace and table and say which of the two lookups found nothing. A
table that exists but whose partitions are all persisted is answered with `TableNotFound`.
-/

namespace IoxCore.Ingester

/-- `IngesterQueryRequest`, by the fields `prepare_data_to_querier` reads itself. Its columns and
predicate are read by the query of each partition. -/
structure IngesterQueryRequest where
  «namespace» : String
  table : String
  deriving DecidableEq, Repr

/-- `UnpersistedPartitionData`: a partition's id and status, and its batches (`non_persisted` and
`persisting`), which only the query of the partition reads. -/
structure UnpersistedPartitionData (B PS : Type) where
  partitionId : PartitionId
  partitionStatus : PS
  batches : B

/-- `IngesterQueryPartition`: the stream of a partition's record batch streams, its id and its
status. -/
structure IngesterQueryPartition (PS R : Type) where
  snapshots : List R
  partitionId : PartitionId
  status : PS

/-- The errors `prepare_data_to_querier` returns itself; the others of `querier_handler.rs` come
from the query of a partition and reach the stream wrapped in `ArrowError::ExternalError`. -/
inductive Error
  | namespaceNotFound (namespaceName : String)
  | tableNotFound (namespaceName tableName : String)
  deriving DecidableEq, Repr

/-- The `Display` of the errors. -/
def Error.message : Error → String
  | .namespaceNotFound namespaceName =>
    s!"No Namespace Data found for the given namespace name {namespaceName}"
  | .tableNotFound namespaceName tableName =>
    s!"No Table Data found for the given namespace name {namespaceName}, table name {tableName}"

section PrepareDataToQuerier

variable {S NS TD B PS R E : Type} (namespaceData : S → String → Option NS)
  (tableData : NS → String → Option TD)
  (unpersistedPartitionData : TD → List (UnpersistedPartitionData B PS))
  (forPartition : UnpersistedPartitionData B PS → Except E (Option R))

/-- One turn of the loop over the sequencers, on `(found_namespace, unpersisted_partitions)`. -/
def collectStep (request : IngesterQueryRequest)
    (acc : Bool × List (UnpersistedPartitionData B PS)) (sequencerData : S) :
    Bool × List (UnpersistedPartitionData B PS) :=
  match namespaceData sequencerData request.«namespace» with
  | none => acc
  | some ns =>
    match tableData ns request.table with
    | none => (true, acc.2)
    | some td => (true, acc.2 ++ unpersistedPartitionData td)

/-- The item of the answer for one partition, the `async move` block of the stream: the error of
its query, or its id and status with the record batch stream it found, if any. -/
def partitionItem (partition : UnpersistedPartitionData B PS) :
    Except E (IngesterQueryPartition PS R) :=
  (forPartition partition).map fun snapshots =>
    ⟨snapshots.toList, partition.partitionId, partition.partitionStatus⟩

/-- `prepare_data_to_querier`. -/
def prepareDataToQuerier (request : IngesterQueryRequest) (sequencers : List S) :
    Except Error (List (Except E (IngesterQueryPartition PS R))) :=
  let acc := sequencers.foldl (collectStep namespaceData tableData unpersistedPartitionData request)
    (false, [])
  if !acc.1 then .error (.namespaceNotFound request.«namespace»)
  else if acc.2.isEmpty then .error (.tableNotFound request.«namespace» request.table)
  else .ok (acc.2.map (partitionItem forPartition))

/-- The unpersisted partitions of the requested table in one sequencer: none where the sequencer
does not know the namespace or the table. -/
def tablePartitions (request : IngesterQueryRequest) (sequencerData : S) :
    List (UnpersistedPartitionData B PS) :=
  match (namespaceData sequencerData request.«namespace»).bind (tableData · request.table) with
  | some td => unpersistedPartitionData td
  | none => []

/-! ## The loop -/

/-- The loop has found the namespace once a sequencer knows it, and gathers the table's
partitions of every sequencer in order. -/
theorem foldl_collectStep (request : IngesterQueryRequest) :
    ∀ (sequencers : List S) (acc : Bool × List (UnpersistedPartitionData B PS)),
      sequencers.foldl (collectStep namespaceData tableData unpersistedPartitionData request) acc =
        (acc.1 || sequencers.any fun s => (namespaceData s request.«namespace»).isSome,
          acc.2 ++ sequencers.flatMap (tablePartitions namespaceData tableData
            unpersistedPartitionData request))
  | [], acc => by simp
  | s :: sequencers, acc => by
    rw [List.foldl_cons, foldl_collectStep request sequencers]
    cases hns : namespaceData s request.«namespace» with
    | none => simp [collectStep, tablePartitions, hns]
    | some ns =>
      cases htd : tableData ns request.table <;>
        simp [collectStep, tablePartitions, hns, htd]

/-- A sequencer with partitions of the table knows the namespace. -/
theorem any_isSome_of_flatMap_ne_nil {request : IngesterQueryRequest} {sequencers : List S}
    (h : sequencers.flatMap
      (tablePartitions namespaceData tableData unpersistedPartitionData request) ≠ []) :
    (sequencers.any fun s => (namespaceData s request.«namespace»).isSome) = true := by
  obtain ⟨p, hp⟩ := List.exists_mem_of_ne_nil _ h
  obtain ⟨s, hs, hps⟩ := List.mem_flatMap.mp hp
  refine List.any_eq_true.mpr ⟨s, hs, ?_⟩
  cases hns : namespaceData s request.«namespace»
  · simp [tablePartitions, hns] at hps
  · rfl

/-- `prepare_data_to_querier` as the lookups it makes: the namespace check, then the check for
partitions, then the answer. -/
theorem prepareDataToQuerier_eq (request : IngesterQueryRequest) (sequencers : List S) :
    (prepareDataToQuerier namespaceData tableData unpersistedPartitionData forPartition request
        sequencers : Except Error (List (Except E (IngesterQueryPartition PS R)))) =
      if !(sequencers.any fun s => (namespaceData s request.«namespace»).isSome) then
        .error (.namespaceNotFound request.«namespace»)
      else if (sequencers.flatMap
          (tablePartitions namespaceData tableData unpersistedPartitionData request)).isEmpty then
        .error (.tableNotFound request.«namespace» request.table)
      else .ok ((sequencers.flatMap
          (tablePartitions namespaceData tableData unpersistedPartitionData request)).map
            (partitionItem forPartition)) := by
  simp only [prepareDataToQuerier, foldl_collectStep, Bool.false_or, List.nil_append]

/-! ## The answer -/

/-- A successful answer has one item per unpersisted partition of the requested table, over the
sequencers in order: the error of that partition's query, or the partition's own id and status
with what its query found, kept even where it found no data. It succeeds exactly when there is
such a partition. -/
theorem prepareDataToQuerier_eq_ok_iff (request : IngesterQueryRequest) (sequencers : List S)
    (answer : List (Except E (IngesterQueryPartition PS R))) :
    prepareDataToQuerier namespaceData tableData unpersistedPartitionData forPartition request
        sequencers = .ok answer ↔
      sequencers.flatMap
          (tablePartitions namespaceData tableData unpersistedPartitionData request) ≠ [] ∧
        answer = (sequencers.flatMap
          (tablePartitions namespaceData tableData unpersistedPartitionData request)).map
            fun partition => (forPartition partition).map fun snapshots =>
              ⟨snapshots.toList, partition.partitionId, partition.partitionStatus⟩ := by
  rw [prepareDataToQuerier_eq]
  by_cases hparts : sequencers.flatMap
      (tablePartitions namespaceData tableData unpersistedPartitionData request) = []
  · simp only [hparts, List.isEmpty_nil, if_true]
    split_ifs <;> simp
  · simp only [any_isSome_of_flatMap_ne_nil namespaceData tableData unpersistedPartitionData hparts,
      Bool.not_true, Bool.false_eq_true, if_false, List.isEmpty_iff, hparts, Except.ok.injEq,
      ne_eq, not_false_eq_true, true_and]
    exact eq_comm

/-- The two errors name the request's namespace, and the table for `TableNotFound`.
`NamespaceNotFound` comes exactly when no sequencer knows the namespace; `TableNotFound` exactly
when one does but no sequencer holds an unpersisted partition of the table, whether or not the
table exists. -/
theorem prepareDataToQuerier_eq_error_iff (request : IngesterQueryRequest) (sequencers : List S)
    (e : Error) :
    (prepareDataToQuerier namespaceData tableData unpersistedPartitionData forPartition request
        sequencers : Except Error (List (Except E (IngesterQueryPartition PS R)))) = .error e ↔
      (e = .namespaceNotFound request.«namespace» ∧
          ∀ s ∈ sequencers, namespaceData s request.«namespace» = none) ∨
        (e = .tableNotFound request.«namespace» request.table ∧
          (∃ s ∈ sequencers, (namespaceData s request.«namespace»).isSome) ∧
          sequencers.flatMap
            (tablePartitions namespaceData tableData unpersistedPartitionData request) = []) := by
  have hnone : (∀ s ∈ sequencers, namespaceData s request.«namespace» = none) ↔
      (sequencers.any fun s => (namespaceData s request.«namespace»).isSome) = false := by
    simp
  rw [prepareDataToQuerier_eq, hnone, ← List.any_eq_true]
  cases sequencers.any fun s => (namespaceData s request.«namespace»).isSome
  · simp [@eq_comm _ e]
  · by_cases hparts : sequencers.flatMap
        (tablePartitions namespaceData tableData unpersistedPartitionData request) = [] <;>
      simp [hparts, @eq_comm _ e]

/-- A sequencer that knows the namespace and the table, all of whose partitions are persisted. -/
example :
    prepareDataToQuerier (fun (_ : Unit) _ => some ()) (fun _ _ => some ())
        (fun _ => ([] : List (UnpersistedPartitionData Unit Unit)))
        (fun _ => (.ok none : Except Unit (Option Unit))) ⟨"ns", "t"⟩ [()] =
      .error (.tableNotFound "ns" "t") := rfl

end PrepareDataToQuerier

end IoxCore.Ingester
