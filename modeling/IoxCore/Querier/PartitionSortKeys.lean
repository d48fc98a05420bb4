import IoxCore.BTreeMap
import Mathlib.Data.Finset.Basic

/-!
# Partition sort keys of the reconciled chunks

`Reconciler::sync_partition_sort_keys` in `querier/src/table/state_reconciler.rs`, the last step
of `reconcile`. It gathers, for every partition that has chunks, the primary-key columns of all of
them, asks the partition cache once per partition for a sort key covering those columns, and gives
every chunk of a partition that sort key.

What it reads of a chunk (`UpdatableQuerierChunk`: `partition_id()`, the primary key of
`schema()`, `update_partition_sort_key`) is a parameter, as is the partition cache's `sort_key`,
whose module is not in the source tree, read as a function of the partition and its set of
columns. The `HashMap`s of the code are `BTreeMap`s here: the code only looks keys up in them, and
asks the cache once per key whatever the order of the keys.

The result: `sync_partition_sort_keys` never reaches its `expect`, and gives each chunk of a
partition the sort key for the union of the primary keys of all the chunks of that partition.
-/

namespace IoxCore.Querier

section SyncPartitionSortKeys

variable {K SK : Type} (partitionId : K → Option PartitionId) (primaryKey : K → List String)

/-- One step of the loop that gathers the columns of each partition:
`all_columns.entry(partition_id).or_default().extend(schema.primary_key())`. -/
def addColumns (allColumns : BTreeMap PartitionId (Finset String))
    (p : PartitionId × List String) : BTreeMap PartitionId (Finset String) :=
  allColumns.insert p.1 ((allColumns.get? p.1).getD ∅ ∪ p.2.toFinset)

/-- The columns of each partition that has chunks: the loop over `chunk_schemas`. -/
def collectColumns (chunks : List K) : BTreeMap PartitionId (Finset String) :=
  (chunks.filterMap fun c => (partitionId c).map fun id => (id, primaryKey c)).foldl addColumns
    BTreeMap.empty

/-- The loop that asks the partition cache for the sort key of each partition. -/
def fetchSortKeys (sortKey : PartitionId → Finset String → SK)
    (allColumns : BTreeMap PartitionId (Finset String)) : BTreeMap PartitionId SK :=
  allColumns.entries.foldl (fun sortKeys p => sortKeys.insert p.1 (sortKey p.1 p.2))
    BTreeMap.empty

/-- `Reconciler::sync_partition_sort_keys`; `none` where the `expect` panics. -/
def syncPartitionSortKeys (sortKey : PartitionId → Finset String → SK)
    (updatePartitionSortKey : K → SK → K) (chunks : List K) : Option (List K) :=
  let sortKeys := fetchSortKeys sortKey (collectColumns partitionId primaryKey chunks)
  chunks.mapM fun chunk =>
    match partitionId chunk with
    | some id => (sortKeys.get? id).map (updatePartitionSortKey chunk)
    | none => some chunk

/-- The columns of partition `id`: the primary keys of all its chunks. -/
def partitionColumns (chunks : List K) (id : PartitionId) : Finset String :=
  ((chunks.filter fun c => partitionId c = some id).flatMap primaryKey).toFinset

/-! ## The gathered columns -/

/-- The bucket of `id` after the loop: the seed's bucket and the columns of the pairs of `id`. -/
theorem getD_foldl_addColumns (id : PartitionId) :
    ∀ (ps : List (PartitionId × List String)) (m : BTreeMap PartitionId (Finset String)),
      ((ps.foldl addColumns m).get? id).getD ∅ =
        (m.get? id).getD ∅ ∪ ((ps.filter fun p => p.1 = id).flatMap Prod.snd).toFinset
  | [], m => by simp
  | p :: ps, m => by
    rw [List.foldl_cons, getD_foldl_addColumns id ps, addColumns, BTreeMap.get?_insert]
    by_cases hp : p.1 = id
    · subst hp
      simp [List.filter_cons, Finset.union_assoc]
    · simp [List.filter_cons, hp]

/-- The loop has a bucket for `id` once a pair of `id` has been seen. -/
theorem isSome_foldl_addColumns (id : PartitionId) :
    ∀ (ps : List (PartitionId × List String)) (m : BTreeMap PartitionId (Finset String)),
      (m.get? id).isSome ∨ (∃ p ∈ ps, p.1 = id) → ((ps.foldl addColumns m).get? id).isSome
  | [], m, h => by simpa using h
  | p :: ps, m, h => by
    rw [List.foldl_cons]
    refine isSome_foldl_addColumns id ps _ ?_
    rw [addColumns, BTreeMap.get?_insert]
    by_cases hp : p.1 = id
    · simp [hp]
    · simpa [hp] using h

theorem filter_filterMap_partition (chunks : List K) (id : PartitionId) :
    ((chunks.filterMap fun c => (partitionId c).map fun id => (id, primaryKey c)).filter
        fun p => p.1 = id).flatMap Prod.snd =
      (chunks.filter fun c => partitionId c = some id).flatMap primaryKey := by
  induction chunks with
  | nil => rfl
  | cons c chunks ih =>
    cases hc : partitionId c with
    | none => simpa [List.filterMap_cons, hc] using ih
    | some id' =>
      by_cases hid : id' = id
      · subst hid
        simp [List.filterMap_cons, hc, ih]
      · simpa [List.filterMap_cons, hc, hid] using ih

/-- Every partition of a chunk has its bucket, holding the primary keys of all its chunks. -/
theorem get?_collectColumns {chunks : List K} {c : K} (hc : c ∈ chunks) {id : PartitionId}
    (hid : partitionId c = some id) :
    (collectColumns partitionId primaryKey chunks).get? id =
      some (partitionColumns partitionId primaryKey chunks id) := by
  have hsome := isSome_foldl_addColumns id
    (chunks.filterMap fun c => (partitionId c).map fun id => (id, primaryKey c)) BTreeMap.empty
    (.inr ⟨(id, primaryKey c), List.mem_filterMap.mpr ⟨c, hc, by simp [hid]⟩, rfl⟩)
  have hgetD := getD_foldl_addColumns id
    (chunks.filterMap fun c => (partitionId c).map fun id => (id, primaryKey c)) BTreeMap.empty
  rw [filter_filterMap_partition] at hgetD
  obtain ⟨cols, hcols⟩ := Option.isSome_iff_exists.mp hsome
  rw [collectColumns, hcols]
  simpa [hcols, partitionColumns] using hgetD

/-! ## The fetched sort keys -/

/-- The sort keys fetched for the entries of a sorted list, on top of a seed. -/
theorem get?_foldl_fetch (sortKey : PartitionId → Finset String → SK) (id : PartitionId) :
    ∀ (l : List (PartitionId × Finset String)) (acc : BTreeMap PartitionId SK),
      l.Pairwise (fun a b => a.1 < b.1) →
      (l.foldl (fun sortKeys p => sortKeys.insert p.1 (sortKey p.1 p.2)) acc).get? id =
        match BTreeMap.lookup id l with
        | some columns => some (sortKey id columns)
        | none => acc.get? id
  | [], acc, _ => rfl
  | q :: l, acc, hs => by
    rw [List.pairwise_cons] at hs
    rw [List.foldl_cons, get?_foldl_fetch sortKey id l _ hs.2, BTreeMap.get?_insert]
    by_cases hq : q.1 = id
    · subst hq
      simp [BTreeMap.lookup, BTreeMap.lookup_eq_none_of_lt hs.1]
    · simp [BTreeMap.lookup, hq]

theorem get?_fetchSortKeys (sortKey : PartitionId → Finset String → SK)
    (allColumns : BTreeMap PartitionId (Finset String)) (id : PartitionId) :
    (fetchSortKeys sortKey allColumns).get? id = (allColumns.get? id).map (sortKey id) := by
  rw [fetchSortKeys, get?_foldl_fetch sortKey id _ _ allColumns.sorted]
  show _ = (BTreeMap.lookup id allColumns.entries).map (sortKey id)
  cases BTreeMap.lookup id allColumns.entries <;> rfl

/-! ## The whole synchronisation -/

theorem mapM_eq_some_map {α β : Type} {f : α → Option β} {g : α → β} :
    ∀ {l : List α}, (∀ a ∈ l, f a = some (g a)) → l.mapM f = some (l.map g)
  | [], _ => rfl
  | a :: l, h => by
    rw [List.mapM_cons, h a (List.mem_cons_self _ _),
      mapM_eq_some_map fun b hb => h b (List.mem_cons_of_mem _ hb)]
    rfl

/-- `sync_partition_sort_keys` never reaches its `expect`: every chunk with a partition gets the
sort key the cache gives for the union of the primary keys of all the chunks of that partition,
and the others are left as they are, in order. -/
theorem syncPartitionSortKeys_eq (sortKey : PartitionId → Finset String → SK)
    (updatePartitionSortKey : K → SK → K) (chunks : List K) :
    syncPartitionSortKeys partitionId primaryKey sortKey updatePartitionSortKey chunks =
      some (chunks.map fun chunk =>
        match partitionId chunk with
        | some id => updatePartitionSortKey chunk
            (sortKey id (partitionColumns partitionId primaryKey chunks id))
        | none => chunk) := by
  refine mapM_eq_some_map fun c hc => ?_
  cases hid : partitionId c with
  | none => rfl
  | some id =>
    simp [get?_fetchSortKeys, get?_collectColumns partitionId primaryKey hc hid]

end SyncPartitionSortKeys

end IoxCore.Querier
