import IoxCore.BTreeMap
import Mathlib.Data.List.MinMax

/-!
# The ingester's lifecycle manager

`ingester/src/lifecycle.rs`. Ingest tasks report every write through `LifecycleHandleImpl::log_write`,
which adds to the statistics of the write's partition and to the global byte counter. Once a second
`LifecycleManager::maybe_persist` takes a snapshot of those statistics and picks the partitions to
persist: those that are too old, cold or large, and then, while the counter is still over the memory
threshold, the largest of the others.

This file holds the state, `logWrite`, and the pure part of a pass (`selectPartitions`,
`sequencerMaxes`, `minUnpersistedSequenceNumber`), with one characterization lemma per loop. The
concurrent part of a pass, where the removals, the persist tasks and the catalog updates interleave
with writes, is `IoxCore.Ingester.LifecycleRun`.

Byte counts are `usize`; the model counts them in `Nat`, which is exact while the sum stays below
`usize::MAX`. A `usize` subtraction panics on underflow, so `usizeSub` is partial.
-/

namespace IoxCore.Ingester

/-- `iox_time::Time`, as nanoseconds since the epoch. -/
abbrev Time := Int

/-- `std::time::Duration`, as nanoseconds. -/
abbrev Duration := Nat

/-- `Time::checked_duration_since`: `none` when `earlier` is after `now`. -/
def checkedDurationSince (now earlier : Time) : Option Duration :=
  if earlier ≤ now then some (now - earlier).toNat else none

/-- `usize` subtraction, `none` where it underflows and panics. -/
def usizeSub (a b : Nat) : Option Nat :=
  if b ≤ a then some (a - b) else none

theorem usizeSub_eq_some {a b : Nat} (h : b ≤ a) : usizeSub a b = some (a - b) := if_pos h

/-! ## Configuration and state -/

/-- `LifecycleConfig`. -/
structure LifecycleConfig where
  pauseIngestSize : Nat
  persistMemoryThreshold : Nat
  partitionSizeThreshold : Nat
  partitionAgeThreshold : Duration
  partitionColdThreshold : Duration

/-- `LifecycleConfig::new`, `none` where its assertion panics. -/
def LifecycleConfig.new (pauseIngestSize persistMemoryThreshold partitionSizeThreshold : Nat)
    (partitionAgeThreshold partitionColdThreshold : Duration) : Option LifecycleConfig :=
  if pauseIngestSize > persistMemoryThreshold then
    some ⟨pauseIngestSize, persistMemoryThreshold, partitionSizeThreshold, partitionAgeThreshold,
      partitionColdThreshold⟩
  else none

/-- `PartitionLifecycleStats`. -/
structure PartitionLifecycleStats where
  sequencerId : SequencerId
  partitionId : PartitionId
  firstWrite : Time
  lastWrite : Time
  bytesWritten : Nat
  firstSequenceNumber : SequenceNumber
  deriving DecidableEq, Repr

/-- `LifecycleState`, the state shared by the manager and the handles. -/
structure LifecycleState where
  totalBytes : Nat
  partitionStats : BTreeMap PartitionId PartitionLifecycleStats

/-- `LifecycleState::default()`. -/
def LifecycleState.default : LifecycleState := ⟨0, .empty⟩

/-- `LifecycleHandleImpl::log_write`: the new state, and whether ingest should pause. -/
def logWrite (config : LifecycleConfig) (now : Time) (s : LifecycleState)
    (partitionId : PartitionId) (sequencerId : SequencerId) (sequenceNumber : SequenceNumber)
    (bytesWritten : Nat) : LifecycleState × Bool :=
  let stats := (s.partitionStats.get? partitionId).getD
    { sequencerId, partitionId, firstWrite := now, lastWrite := now, bytesWritten := 0,
      firstSequenceNumber := sequenceNumber }
  let stats := { stats with bytesWritten := stats.bytesWritten + bytesWritten, lastWrite := now }
  let totalBytes := s.totalBytes + bytesWritten
  (⟨totalBytes, s.partitionStats.insert partitionId stats⟩, totalBytes > config.pauseIngestSize)

/-- An entry after a write was either created by it, with its sequencer and sequence number, or
was there before with the same sequencer and first sequence number. -/
theorem logWrite_entry_cases {config : LifecycleConfig} {now : Time} {s : LifecycleState}
    {partitionId : PartitionId} {sequencerId : SequencerId} {sequenceNumber : SequenceNumber}
    {bytesWritten : Nat} {k : PartitionId} {e : PartitionLifecycleStats}
    (h : (logWrite config now s partitionId sequencerId sequenceNumber
      bytesWritten).1.partitionStats.get? k = some e) :
    (k = partitionId ∧ s.partitionStats.get? k = none ∧ e.sequencerId = sequencerId ∧
      e.firstSequenceNumber = sequenceNumber) ∨
    ∃ e₀, s.partitionStats.get? k = some e₀ ∧ e.sequencerId = e₀.sequencerId ∧
      e.firstSequenceNumber = e₀.firstSequenceNumber := by
  simp only [logWrite, BTreeMap.get?_insert] at h
  split_ifs at h with hk
  · subst hk
    cases h
    cases hget : s.partitionStats.get? partitionId with
    | none => exact .inl ⟨rfl, rfl, rfl, rfl⟩
    | some e₀ => exact .inr ⟨e₀, rfl, rfl, rfl⟩
  · exact .inr ⟨e, h, rfl, rfl⟩

/-- A write keeps every entry, with its sequencer and first sequence number. -/
theorem logWrite_entry_of_some {config : LifecycleConfig} {now : Time} {s : LifecycleState}
    {partitionId : PartitionId} {sequencerId : SequencerId} {sequenceNumber : SequenceNumber}
    {bytesWritten : Nat} {k : PartitionId} {e₀ : PartitionLifecycleStats}
    (h : s.partitionStats.get? k = some e₀) :
    ∃ e, (logWrite config now s partitionId sequencerId sequenceNumber
        bytesWritten).1.partitionStats.get? k = some e ∧
      e.sequencerId = e₀.sequencerId ∧ e.firstSequenceNumber = e₀.firstSequenceNumber := by
  simp only [logWrite, BTreeMap.get?_insert]
  split_ifs with hk
  · subst hk
    exact ⟨_, rfl, by simp [h]⟩
  · exact ⟨e₀, h, rfl, rfl⟩

/-- `LifecycleStats`, the snapshot a pass works on. -/
structure LifecycleStats where
  totalBytes : Nat
  partitionStats : List PartitionLifecycleStats

/-- `LifecycleManager::stats`: the counter and the statistics in partition order. -/
def stats (s : LifecycleState) : LifecycleStats := ⟨s.totalBytes, s.partitionStats.values⟩

/-- `LifecycleManager::remove`: the state without the partition, and its statistics. -/
def remove (s : LifecycleState) (partitionId : PartitionId) :
    LifecycleState × Option PartitionLifecycleStats :=
  (⟨s.totalBytes, s.partitionStats.remove partitionId⟩, s.partitionStats.get? partitionId)

/-! ## Choosing the partitions to persist -/

/-- The predicate `maybe_persist` partitions the snapshot with: aged out, cold, or too large. -/
def persistTrigger (config : LifecycleConfig) (now : Time) (s : PartitionLifecycleStats) : Bool :=
  let agedOut := ((checkedDurationSince now s.firstWrite).map
    fun age => decide (age > config.partitionAgeThreshold)).getD false
  let isCold := ((checkedDurationSince now s.lastWrite).map
    fun age => decide (age > config.partitionColdThreshold)).getD false
  let sizedOut := decide (s.bytesWritten > config.partitionSizeThreshold)
  agedOut || sizedOut || isCold

/-- `for s in &to_persist { total_bytes -= s.bytes_written; }` -/
def subtractBytes (totalBytes : Nat) : List PartitionLifecycleStats → Option Nat
  | [] => some totalBytes
  | s :: ss => do subtractBytes (← usizeSub totalBytes s.bytesWritten) ss

/-- The loop over the sorted `rest`: a partition moves to `to_persist` while the counter is at or
above the threshold. The moved partitions, the remaining ones, and the counter. -/
def memoryLoop (threshold totalBytes : Nat) :
    List PartitionLifecycleStats →
      Option (List PartitionLifecycleStats × List PartitionLifecycleStats × Nat)
  | [] => some ([], [], totalBytes)
  | s :: ss =>
    if totalBytes ≥ threshold then do
      let (moved, remaining, total) ← memoryLoop threshold (← usizeSub totalBytes s.bytesWritten) ss
      pure (s :: moved, remaining, total)
    else do
      let (moved, remaining, total) ← memoryLoop threshold totalBytes ss
      pure (moved, s :: remaining, total)

/-- `rest.sort_by(|a, b| b.bytes_written.cmp(&a.bytes_written))`. Both sorts are stable, so they
agree: largest first, ties in snapshot order. -/
def sortByBytesDesc (rest : List PartitionLifecycleStats) : List PartitionLifecycleStats :=
  rest.mergeSort fun a b => b.bytesWritten ≤ a.bytesWritten

/-- The selection of `maybe_persist`: `(to_persist, rest)`, or `none` on an underflow. -/
def selectPartitions (config : LifecycleConfig) (now : Time) (stats : LifecycleStats) :
    Option (List PartitionLifecycleStats × List PartitionLifecycleStats) := do
  let (toPersist, rest) := stats.partitionStats.partition (persistTrigger config now)
  let totalBytes ← subtractBytes stats.totalBytes toPersist
  if totalBytes > config.persistMemoryThreshold then
    let (moved, remaining, _) ←
      memoryLoop config.persistMemoryThreshold totalBytes (sortByBytesDesc rest)
    pure (toPersist ++ moved, remaining)
  else pure (toPersist, rest)

/-- `sequencer_maxes`: for every sequencer with a partition to persist, the greatest first sequence
number among those partitions. -/
def sequencerMaxes (toPersist : List PartitionLifecycleStats) :
    BTreeMap SequencerId SequenceNumber :=
  toPersist.foldl (fun maxes s => maxes.insert s.sequencerId
    (match maxes.get? s.sequencerId with
      | some sn => if sn < s.firstSequenceNumber then s.firstSequenceNumber else sn
      | none => s.firstSequenceNumber)) .empty

/-- The value passed to `update_min_unpersisted_sequence_number`: the least first sequence number
of the sequencer's partitions left in `rest`, or the sequencer's maximum if there are none. -/
def minUnpersistedSequenceNumber (rest : List PartitionLifecycleStats)
    (sequencerId : SequencerId) (sequenceNumber : SequenceNumber) : SequenceNumber :=
  (((rest.filter fun s => s.sequencerId = sequencerId).map (·.firstSequenceNumber)).min?).getD
    sequenceNumber

/-! ## What the loops compute -/

/-- The sum of the bytes of a list of statistics. -/
def bytesOf (ss : List PartitionLifecycleStats) : Nat := (ss.map (·.bytesWritten)).sum

@[simp] theorem bytesOf_nil : bytesOf [] = 0 := rfl

@[simp] theorem bytesOf_cons (s : PartitionLifecycleStats) (ss : List PartitionLifecycleStats) :
    bytesOf (s :: ss) = s.bytesWritten + bytesOf ss := rfl

theorem bytesOf_perm {ss ts : List PartitionLifecycleStats} (h : ss.Perm ts) :
    bytesOf ss = bytesOf ts := (h.map _).sum_eq

/-- The counter loop subtracts every partition's bytes, and cannot underflow when they sum to at
most the counter. -/
theorem subtractBytes_eq {totalBytes : Nat} {ss : List PartitionLifecycleStats}
    (h : bytesOf ss ≤ totalBytes) : subtractBytes totalBytes ss = some (totalBytes - bytesOf ss) := by
  induction ss generalizing totalBytes with
  | nil => rfl
  | cons s ss ih =>
    simp only [bytesOf_cons] at h
    simp only [subtractBytes, usizeSub_eq_some (by omega : s.bytesWritten ≤ totalBytes),
      Option.bind_eq_bind, Option.some_bind, ih (by omega : bytesOf ss ≤ totalBytes - s.bytesWritten),
      bytesOf_cons]
    congr 1
    omega

/-- Below the threshold, the memory loop moves nothing. -/
theorem memoryLoop_of_lt {threshold totalBytes : Nat} (h : totalBytes < threshold)
    (ss : List PartitionLifecycleStats) :
    memoryLoop threshold totalBytes ss = some ([], ss, totalBytes) := by
  induction ss with
  | nil => rfl
  | cons s ss ih => simp [memoryLoop, not_le.mpr h, ih]

/-- The memory loop moves the shortest prefix after which the counter is below the threshold, or
the whole list if there is none. -/
theorem memoryLoop_eq (threshold : Nat) {totalBytes : Nat} {ss : List PartitionLifecycleStats}
    (h : bytesOf ss ≤ totalBytes) :
    ∃ k, memoryLoop threshold totalBytes ss =
        some (ss.take k, ss.drop k, totalBytes - bytesOf (ss.take k)) ∧
      (∀ j < k, threshold ≤ totalBytes - bytesOf (ss.take j)) ∧
      (k < ss.length → totalBytes - bytesOf (ss.take k) < threshold) := by
  induction ss generalizing totalBytes with
  | nil => exact ⟨0, rfl, fun j hj => absurd hj (Nat.not_lt_zero j), fun h => absurd h (by simp)⟩
  | cons s ss ih =>
    simp only [bytesOf_cons] at h
    by_cases hge : threshold ≤ totalBytes
    · obtain ⟨k, hk, hbefore, hafter⟩ := ih (show bytesOf ss ≤ totalBytes - s.bytesWritten by omega)
      refine ⟨k + 1, ?_, ?_, ?_⟩
      · simp only [memoryLoop, hge, ite_true, usizeSub_eq_some (by omega : s.bytesWritten ≤ totalBytes),
          Option.bind_eq_bind, Option.some_bind, hk, List.take_succ_cons, List.drop_succ_cons,
          bytesOf_cons]
        congr 3
        omega
      · intro j hj
        cases j with
        | zero => simpa using hge
        | succ j =>
          have := hbefore j (by omega)
          simp only [List.take_succ_cons, bytesOf_cons]
          omega
      · intro hlt
        have := hafter (by simpa using hlt)
        simp only [List.take_succ_cons, bytesOf_cons]
        omega
    · refine ⟨0, ?_, fun j hj => absurd hj (Nat.not_lt_zero j), fun _ => by simpa using hge⟩
      simpa using memoryLoop_of_lt (not_le.mp hge) (s :: ss)

/-- The snapshot is split without loss. -/
theorem bytesOf_filter_add_filter_not (p : PartitionLifecycleStats → Bool)
    (ss : List PartitionLifecycleStats) :
    bytesOf (ss.filter p) + bytesOf (ss.filter (not ∘ p)) = bytesOf ss := by
  induction ss with
  | nil => rfl
  | cons s ss ih => cases h : p s <;> simp [List.filter_cons, h] <;> omega

theorem sortByBytesDesc_perm (rest : List PartitionLifecycleStats) :
    (sortByBytesDesc rest).Perm rest := List.mergeSort_perm _ _

/-- What `maybe_persist` selects, when the snapshot's partitions account for at most its counter:
the triggered partitions, then, if the counter is still over the threshold, the shortest prefix of
the others, largest first, that brings it below the threshold (all of them if none does). -/
theorem selectPartitions_eq (config : LifecycleConfig) (now : Time) (stats : LifecycleStats)
    (hsum : bytesOf stats.partitionStats ≤ stats.totalBytes) :
    (stats.totalBytes - bytesOf (stats.partitionStats.filter (persistTrigger config now)) ≤
        config.persistMemoryThreshold →
      selectPartitions config now stats =
        some (stats.partitionStats.filter (persistTrigger config now),
          stats.partitionStats.filter (not ∘ persistTrigger config now))) ∧
    (config.persistMemoryThreshold <
        stats.totalBytes - bytesOf (stats.partitionStats.filter (persistTrigger config now)) →
      ∃ k, selectPartitions config now stats =
          some (stats.partitionStats.filter (persistTrigger config now) ++
              (sortByBytesDesc (stats.partitionStats.filter (not ∘ persistTrigger config now))).take k,
            (sortByBytesDesc (stats.partitionStats.filter (not ∘ persistTrigger config now))).drop k) ∧
        (∀ j < k, config.persistMemoryThreshold ≤
          stats.totalBytes - bytesOf (stats.partitionStats.filter (persistTrigger config now)) -
            bytesOf ((sortByBytesDesc
              (stats.partitionStats.filter (not ∘ persistTrigger config now))).take j)) ∧
        (k < (stats.partitionStats.filter (not ∘ persistTrigger config now)).length →
          stats.totalBytes - bytesOf (stats.partitionStats.filter (persistTrigger config now)) -
            bytesOf ((sortByBytesDesc
              (stats.partitionStats.filter (not ∘ persistTrigger config now))).take k) <
            config.persistMemoryThreshold)) := by
  have hsplit := bytesOf_filter_add_filter_not (persistTrigger config now) stats.partitionStats
  have hsub := subtractBytes_eq (show bytesOf (stats.partitionStats.filter
    (persistTrigger config now)) ≤ stats.totalBytes by omega)
  have hrest : bytesOf (sortByBytesDesc (stats.partitionStats.filter (not ∘ persistTrigger config now)))
      ≤ stats.totalBytes - bytesOf (stats.partitionStats.filter (persistTrigger config now)) := by
    rw [bytesOf_perm (sortByBytesDesc_perm _)]
    omega
  simp only [selectPartitions, List.partition_eq_filter_filter, hsub, Option.bind_eq_bind,
    Option.some_bind]
  refine ⟨fun hle => by simp [not_lt.mpr hle], fun hlt => ?_⟩
  obtain ⟨k, hk, hbefore, hafter⟩ := memoryLoop_eq config.persistMemoryThreshold hrest
  refine ⟨k, by simp [hlt, hk], hbefore, fun hlen => hafter ?_⟩
  rwa [(sortByBytesDesc_perm _).length_eq]

/-- The memory loop splits its input. -/
theorem memoryLoop_perm {threshold totalBytes : Nat} {ss moved remaining : List PartitionLifecycleStats}
    {total : Nat} (h : memoryLoop threshold totalBytes ss = some (moved, remaining, total)) :
    (moved ++ remaining).Perm ss := by
  induction ss generalizing totalBytes moved remaining total with
  | nil => cases h; rfl
  | cons s ss ih =>
    simp only [memoryLoop, Option.bind_eq_bind] at h
    split_ifs at h
    · simp only [usizeSub, Option.bind_eq_some] at h
      obtain ⟨t, -, ⟨m, r, t'⟩, hrec, hres⟩ := h
      simp only [Option.pure_def, Option.some.injEq, Prod.mk.injEq] at hres
      obtain ⟨rfl, rfl, rfl⟩ := hres
      exact (ih hrec).cons s
    · simp only [Option.bind_eq_some] at h
      obtain ⟨⟨m, r, t'⟩, hrec, hres⟩ := h
      simp only [Option.pure_def, Option.some.injEq, Prod.mk.injEq] at hres
      obtain ⟨rfl, rfl, rfl⟩ := hres
      exact List.perm_middle.trans ((ih hrec).cons s)

/-- The selection splits the snapshot. -/
theorem selectPartitions_perm {config : LifecycleConfig} {now : Time} {stats : LifecycleStats}
    {toPersist rest : List PartitionLifecycleStats}
    (h : selectPartitions config now stats = some (toPersist, rest)) :
    (rest ++ toPersist).Perm stats.partitionStats := by
  have hsplit : (stats.partitionStats.filter (not ∘ persistTrigger config now) ++
      stats.partitionStats.filter (persistTrigger config now)).Perm stats.partitionStats :=
    List.perm_append_comm.trans (List.filter_append_perm _ _)
  simp only [selectPartitions, List.partition_eq_filter_filter, Option.bind_eq_bind,
    Option.bind_eq_some] at h
  obtain ⟨total, -, hsel⟩ := h
  split_ifs at hsel
  · simp only [Option.bind_eq_some] at hsel
    obtain ⟨⟨moved, remaining, t⟩, hloop, hres⟩ := hsel
    simp only [Option.pure_def, Option.some.injEq, Prod.mk.injEq] at hres
    obtain ⟨rfl, rfl⟩ := hres
    have hm := (memoryLoop_perm hloop).trans (sortByBytesDesc_perm _)
    refine (List.perm_append_comm.trans ?_).trans hsplit
    rw [List.append_assoc]
    exact List.perm_append_comm.trans (hm.append_right _)
  · simp only [Option.pure_def, Option.some.injEq, Prod.mk.injEq] at hsel
    obtain ⟨rfl, rfl⟩ := hsel
    exact List.perm_append_comm.trans (List.filter_append_perm _ _)

theorem min?_le_of_mem {xs : List SequenceNumber} {a : SequenceNumber} (h : xs.min? = some a)
    {b : SequenceNumber} (hb : b ∈ xs) : a ≤ b :=
  (List.le_min?_iff (fun _ _ _ => le_min_iff) h).mp le_rfl b hb

/-- The value sent for a sequencer is at most every first sequence number left in `rest`. -/
theorem minUnpersistedSequenceNumber_le {rest : List PartitionLifecycleStats}
    {sequencerId : SequencerId} (sequenceNumber : SequenceNumber) {r : PartitionLifecycleStats}
    (hr : r ∈ rest) (hseq : r.sequencerId = sequencerId) :
    minUnpersistedSequenceNumber rest sequencerId sequenceNumber ≤ r.firstSequenceNumber := by
  unfold minUnpersistedSequenceNumber
  cases hmin : ((rest.filter fun s => s.sequencerId = sequencerId).map (·.firstSequenceNumber)).min?
  · simp_all [List.min?_eq_none_iff, List.filter_eq_nil_iff]
  · exact min?_le_of_mem hmin (List.mem_map_of_mem _ (List.mem_filter.mpr ⟨hr, by simpa using hseq⟩))

/-- The value sent for a sequencer is a first sequence number of `rest`, or the fallback. -/
theorem minUnpersistedSequenceNumber_cases (rest : List PartitionLifecycleStats)
    (sequencerId : SequencerId) (sequenceNumber : SequenceNumber) :
    minUnpersistedSequenceNumber rest sequencerId sequenceNumber = sequenceNumber ∨
      ∃ r ∈ rest, r.sequencerId = sequencerId ∧
        r.firstSequenceNumber = minUnpersistedSequenceNumber rest sequencerId sequenceNumber := by
  unfold minUnpersistedSequenceNumber
  cases hmin : ((rest.filter fun s => s.sequencerId = sequencerId).map (·.firstSequenceNumber)).min?
  · exact .inl rfl
  · obtain ⟨r, hr, hfirst⟩ := List.mem_map.mp (List.min?_mem min_choice hmin)
    exact .inr ⟨r, (List.mem_filter.mp hr).1, by simpa using (List.mem_filter.mp hr).2, hfirst⟩

/-- Every maximum recorded for a sequencer is the first sequence number of one of its partitions
being persisted. -/
theorem mem_sequencerMaxes {toPersist : List PartitionLifecycleStats}
    {sequencerId : SequencerId} {sequenceNumber : SequenceNumber}
    (h : (sequencerId, sequenceNumber) ∈ (sequencerMaxes toPersist).entries) :
    ∃ s ∈ toPersist, s.sequencerId = sequencerId ∧ s.firstSequenceNumber = sequenceNumber := by
  rw [BTreeMap.mem_entries_iff] at h
  refine List.foldlRecOn (motive := fun maxes : BTreeMap SequencerId SequenceNumber =>
      ∀ k v, maxes.get? k = some v → ∃ s ∈ toPersist, s.sequencerId = k ∧ s.firstSequenceNumber = v)
    toPersist _ .empty (by simp) (fun maxes hmaxes s hs k v hkv => ?_) _ _ h
  rw [BTreeMap.get?_insert] at hkv
  split_ifs at hkv with hk
  · split at hkv
    · rename_i sn hsn
      split_ifs at hkv
      · cases hkv; exact ⟨s, hs, hk, rfl⟩
      · cases hkv; exact hmaxes _ _ (hk ▸ hsn)
    · cases hkv; exact ⟨s, hs, hk, rfl⟩
  · exact hmaxes k v hkv

end IoxCore.Ingester
