import IoxCore.Ingester.Lifecycle
import Mathlib.Logic.Function.Basic

/-!
# Passes of the lifecycle manager, interleaved with writes

`maybe_persist` holds the state lock only for short critical sections: the snapshot, each
`remove`, and the subtraction each spawned persist task makes when it completes. Between them, ingest
tasks keep calling `log_write`, and after all tasks have joined the manager awaits one
`update_min_unpersisted_sequence_number` call per sequencer. `Sys` is the shared state together with
the pass's own progress and the tasks in flight; `step` is one atomic section, so the runs of
`step` are the interleavings of the code.

`Sys` also carries two ghost fields for the statements about the write buffer: `held`, the writes
logged into each tracked partition entry since it was created, and `seen`, the greatest sequence
number logged so far per sequencer. Neither is read by the code's part of `step`.

The byte accounting (`consistent_reachable`) holds for every run. `ReplayPoint` adds a contract on
the writes and proves the replay point safe.
-/

namespace IoxCore.Ingester

/-- The arguments of one `log_write` call. -/
structure Write where
  partitionId : PartitionId
  sequencerId : SequencerId
  sequenceNumber : SequenceNumber
  bytesWritten : Nat
  deriving DecidableEq, Repr

/-- A persist task spawned by `maybe_persist`, with the `partition_memory_usage` it releases. -/
structure PersistTask where
  partitionId : PartitionId
  partitionMemoryUsage : Nat
  deriving DecidableEq, Repr

/-- Where the manager is in `maybe_persist`: between passes, or after the snapshot with the
partitions still to remove, the pass's `rest`, and the `sequencer_maxes` entries still to send. -/
inductive Pass
  | idle
  | running (toRemove rest : List PartitionLifecycleStats)
      (updates : List (SequencerId × SequenceNumber))

/-- The manager, its handles and its persist tasks. -/
structure Sys where
  state : LifecycleState
  tasks : List PersistTask
  pass : Pass
  /-- The calls made to `update_min_unpersisted_sequence_number`, oldest first. -/
  calls : List (SequencerId × SequenceNumber)
  /-- Ghost: the writes held by the entry of each partition. -/
  held : PartitionId → List Write
  /-- Ghost: the greatest sequence number logged so far for each sequencer. -/
  seen : SequencerId → Option SequenceNumber

/-- A fresh manager. -/
def Sys.init : Sys := ⟨.default, [], .idle, [], fun _ => [], fun _ => none⟩

/-- One atomic section of the manager, a handle or a persist task. -/
inductive Action
  /-- `log_write` at time `now`. -/
  | logWrite (write : Write) (now : Time)
  /-- `maybe_persist` up to the spawning loop: the snapshot and the selection at time `now`. -/
  | snapshot (now : Time)
  /-- One turn of the spawning loop: remove the next partition and spawn its persist task. -/
  | removeNext
  /-- A persist task finishes and releases its bytes. -/
  | completeTask (task : PersistTask)
  /-- After all tasks joined, the next `update_min_unpersisted_sequence_number` call. -/
  | updateMinUnpersisted
  /-- `maybe_persist` returns. -/
  | finish

/-- `seen` after a write with sequence number `sequenceNumber`. -/
def raiseSeen (seen : Option SequenceNumber) (sequenceNumber : SequenceNumber) :
    Option SequenceNumber :=
  some ((seen.map (max · sequenceNumber)).getD sequenceNumber)

/-- The effect of one action, `none` where it is not enabled. -/
def step (config : LifecycleConfig) (s : Sys) : Action → Option Sys
  | .logWrite w now => some { s with
      state := (logWrite config now s.state w.partitionId w.sequencerId w.sequenceNumber
        w.bytesWritten).1
      held := Function.update s.held w.partitionId (s.held w.partitionId ++ [w])
      seen := Function.update s.seen w.sequencerId (raiseSeen (s.seen w.sequencerId)
        w.sequenceNumber) }
  | .snapshot now =>
    match s.pass with
    | .idle => do
      let (toPersist, rest) ← selectPartitions config now (stats s.state)
      pure { s with pass := .running toPersist rest (sequencerMaxes toPersist).entries }
    | .running .. => none
  | .removeNext =>
    match s.pass with
    | .running (p :: toRemove) rest updates =>
      let (state, removed) := remove s.state p.partitionId
      some { s with
        state
        tasks := s.tasks ++ [⟨p.partitionId, (removed.map (·.bytesWritten)).getD 0⟩]
        pass := .running toRemove rest updates
        held := Function.update s.held p.partitionId [] }
    | _ => none
  | .completeTask t =>
    if t ∈ s.tasks then do
      let totalBytes ← usizeSub s.state.totalBytes t.partitionMemoryUsage
      pure { s with state := { s.state with totalBytes }, tasks := s.tasks.erase t }
    else none
  | .updateMinUnpersisted =>
    match s.pass, s.tasks with
    | .running [] rest ((sequencerId, sequenceNumber) :: updates), [] =>
      some { s with
        pass := .running [] rest updates
        calls := s.calls ++
          [(sequencerId, minUnpersistedSequenceNumber rest sequencerId sequenceNumber)] }
    | _, _ => none
  | .finish =>
    match s.pass, s.tasks with
    | .running [] _ [], [] => some { s with pass := .idle }
    | _, _ => none

/-- The states reachable from a fresh manager through actions that `admissible` allows. -/
inductive Reachable (config : LifecycleConfig) (admissible : Sys → Action → Prop) : Sys → Prop
  | init : Reachable config admissible .init
  | step {s s' : Sys} {a : Action} : Reachable config admissible s → admissible s a →
      step config s a = some s' → Reachable config admissible s'

/-- Running a list of actions. -/
def runActions (config : LifecycleConfig) : Sys → List Action → Option Sys
  | s, [] => some s
  | s, a :: as => step config s a >>= fun s' => runActions config s' as

theorem runActions_cons_eq_some {config : LifecycleConfig} {s s' : Sys} {a : Action}
    {as : List Action} :
    runActions config s (a :: as) = some s' ↔
      ∃ s₁, step config s a = some s₁ ∧ runActions config s₁ as = some s' := by
  simp only [runActions, Option.bind_eq_bind, Option.bind_eq_some]

/-- A run of actions that `admissible` allows in every state ends, from a reachable state, in a
reachable state. -/
theorem reachable_of_runActions {config : LifecycleConfig} {admissible : Sys → Action → Prop}
    {s s' : Sys} {acts : List Action} (hadm : ∀ a ∈ acts, ∀ t, admissible t a)
    (hs : Reachable config admissible s) (h : runActions config s acts = some s') :
    Reachable config admissible s' := by
  induction acts generalizing s with
  | nil => cases h; exact hs
  | cons a as ih =>
    obtain ⟨s₁, h₁, h₂⟩ := runActions_cons_eq_some.mp h
    exact ih (fun b hb => hadm b (List.mem_cons_of_mem a hb))
      (.step hs (hadm a (List.mem_cons_self a as) s) h₁) h₂

/-! ## What each action does -/

variable {config : LifecycleConfig} {s s' : Sys}

theorem step_logWrite (w : Write) (now : Time) :
    step config s (.logWrite w now) = some { s with
      state := (logWrite config now s.state w.partitionId w.sequencerId w.sequenceNumber
        w.bytesWritten).1
      held := Function.update s.held w.partitionId (s.held w.partitionId ++ [w])
      seen := Function.update s.seen w.sequencerId (raiseSeen (s.seen w.sequencerId)
        w.sequenceNumber) } := rfl

theorem step_snapshot_cases {now : Time} (h : step config s (.snapshot now) = some s') :
    s.pass = .idle ∧ ∃ toPersist rest,
      selectPartitions config now (stats s.state) = some (toPersist, rest) ∧
      s' = { s with pass := .running toPersist rest (sequencerMaxes toPersist).entries } := by
  simp only [step] at h
  split at h
  · simp only [Option.bind_eq_bind, Option.bind_eq_some, Option.pure_def, Option.some.injEq] at h
    obtain ⟨⟨toPersist, rest⟩, hsel, rfl⟩ := h
    exact ⟨‹_›, toPersist, rest, hsel, rfl⟩
  · cases h

theorem step_removeNext_cases (h : step config s .removeNext = some s') :
    ∃ p toRemove rest updates, s.pass = .running (p :: toRemove) rest updates ∧
      s' = { s with
        state := (remove s.state p.partitionId).1
        tasks := s.tasks ++ [⟨p.partitionId,
          ((s.state.partitionStats.get? p.partitionId).map (·.bytesWritten)).getD 0⟩]
        pass := .running toRemove rest updates
        held := Function.update s.held p.partitionId [] } := by
  simp only [step] at h
  split at h
  · cases h; exact ⟨_, _, _, _, ‹_›, rfl⟩
  · cases h

theorem step_completeTask_cases {t : PersistTask} (h : step config s (.completeTask t) = some s') :
    t ∈ s.tasks ∧ t.partitionMemoryUsage ≤ s.state.totalBytes ∧
      s' = { s with
        state := { s.state with totalBytes := s.state.totalBytes - t.partitionMemoryUsage }
        tasks := s.tasks.erase t } := by
  simp only [step] at h
  split_ifs at h with ht
  simp only [usizeSub, Option.bind_eq_bind, Option.bind_eq_some, Option.pure_def,
    Option.some.injEq] at h
  obtain ⟨totalBytes, hsub, rfl⟩ := h
  split_ifs at hsub with hle
  cases hsub
  exact ⟨ht, hle, rfl⟩

theorem step_updateMinUnpersisted_cases (h : step config s .updateMinUnpersisted = some s') :
    ∃ rest sequencerId sequenceNumber updates,
      s.pass = .running [] rest ((sequencerId, sequenceNumber) :: updates) ∧ s.tasks = [] ∧
      s' = { s with
        pass := .running [] rest updates
        calls := s.calls ++
          [(sequencerId, minUnpersistedSequenceNumber rest sequencerId sequenceNumber)] } := by
  simp only [step] at h
  split at h
  · cases h; exact ⟨_, _, _, _, ‹_›, ‹_›, rfl⟩
  · cases h

theorem step_finish_cases (h : step config s .finish = some s') :
    (∃ rest, s.pass = .running [] rest []) ∧ s.tasks = [] ∧ s' = { s with pass := .idle } := by
  simp only [step] at h
  split at h
  · cases h; exact ⟨⟨_, ‹_›⟩, ‹_›, rfl⟩
  · cases h

/-! ## The byte accounting -/

/-- The statistics a write leaves behind account for exactly its bytes more. -/
theorem bytesOf_logWrite (now : Time) (st : LifecycleState) (partitionId : PartitionId)
    (sequencerId : SequencerId) (sequenceNumber : SequenceNumber) (bytesWritten : Nat) :
    bytesOf (logWrite config now st partitionId sequencerId sequenceNumber
      bytesWritten).1.partitionStats.values =
      bytesOf st.partitionStats.values + bytesWritten := by
  simp only [logWrite, bytesOf]
  rw [BTreeMap.sum_values_insert, BTreeMap.sum_values_remove st.partitionStats partitionId]
  cases st.partitionStats.get? partitionId <;> simp; omega

@[simp] theorem totalBytes_logWrite (now : Time) (st : LifecycleState) (partitionId : PartitionId)
    (sequencerId : SequencerId) (sequenceNumber : SequenceNumber) (bytesWritten : Nat) :
    (logWrite config now st partitionId sequencerId sequenceNumber bytesWritten).1.totalBytes =
      st.totalBytes + bytesWritten := rfl

/-- The bytes a task in flight releases are part of the bytes of all tasks in flight. -/
theorem sum_tasks_erase {tasks : List PersistTask} {t : PersistTask} (ht : t ∈ tasks) :
    (tasks.map (·.partitionMemoryUsage)).sum =
      t.partitionMemoryUsage + ((tasks.erase t).map (·.partitionMemoryUsage)).sum := by
  simpa using ((List.perm_cons_erase ht).map (·.partitionMemoryUsage)).sum_eq

/-- The invariant of every run: map keys are the partitions' ids, the counter is the bytes of the
tracked partitions plus those the persist tasks in flight will release, and between passes no task
is in flight. -/
structure Consistent (s : Sys) : Prop where
  keys : ∀ k e, s.state.partitionStats.get? k = some e → e.partitionId = k
  total : s.state.totalBytes =
    bytesOf s.state.partitionStats.values + (s.tasks.map (·.partitionMemoryUsage)).sum
  idle : s.pass = .idle → s.tasks = []

theorem consistent_init : Consistent .init :=
  ⟨by simp [Sys.init, LifecycleState.default], rfl, fun _ => rfl⟩

theorem consistent_step {a : Action} (hs : Consistent s) (h : step config s a = some s') :
    Consistent s' := by
  cases a with
  | logWrite w now =>
    rw [step_logWrite] at h
    cases h
    refine ⟨fun k e he => ?_, ?_, hs.idle⟩
    · simp only [logWrite, BTreeMap.get?_insert] at he
      split_ifs at he with hk
      · cases he
        cases hget : s.state.partitionStats.get? w.partitionId
        · simpa using hk
        · simpa [hget] using (hs.keys _ _ hget).trans hk
      · exact hs.keys k e he
    · dsimp only
      rw [totalBytes_logWrite, bytesOf_logWrite, hs.total]
      omega
  | snapshot now =>
    obtain ⟨-, _, _, -, rfl⟩ := step_snapshot_cases h
    exact ⟨hs.keys, hs.total, fun h => nomatch h⟩
  | removeNext =>
    obtain ⟨p, _, _, _, hpass, rfl⟩ := step_removeNext_cases h
    refine ⟨fun k e he => ?_, ?_, fun h => nomatch h⟩
    · simp only [remove, BTreeMap.get?_remove] at he
      split_ifs at he
      exact hs.keys k e he
    · have := BTreeMap.sum_values_remove s.state.partitionStats p.partitionId (·.bytesWritten)
      simp only [remove, hs.total, bytesOf, List.map_append, List.sum_append, List.map_cons,
        List.map_nil, List.sum_cons, List.sum_nil] at this ⊢
      omega
  | completeTask t =>
    obtain ⟨ht, -, rfl⟩ := step_completeTask_cases h
    refine ⟨hs.keys, ?_, fun hi => absurd (hs.idle hi ▸ ht) (List.not_mem_nil t)⟩
    have := sum_tasks_erase ht
    simp only [hs.total]
    omega
  | updateMinUnpersisted =>
    obtain ⟨_, _, _, _, -, -, rfl⟩ := step_updateMinUnpersisted_cases h
    exact ⟨hs.keys, hs.total, fun h => nomatch h⟩
  | finish =>
    obtain ⟨-, htasks, rfl⟩ := step_finish_cases h
    exact ⟨hs.keys, hs.total, fun _ => htasks⟩

theorem consistent_reachable {admissible : Sys → Action → Prop} (h : Reachable config admissible s) :
    Consistent s := by
  induction h with
  | init => exact consistent_init
  | step _ _ hstep ih => exact consistent_step ih hstep

/-- On every interleaving of writes with passes, the counter is exactly the bytes of the tracked
partitions plus those of the persist tasks in flight; so no subtraction underflows, neither a
task's on completion nor those of a pass on its snapshot, and between passes the counter is the
bytes of the tracked partitions. -/
theorem lifecycle_total_bytes_exact (config : LifecycleConfig) (s : Sys)
    (h : Reachable config (fun _ _ => True) s) :
    s.state.totalBytes =
        bytesOf s.state.partitionStats.values + (s.tasks.map (·.partitionMemoryUsage)).sum ∧
      (∀ t ∈ s.tasks, t.partitionMemoryUsage ≤ s.state.totalBytes) ∧
      (s.pass = .idle → s.state.totalBytes = bytesOf s.state.partitionStats.values ∧
        ∀ now, selectPartitions config now (stats s.state) ≠ none) := by
  have hc := consistent_reachable h
  refine ⟨hc.total, fun t ht => ?_, fun hidle => ?_⟩
  · have := sum_tasks_erase ht
    rw [hc.total]
    omega
  · have htotal : s.state.totalBytes = bytesOf s.state.partitionStats.values := by
      simp [hc.total, hc.idle hidle]
    refine ⟨htotal, fun now => ?_⟩
    obtain ⟨hle, hlt⟩ := selectPartitions_eq config now (stats s.state) htotal.ge
    by_cases hover : (stats s.state).totalBytes - bytesOf ((stats s.state).partitionStats.filter
        (persistTrigger config now)) ≤ config.persistMemoryThreshold
    · simp [hle hover]
    · obtain ⟨k, hk, -⟩ := hlt (not_le.mp hover)
      simp [hk]

/-- Two writes, then a pass that persists partition 2 for its size while a third write lands in
partition 1: with partition 2's task in flight the counter is the 5 bytes still tracked plus the
task's 150, and once the task completes and the pass returns it is the 5 bytes alone. -/
theorem lifecycle_total_bytes_exact_interleaved :
    let config : LifecycleConfig := ⟨10, 5, 100, 1000, 1000⟩
    ∃ s₁ s₂, runActions config .init [.logWrite ⟨1, 0, 3, 4⟩ 0, .logWrite ⟨2, 0, 5, 150⟩ 0,
        .snapshot 0, .logWrite ⟨1, 0, 7, 1⟩ 0, .removeNext] = some s₁ ∧
      runActions config .init [.logWrite ⟨1, 0, 3, 4⟩ 0, .logWrite ⟨2, 0, 5, 150⟩ 0, .snapshot 0,
        .logWrite ⟨1, 0, 7, 1⟩ 0, .removeNext, .completeTask ⟨2, 150⟩, .updateMinUnpersisted,
        .finish] = some s₂ ∧
      s₁.tasks = [⟨2, 150⟩] ∧ s₁.state.totalBytes = 155 ∧ s₂.pass = .idle ∧
      (s₁.state.totalBytes =
          bytesOf s₁.state.partitionStats.values + (s₁.tasks.map (·.partitionMemoryUsage)).sum ∧
        (∀ t ∈ s₁.tasks, t.partitionMemoryUsage ≤ s₁.state.totalBytes) ∧
        (s₁.pass = .idle → s₁.state.totalBytes = bytesOf s₁.state.partitionStats.values ∧
          ∀ now, selectPartitions config now (stats s₁.state) ≠ none)) ∧
      (s₂.state.totalBytes =
          bytesOf s₂.state.partitionStats.values + (s₂.tasks.map (·.partitionMemoryUsage)).sum ∧
        (∀ t ∈ s₂.tasks, t.partitionMemoryUsage ≤ s₂.state.totalBytes) ∧
        (s₂.pass = .idle → s₂.state.totalBytes = bytesOf s₂.state.partitionStats.values ∧
          ∀ now, selectPartitions config now (stats s₂.state) ≠ none)) :=
  have h₁ : runActions ⟨10, 5, 100, 1000, 1000⟩ .init [.logWrite ⟨1, 0, 3, 4⟩ 0,
      .logWrite ⟨2, 0, 5, 150⟩ 0, .snapshot 0, .logWrite ⟨1, 0, 7, 1⟩ 0, .removeNext] = some _ := rfl
  have h₂ : runActions ⟨10, 5, 100, 1000, 1000⟩ .init [.logWrite ⟨1, 0, 3, 4⟩ 0,
      .logWrite ⟨2, 0, 5, 150⟩ 0, .snapshot 0, .logWrite ⟨1, 0, 7, 1⟩ 0, .removeNext,
      .completeTask ⟨2, 150⟩, .updateMinUnpersisted, .finish] = some _ := rfl
  ⟨_, _, h₁, h₂, rfl, rfl, rfl,
    lifecycle_total_bytes_exact _ _ (reachable_of_runActions (fun _ _ _ => trivial) .init h₁),
    lifecycle_total_bytes_exact _ _ (reachable_of_runActions (fun _ _ _ => trivial) .init h₂)⟩

/-! ## The spawning loop -/

/-- The removed partition is the tracked entry for its id. -/
theorem get?_of_mem_values (hs : Consistent s) {p : PartitionLifecycleStats}
    (hp : p ∈ s.state.partitionStats.values) : s.state.partitionStats.get? p.partitionId = some p := by
  obtain ⟨k, hk⟩ := (BTreeMap.mem_values_iff _ _).mp hp
  rwa [hs.keys k p hk]

end IoxCore.Ingester
