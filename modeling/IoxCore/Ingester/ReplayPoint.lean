import IoxCore.Ingester.LifecycleRun

/-!
# The replay point

After a pass, `maybe_persist` tells the catalog, per sequencer, the sequence number from which the
write buffer must be replayed after a restart: the least first sequence number of the sequencer's
partitions left in `rest`, or the greatest one among those just persisted. The code computes it
from the pass's snapshot, while writes keep arriving; it is safe if

* it is at most the sequence number of every write still held in memory when it is sent, so that a
  replay recovers them, and
* the values sent for one sequencer never decrease.

Both hold on every run in which each sequencer's sequence numbers never decrease and a write goes to
the sequencer of its partition's entry (`Ordered`). The invariant `ReplaySafe` says why: a write is
never older than the first write of its entry, an entry created after the snapshot is newer than
everything the snapshot saw, and the snapshot's partitions that stay in memory are still the entries
`rest` describes.
-/

namespace IoxCore.Ingester

/-- The contract on the writes: each sequencer's sequence numbers never decrease, and a write goes
to the sequencer its partition's entry was created for. The other actions are unconstrained. -/
def Ordered (s : Sys) : Action → Prop
  | .logWrite w _ => (∀ h, s.seen w.sequencerId = some h → h ≤ w.sequenceNumber) ∧
      ∀ e, s.state.partitionStats.get? w.partitionId = some e → e.sequencerId = w.sequencerId
  | _ => True

/-! ## Sequence numbers already seen -/

/-- Sequencer `sequencerId` has logged a write with a sequence number of at least `sequenceNumber`. -/
def SeenAtLeast (seen : SequencerId → Option SequenceNumber) (sequencerId : SequencerId)
    (sequenceNumber : SequenceNumber) : Prop :=
  ∃ h, seen sequencerId = some h ∧ sequenceNumber ≤ h

section Seen

variable {seen : SequencerId → Option SequenceNumber} {w : Write}

theorem seenAtLeast_raise {sequencerId : SequencerId} {sequenceNumber : SequenceNumber}
    (h : SeenAtLeast seen sequencerId sequenceNumber) :
    SeenAtLeast (Function.update seen w.sequencerId
      (raiseSeen (seen w.sequencerId) w.sequenceNumber)) sequencerId sequenceNumber := by
  obtain ⟨m, hm, hle⟩ := h
  by_cases hs : sequencerId = w.sequencerId
  · subst hs
    exact ⟨_, Function.update_same _ _ _, by simp [raiseSeen, hm, hle]⟩
  · exact ⟨m, by rw [Function.update_noteq hs, hm], hle⟩

theorem seenAtLeast_write :
    SeenAtLeast (Function.update seen w.sequencerId
      (raiseSeen (seen w.sequencerId) w.sequenceNumber)) w.sequencerId w.sequenceNumber := by
  refine ⟨_, Function.update_same _ _ _, ?_⟩
  cases seen w.sequencerId <;> simp [raiseSeen]

/-- Under the contract, a write is not older than anything its sequencer has logged. -/
theorem le_of_seenAtLeast {s : Sys} {now : Time} (ho : Ordered s (.logWrite w now))
    {sequencerId : SequencerId} (hseq : sequencerId = w.sequencerId)
    {sequenceNumber : SequenceNumber} (h : SeenAtLeast s.seen sequencerId sequenceNumber) :
    sequenceNumber ≤ w.sequenceNumber := by
  subst hseq
  obtain ⟨m, hm, hle⟩ := h
  exact hle.trans (ho.1 m hm)

/-- A value seen for its sequencer, at most the first sequence number of the sequencer's entry for
`k`, stays so after a write: a new entry starts at the write, which is not older. -/
theorem le_first_logWrite (config : LifecycleConfig) {s : Sys} {now : Time}
    (ho : Ordered s (.logWrite w now)) {sequencerId : SequencerId} {v : SequenceNumber}
    (hseen : SeenAtLeast s.seen sequencerId v) {k : PartitionId}
    (hle : ∀ e₀, s.state.partitionStats.get? k = some e₀ → e₀.sequencerId = sequencerId →
      v ≤ e₀.firstSequenceNumber)
    {e : PartitionLifecycleStats} (he : (logWrite config now s.state w.partitionId w.sequencerId
      w.sequenceNumber w.bytesWritten).1.partitionStats.get? k = some e)
    (hseq : e.sequencerId = sequencerId) : v ≤ e.firstSequenceNumber := by
  rcases logWrite_entry_cases he with ⟨-, -, hseq', hfirst⟩ | ⟨e₀, he₀, hseq', hfirst⟩
  · rw [hfirst]
    exact le_of_seenAtLeast ho (hseq.symm.trans hseq') hseen
  · rw [hfirst]
    exact hle e₀ he₀ (hseq' ▸ hseq)

end Seen

/-! ## The invariant -/

/-- What a pass in progress needs: the partitions of `rest` are still tracked as they were at the
snapshot, apart from the partitions still to remove; and every value still to send is seen, is at
most the first sequence number of every entry created since the snapshot, and at least every value
already sent for its sequencer. -/
structure RunningSafe (s : Sys) (toRemove rest : List PartitionLifecycleStats)
    (updates : List (SequencerId × SequenceNumber)) : Prop where
  /-- The partitions of `rest` keep their entries. -/
  rest_tracked : ∀ r ∈ rest, ∃ e, s.state.partitionStats.get? r.partitionId = some e ∧
    e.sequencerId = r.sequencerId ∧ e.firstSequenceNumber = r.firstSequenceNumber
  /-- No partition is both still to remove and in `rest`. -/
  disjoint : ∀ p ∈ toRemove, ∀ r ∈ rest, p.partitionId ≠ r.partitionId
  /-- The sequencers still to update are those of a `BTreeMap`, in order. -/
  sorted : updates.Pairwise fun u u' => u.1 < u'.1
  /-- Every value still to send has been seen. -/
  updates_seen : ∀ u ∈ updates,
    SeenAtLeast s.seen u.1 (minUnpersistedSequenceNumber rest u.1 u.2)
  /-- Every entry outside the snapshot's partitions is newer than every value still to send. -/
  updates_le_new : ∀ u ∈ updates, ∀ k e, s.state.partitionStats.get? k = some e →
    (∀ r ∈ rest, r.partitionId ≠ k) → (∀ p ∈ toRemove, p.partitionId ≠ k) →
    e.sequencerId = u.1 → minUnpersistedSequenceNumber rest u.1 u.2 ≤ e.firstSequenceNumber
  /-- The fallback value of a sequencer is at least every value already sent for it. -/
  updates_ge_calls : ∀ u ∈ updates, ∀ c ∈ s.calls, c.1 = u.1 → c.2 ≤ u.2

/-- The invariant behind the safety of the replay point. -/
structure ReplaySafe (s : Sys) : Prop where
  /-- Every write an entry holds is of the entry's sequencer and not older than its first. -/
  held_of_tracked : ∀ k e, s.state.partitionStats.get? k = some e → ∀ w ∈ s.held k,
    w.sequencerId = e.sequencerId ∧ e.firstSequenceNumber ≤ w.sequenceNumber
  /-- An untracked partition holds no write. -/
  held_of_untracked : ∀ k, s.state.partitionStats.get? k = none → s.held k = []
  /-- The first write of every entry has been seen. -/
  first_seen : ∀ k e, s.state.partitionStats.get? k = some e →
    SeenAtLeast s.seen e.sequencerId e.firstSequenceNumber
  /-- Every value sent has been seen. -/
  calls_seen : ∀ c ∈ s.calls, SeenAtLeast s.seen c.1 c.2
  /-- Every value sent is at most the first sequence number of every entry of its sequencer. -/
  calls_le_first : ∀ c ∈ s.calls, ∀ k e, s.state.partitionStats.get? k = some e →
    e.sequencerId = c.1 → c.2 ≤ e.firstSequenceNumber
  /-- The values sent for one sequencer never decrease. -/
  calls_mono : s.calls.Pairwise fun c c' => c.1 = c'.1 → c.2 ≤ c'.2
  /-- The pass in progress, if any. -/
  running : ∀ toRemove rest updates, s.pass = .running toRemove rest updates →
    RunningSafe s toRemove rest updates

theorem replaySafe_init : ReplaySafe .init where
  held_of_tracked := by simp [Sys.init, LifecycleState.default]
  held_of_untracked _ _ := rfl
  first_seen := by simp [Sys.init, LifecycleState.default]
  calls_seen := by simp [Sys.init]
  calls_le_first := by simp [Sys.init]
  calls_mono := .nil
  running _ _ _ h := nomatch h

variable {config : LifecycleConfig} {s s' : Sys}

/-! ## Each action keeps the invariant -/

/-- The partition ids of the tracked entries are distinct. -/
theorem nodup_partitionIds (hs : Consistent s) :
    (s.state.partitionStats.values.map (·.partitionId)).Nodup := by
  have hkeys : s.state.partitionStats.values.map (·.partitionId) =
      s.state.partitionStats.entries.map Prod.fst := by
    simp only [BTreeMap.values, List.map_map]
    exact List.map_congr_left fun q hq =>
      hs.keys q.1 q.2 ((BTreeMap.mem_entries_iff _ _ _).mp hq)
  rw [hkeys]
  exact (List.pairwise_map.mpr s.state.partitionStats.sorted).imp ne_of_lt

theorem replaySafe_logWrite {w : Write} {now : Time} (hs : ReplaySafe s)
    (ho : Ordered s (.logWrite w now)) (h : step config s (.logWrite w now) = some s') :
    ReplaySafe s' := by
  rw [step_logWrite] at h
  cases h
  refine ⟨fun k e he w' hw' => ?_, fun k hk => ?_, fun k e he => ?_,
    fun c hc => seenAtLeast_raise (hs.calls_seen c hc), fun c hc k e he hseq => ?_, hs.calls_mono,
    fun toRemove rest updates hpass => ?_⟩
  · dsimp only at he hw'
    rw [Function.update_apply] at hw'
    rcases logWrite_entry_cases he with ⟨rfl, hnone, hseq, hfirst⟩ | ⟨e₀, he₀, hseq, hfirst⟩
    · rw [if_pos rfl, hs.held_of_untracked _ hnone] at hw'
      obtain rfl := List.mem_singleton.mp hw'
      exact ⟨hseq.symm, hfirst.le⟩
    · rw [hseq, hfirst]
      split_ifs at hw' with hk
      · subst hk
        rcases List.mem_append.mp hw' with hw' | hw'
        · exact hs.held_of_tracked _ e₀ he₀ w' hw'
        · obtain rfl := List.mem_singleton.mp hw'
          have hsame := ho.2 e₀ he₀
          exact ⟨hsame.symm, le_of_seenAtLeast ho hsame (hs.first_seen _ e₀ he₀)⟩
      · exact hs.held_of_tracked k e₀ he₀ w' hw'
  · dsimp only at hk ⊢
    simp only [logWrite, BTreeMap.get?_insert] at hk
    split_ifs at hk with hpk
    rw [Function.update_noteq (Ne.symm hpk), hs.held_of_untracked k hk]
  · dsimp only at he
    rcases logWrite_entry_cases he with ⟨-, -, hseq, hfirst⟩ | ⟨e₀, he₀, hseq, hfirst⟩
    · rw [hseq, hfirst]
      exact seenAtLeast_write
    · rw [hseq, hfirst]
      exact seenAtLeast_raise (hs.first_seen k e₀ he₀)
  · exact le_first_logWrite config ho (hs.calls_seen c hc) (hs.calls_le_first c hc k) he hseq
  · have hr := hs.running toRemove rest updates hpass
    refine ⟨fun r hr' => ?_, hr.disjoint, hr.sorted,
      fun u hu => seenAtLeast_raise (hr.updates_seen u hu), fun u hu k e he hrest hrem hseq => ?_,
      hr.updates_ge_calls⟩
    · obtain ⟨e₀, he₀, hseq, hfirst⟩ := hr.rest_tracked r hr'
      obtain ⟨e, he, hseq', hfirst'⟩ := @logWrite_entry_of_some config now s.state
        w.partitionId w.sequencerId w.sequenceNumber w.bytesWritten _ _ he₀
      exact ⟨e, he, hseq'.trans hseq, hfirst'.trans hfirst⟩
    · exact le_first_logWrite config ho (hr.updates_seen u hu)
        (fun e₀ he₀ => hr.updates_le_new u hu k e₀ he₀ hrest hrem) he hseq

theorem replaySafe_snapshot {now : Time} (hc : Consistent s) (hs : ReplaySafe s)
    (h : step config s (.snapshot now) = some s') : ReplaySafe s' := by
  obtain ⟨hidle, toPersist, rest, hsel, rfl⟩ := step_snapshot_cases h
  have hperm := selectPartitions_perm hsel
  have htracked : ∀ q ∈ rest ++ toPersist,
      s.state.partitionStats.get? q.partitionId = some q :=
    fun q hq => get?_of_mem_values hc (hperm.subset hq)
  have hseen : ∀ q ∈ rest ++ toPersist, SeenAtLeast s.seen q.sequencerId q.firstSequenceNumber :=
    fun q hq => hs.first_seen _ q (htracked q hq)
  have hnodup := (hperm.map (·.partitionId)).nodup_iff.mpr (nodup_partitionIds hc)
  rw [List.map_append, List.nodup_append] at hnodup
  refine ⟨hs.held_of_tracked, hs.held_of_untracked, hs.first_seen, hs.calls_seen,
    hs.calls_le_first, hs.calls_mono, fun toRemove rest' updates hpass => ?_⟩
  cases hpass
  refine ⟨fun r hr => ⟨r, htracked r (List.mem_append_left _ hr), rfl, rfl⟩,
    fun p hp r hr hpr => ?_, (sequencerMaxes toPersist).sorted, fun u hu => ?_,
    fun u _ k e he hrest hrem _ => ?_, fun u hu c hc hcu => ?_⟩
  · exact hnodup.2.2 (List.mem_map.mpr ⟨r, hr, rfl⟩) (List.mem_map.mpr ⟨p, hp, hpr⟩)
  · obtain ⟨p, hp, hpseq, hpfirst⟩ := mem_sequencerMaxes hu
    rcases minUnpersistedSequenceNumber_cases rest u.1 u.2 with hm | ⟨r, hr, hrseq, hrfirst⟩
    · rw [hm, ← hpseq, ← hpfirst]
      exact hseen p (List.mem_append_right _ hp)
    · rw [← hrfirst, ← hrseq]
      exact hseen r (List.mem_append_left _ hr)
  · have hmem := hperm.symm.subset ((BTreeMap.mem_values_iff _ _).mpr ⟨k, he⟩)
    rcases List.mem_append.mp hmem with hr | hp
    · exact absurd (hc.keys k e he) (hrest e hr)
    · exact absurd (hc.keys k e he) (hrem e hp)
  · obtain ⟨p, hp, hpseq, hpfirst⟩ := mem_sequencerMaxes hu
    rw [← hpfirst]
    exact hs.calls_le_first c hc _ p (htracked p (List.mem_append_right _ hp)) (hpseq.trans hcu.symm)

theorem replaySafe_removeNext (hs : ReplaySafe s) (h : step config s .removeNext = some s') :
    ReplaySafe s' := by
  obtain ⟨p, toRemove, rest, updates, hpass, rfl⟩ := step_removeNext_cases h
  have hget : ∀ k e, (remove s.state p.partitionId).1.partitionStats.get? k = some e →
      p.partitionId ≠ k ∧ s.state.partitionStats.get? k = some e := by
    intro k e he
    simp only [remove, BTreeMap.get?_remove] at he
    split_ifs at he with hk
    exact ⟨hk, he⟩
  have hheld : ∀ k, p.partitionId ≠ k → Function.update s.held p.partitionId [] k = s.held k :=
    fun k hk => Function.update_noteq (Ne.symm hk) _ _
  have hr := hs.running _ rest updates hpass
  refine ⟨fun k e he => ?_, fun k hk => ?_, fun k e he => hs.first_seen k e (hget k e he).2,
    hs.calls_seen, fun c hc k e he => hs.calls_le_first c hc k e (hget k e he).2, hs.calls_mono,
    fun toRemove' rest' updates' hpass' => ?_⟩
  · obtain ⟨hk, he⟩ := hget k e he
    dsimp only
    rw [hheld k hk]
    exact hs.held_of_tracked k e he
  · by_cases hk' : p.partitionId = k
    · subst hk'
      exact Function.update_same _ _ _
    · simp only [remove, BTreeMap.get?_remove, hk', ite_false] at hk
      dsimp only
      rw [hheld k hk', hs.held_of_untracked k hk]
  · cases hpass'
    refine ⟨fun r hr' => ?_, fun q hq => hr.disjoint q (List.mem_cons_of_mem _ hq), hr.sorted,
      hr.updates_seen, fun u hu k e he hrest hrem => ?_, hr.updates_ge_calls⟩
    · obtain ⟨e, he, hseq, hfirst⟩ := hr.rest_tracked r hr'
      refine ⟨e, ?_, hseq, hfirst⟩
      simp only [remove, BTreeMap.get?_remove, hr.disjoint p (List.mem_cons_self _ _) r hr',
        ite_false, he]
    · obtain ⟨hk, he⟩ := hget k e he
      refine hr.updates_le_new u hu k e he hrest fun q hq => ?_
      rcases List.mem_cons.mp hq with rfl | hq
      · exact hk
      · exact hrem q hq

theorem replaySafe_completeTask {t : PersistTask} (hs : ReplaySafe s)
    (h : step config s (.completeTask t) = some s') : ReplaySafe s' := by
  obtain ⟨-, -, rfl⟩ := step_completeTask_cases h
  exact ⟨hs.held_of_tracked, hs.held_of_untracked, hs.first_seen, hs.calls_seen,
    hs.calls_le_first, hs.calls_mono, fun toRemove rest updates hpass =>
      let hr := hs.running toRemove rest updates hpass
      ⟨hr.rest_tracked, hr.disjoint, hr.sorted, hr.updates_seen, hr.updates_le_new,
        hr.updates_ge_calls⟩⟩

/-- The value sent for a sequencer is at most the first sequence number of each of its entries. -/
theorem minUnpersisted_le_first {rest : List PartitionLifecycleStats}
    {sequencerId : SequencerId} {sequenceNumber : SequenceNumber}
    {updates : List (SequencerId × SequenceNumber)}
    (hr : RunningSafe s [] rest ((sequencerId, sequenceNumber) :: updates))
    {k : PartitionId} {e : PartitionLifecycleStats} (he : s.state.partitionStats.get? k = some e)
    (hseq : e.sequencerId = sequencerId) :
    minUnpersistedSequenceNumber rest sequencerId sequenceNumber ≤ e.firstSequenceNumber := by
  by_cases hrest : ∃ r ∈ rest, r.partitionId = k
  · obtain ⟨r, hr', rfl⟩ := hrest
    obtain ⟨e', he', hseq', hfirst⟩ := hr.rest_tracked r hr'
    obtain rfl : e' = e := Option.some.inj (he'.symm.trans he)
    rw [hfirst]
    exact minUnpersistedSequenceNumber_le _ hr' (hseq'.symm.trans hseq)
  · push_neg at hrest
    exact hr.updates_le_new _ (List.mem_cons_self _ _) k e he hrest (fun _ h => nomatch h) hseq

theorem replaySafe_updateMinUnpersisted (hs : ReplaySafe s)
    (h : step config s .updateMinUnpersisted = some s') : ReplaySafe s' := by
  obtain ⟨rest, sequencerId, sequenceNumber, updates, hpass, -, rfl⟩ :=
    step_updateMinUnpersisted_cases h
  have hr := hs.running _ _ _ hpass
  have hsorted := List.pairwise_cons.mp hr.sorted
  have hge : ∀ c ∈ s.calls, c.1 = sequencerId →
      c.2 ≤ minUnpersistedSequenceNumber rest sequencerId sequenceNumber := by
    intro c hc hcs
    rcases minUnpersistedSequenceNumber_cases rest sequencerId sequenceNumber with
      hm | ⟨r, hr', hrseq, hrfirst⟩
    · rw [hm]
      exact hr.updates_ge_calls _ (List.mem_cons_self _ _) c hc hcs
    · obtain ⟨e, he, hseq, hfirst⟩ := hr.rest_tracked r hr'
      rw [← hrfirst, ← hfirst]
      exact hs.calls_le_first c hc _ e he (hseq.trans (hrseq.trans hcs.symm))
  refine ⟨hs.held_of_tracked, hs.held_of_untracked, hs.first_seen, fun c hc => ?_,
    fun c hc k e he hseq => ?_, ?_, fun toRemove' rest' updates' hpass' => ?_⟩
  · rcases List.mem_append.mp hc with hc | hc
    · exact hs.calls_seen c hc
    · obtain rfl := List.mem_singleton.mp hc
      exact hr.updates_seen _ (List.mem_cons_self _ _)
  · rcases List.mem_append.mp hc with hc | hc
    · exact hs.calls_le_first c hc k e he hseq
    · obtain rfl := List.mem_singleton.mp hc
      exact minUnpersisted_le_first hr he hseq
  · exact List.pairwise_append.mpr ⟨hs.calls_mono, List.pairwise_singleton _ _,
      fun c hc c' hc' hcc' => by
        obtain rfl := List.mem_singleton.mp hc'
        exact hge c hc hcc'⟩
  · cases hpass'
    refine ⟨hr.rest_tracked, (fun _ h => nomatch h), hsorted.2,
      fun u hu => hr.updates_seen u (List.mem_cons_of_mem _ hu),
      fun u hu => hr.updates_le_new u (List.mem_cons_of_mem _ hu), fun u hu c hc hcu => ?_⟩
    rcases List.mem_append.mp hc with hc | hc
    · exact hr.updates_ge_calls u (List.mem_cons_of_mem _ hu) c hc hcu
    · obtain rfl := List.mem_singleton.mp hc
      exact absurd hcu (hsorted.1 u hu).ne

theorem replaySafe_finish (hs : ReplaySafe s) (h : step config s .finish = some s') :
    ReplaySafe s' := by
  obtain ⟨-, -, rfl⟩ := step_finish_cases h
  exact ⟨hs.held_of_tracked, hs.held_of_untracked, hs.first_seen, hs.calls_seen,
    hs.calls_le_first, hs.calls_mono, fun _ _ _ h => nomatch h⟩

theorem replaySafe_step {a : Action} (hc : Consistent s) (hs : ReplaySafe s) (ho : Ordered s a)
    (h : step config s a = some s') : ReplaySafe s' := by
  cases a with
  | logWrite w now => exact replaySafe_logWrite hs ho h
  | snapshot now => exact replaySafe_snapshot hc hs h
  | removeNext => exact replaySafe_removeNext hs h
  | completeTask t => exact replaySafe_completeTask hs h
  | updateMinUnpersisted => exact replaySafe_updateMinUnpersisted hs h
  | finish => exact replaySafe_finish hs h

theorem replaySafe_reachable (h : Reachable config Ordered s) : ReplaySafe s := by
  induction h with
  | init => exact replaySafe_init
  | step hr ho hstep ih => exact replaySafe_step (consistent_reachable hr) ih ho hstep

/-! ## The replay point is safe -/

/-- On every run that keeps the contract on writes, the values sent for one sequencer never
decrease, and each value is, when it is sent, at most the sequence number of every write of its
sequencer still held by a tracked partition. -/
theorem update_min_unpersisted_safe (config : LifecycleConfig) (s s' : Sys)
    (hs : Reachable config Ordered s) :
    s.calls.Pairwise (fun c c' => c.1 = c'.1 → c.2 ≤ c'.2) ∧
    (step config s .updateMinUnpersisted = some s' →
      ∃ sequencerId sequenceNumber, s'.calls = s.calls ++ [(sequencerId, sequenceNumber)] ∧
        ∀ k e, s.state.partitionStats.get? k = some e → ∀ w ∈ s.held k,
          w.sequencerId = sequencerId → sequenceNumber ≤ w.sequenceNumber) := by
  have hsafe := replaySafe_reachable hs
  refine ⟨hsafe.calls_mono, fun h => ?_⟩
  have ho : Ordered s .updateMinUnpersisted := trivial
  have hsafe' := replaySafe_reachable (hs.step ho h)
  obtain ⟨rest, sequencerId, sequenceNumber, updates, hpass, -, rfl⟩ :=
    step_updateMinUnpersisted_cases h
  refine ⟨sequencerId, _, rfl, fun k e he w hw hseq => ?_⟩
  obtain ⟨hwseq, hfirst⟩ := hsafe.held_of_tracked k e he w hw
  exact (hsafe'.calls_le_first _ (List.mem_append_right _ (List.mem_singleton_self _)) k e he
    (hwseq.symm.trans hseq)).trans hfirst

/-- Two writes of sequencer 0, then a pass that persists partition 2 for its size while a third
write lands in partition 1, which the pass leaves in memory: each write keeps the contract, and the
replay point sent for sequencer 0 is 3, the first sequence number of partition 1, at most both of
the writes partition 1 holds. -/
theorem update_min_unpersisted_safe_interleaved :
    let config : LifecycleConfig := ⟨10, 5, 100, 1000, 1000⟩
    ∃ s s', runActions config .init [.logWrite ⟨1, 0, 3, 4⟩ 0, .logWrite ⟨2, 0, 5, 150⟩ 0,
        .snapshot 0, .logWrite ⟨1, 0, 7, 1⟩ 0, .removeNext, .completeTask ⟨2, 150⟩] = some s ∧
      step config s .updateMinUnpersisted = some s' ∧ s'.calls = [(0, 3)] ∧
      s.held 1 = [⟨1, 0, 3, 4⟩, ⟨1, 0, 7, 1⟩] ∧
      s.calls.Pairwise (fun c c' => c.1 = c'.1 → c.2 ≤ c'.2) ∧
      (step config s .updateMinUnpersisted = some s' →
        ∃ sequencerId sequenceNumber, s'.calls = s.calls ++ [(sequencerId, sequenceNumber)] ∧
          ∀ k e, s.state.partitionStats.get? k = some e → ∀ w ∈ s.held k,
            w.sequencerId = sequencerId → sequenceNumber ≤ w.sequenceNumber) :=
  have hreach := @Reachable.step ⟨10, 5, 100, 1000, 1000⟩ Ordered _ _ (.completeTask ⟨2, 150⟩)
    (@Reachable.step _ _ _ _ .removeNext
      (@Reachable.step _ _ _ _ (.logWrite ⟨1, 0, 7, 1⟩ 0)
        (@Reachable.step _ _ _ _ (.snapshot 0)
          (@Reachable.step _ _ _ _ (.logWrite ⟨2, 0, 5, 150⟩ 0)
            (@Reachable.step _ _ _ _ (.logWrite ⟨1, 0, 3, 4⟩ 0) .init ⟨nofun, nofun⟩ rfl)
            ⟨fun _ h => by cases h; decide, nofun⟩ rfl)
          trivial rfl)
        ⟨fun _ h => by cases h; decide, fun _ h => by cases h; rfl⟩ rfl)
      trivial rfl)
    trivial rfl
  ⟨_, _, rfl, rfl, rfl, rfl, update_min_unpersisted_safe _ _ _ hreach⟩

end IoxCore.Ingester
