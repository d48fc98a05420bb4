import IoxCore.CacheSystem.Driver

/-!
# No stale load wins

The tag of a running query is the only thing that lets a finished loader tell whether it is still
in charge of its key. This file proves that, on every run of fewer than `2^64` queries, the tags do
their job:

* a loader writes its result to the backend only while its query is the one running for its key,
  and so only if no `set` for that key has run since its query started (`overtaken`);
* every caller that receives a value from a query receives the value that was written to the
  backend when the query stopped running: the loader's result, or the value of the `set` that
  side-loaded it.

The invariant `DriverInv` says that a running query's task is still loading, untouched by any
`set`; that tags at or above the counter are unused; and that every value a task holds or sent is
the one recorded when its query retired.
-/

namespace IoxCore.CacheSystem

variable {K V : Type}

/-- The invariant of every run of fewer than `2^64` queries. -/
structure DriverInv (s : Driver K V) : Prop where
  /-- The task of a running query loads, has no side-loaded value, and no `set` overtook it. -/
  running_task : ∀ k tag, s.state.runningQueries k = some tag →
    s.tasks tag = some ⟨k, .loading, none, false⟩ ∧ s.retired tag = none
  /-- The tags from the counter on have not been handed out. -/
  fresh : ∀ tag, s.state.tagCounter ≤ tag → s.tasks tag = none ∧ s.retired tag = none
  /-- A task sent the value recorded when its query retired. -/
  sent_retired : ∀ tag task v, s.tasks tag = some task → task.phase = .sent v →
    s.retired tag = some (task.key, v)
  /-- A side-loaded value is the one recorded when its query retired. -/
  sideLoaded_retired : ∀ tag task v, s.tasks tag = some task → task.sideLoaded = some v →
    s.retired tag = some (task.key, v)
  /-- Every value a caller received is the one recorded when its query retired. -/
  received_retired : ∀ x ∈ s.received, s.retired x.2.1 = some (x.1, x.2.2)

theorem driverInv_init : DriverInv (.init : Driver K V) where
  running_task _ _ h := nomatch h
  fresh _ _ := ⟨rfl, rfl⟩
  sent_retired _ _ _ h := nomatch h
  sideLoaded_retired _ _ _ h := nomatch h
  received_retired _ h := nomatch h

variable {s s' : Driver K V}

/-- A running query's tag is below the counter, so it differs from every fresh tag. -/
theorem DriverInv.running_lt (hs : DriverInv s) {k : K} {tag : Nat}
    (h : s.state.runningQueries k = some tag) : tag < s.state.tagCounter := by
  by_contra hle
  have := (hs.fresh tag (Nat.le_of_not_lt hle)).1
  rw [(hs.running_task k tag h).1] at this
  cases this

/-- Two running queries with the same tag are for the same key. -/
theorem DriverInv.key_of_running (hs : DriverInv s) {k k' : K} {tag : Nat}
    (h : s.state.runningQueries k = some tag) (h' : s.state.runningQueries k' = some tag) :
    k = k' := by
  have := (hs.running_task k tag h).1.symm.trans (hs.running_task k' tag h').1
  cases this
  rfl

/-- What the invariant says of the task of a running query. -/
theorem DriverInv.task_of_running (hs : DriverInv s) {k : K} {tag : Nat} {task : QueryTask K V}
    (hrun : s.state.runningQueries k = some tag) (htask : s.tasks tag = some task) :
    task.key = k ∧ task.sideLoaded = none ∧ task.overtaken = false := by
  have := htask.symm.trans (hs.running_task k tag hrun).1
  cases this
  exact ⟨rfl, rfl, rfl⟩

/-- A task's tag is below the counter. -/
theorem DriverInv.lt_of_task (hs : DriverInv s) {tag : Nat} {task : QueryTask K V}
    (htask : s.tasks tag = some task) : tag < s.state.tagCounter := by
  by_contra hle
  rw [(hs.fresh tag (Nat.le_of_not_lt hle)).1] at htask
  cases htask

/-! ## Each action keeps the invariant -/

theorem driverInv_await (hs : DriverInv s) (tag : Nat) : DriverInv (s.await tag) :=
  ⟨hs.running_task, hs.fresh, hs.sent_retired, hs.sideLoaded_retired, hs.received_retired⟩

/-- Moving the task of a query that is not running to a new phase keeps the invariant, if the
value it sends, if any, is the recorded one. -/
theorem driverInv_setPhase (hs : DriverInv s) {tag : Nat} {task : QueryTask K V}
    (htask : s.tasks tag = some task) (hnot : ∀ k, s.state.runningQueries k ≠ some tag)
    {phase : TaskPhase V} (hphase : ∀ v, phase = .sent v → s.retired tag = some (task.key, v)) :
    DriverInv { s with tasks := Function.update s.tasks tag (some { task with phase }) } := by
  have hlt := hs.lt_of_task htask
  refine ⟨fun k tag' h => ?_, fun tag' htag => ?_, fun tag' task' v htask' hv => ?_,
    fun tag' task' v htask' hv => ?_, hs.received_retired⟩
  · have hne : tag' ≠ tag := by rintro rfl; exact hnot k h
    simp only [Function.update_apply, hne, ite_false]
    exact hs.running_task k tag' h
  · have hne : tag' ≠ tag := by dsimp only at htag; omega
    simp only [Function.update_apply, hne, ite_false]
    exact hs.fresh tag' htag
  · simp only [Function.update_apply] at htask'
    split_ifs at htask' with htag
    · cases htask'
      subst htag
      exact hphase v hv
    · exact hs.sent_retired tag' task' v htask' hv
  · simp only [Function.update_apply] at htask'
    split_ifs at htask' with htag
    · cases htask'
      subst htag
      exact hs.sideLoaded_retired tag' task v htask hv
    · exact hs.sideLoaded_retired tag' task' v htask' hv

variable [DecidableEq K]

/-- Retiring the running query of `k` with `v`, whatever the backend then holds, keeps the invariant
if the query's task only ever sends `v`. -/
theorem driverInv_retire (hs : DriverInv s) {k : K} {tag : Nat}
    (hk : s.state.runningQueries k = some tag) (cachedEntries : K → Option V) {v : V}
    {task : QueryTask K V} (hkey : task.key = k) (hphase : ∀ v', task.phase = .sent v' → v' = v)
    (hside : ∀ v', task.sideLoaded = some v' → v' = v) :
    DriverInv { s with
      state := { s.state with
        runningQueries := Function.update s.state.runningQueries k none, cachedEntries }
      tasks := Function.update s.tasks tag (some task)
      retired := Function.update s.retired tag (some (k, v)) } := by
  have hlt := hs.running_lt hk
  refine ⟨fun k' tag' h' => ?_, fun tag' htag => ?_, fun tag' task' v' htask' hv => ?_,
    fun tag' task' v' htask' hv => ?_, fun x hx => ?_⟩
  · simp only [Function.update_apply] at h' ⊢
    split_ifs at h' with hk'
    have hne : tag' ≠ tag := fun he => hk' (hs.key_of_running (he ▸ h') hk)
    simp only [hne, ite_false]
    exact hs.running_task k' tag' h'
  · have hne : tag' ≠ tag := by dsimp only at htag; omega
    simp only [Function.update_apply, hne, ite_false]
    exact hs.fresh tag' htag
  · simp only [Function.update_apply] at htask' ⊢
    split_ifs at htask' ⊢
    · cases htask'
      rw [hkey, hphase v' hv]
    · exact hs.sent_retired tag' task' v' htask' hv
  · simp only [Function.update_apply] at htask' ⊢
    split_ifs at htask' ⊢
    · cases htask'
      rw [hkey, hside v' hv]
    · exact hs.sideLoaded_retired tag' task' v' htask' hv
  · have := hs.received_retired x hx
    simp only [Function.update_apply]
    split_ifs with htag
    · rw [htag, (hs.running_task k tag hk).2] at this
      cases this
    · exact this

theorem driverInv_startQuery (hs : DriverInv s) {k : K}
    (hlt : s.state.tagCounter + 1 < 2 ^ 64) : DriverInv (s.startQuery k) := by
  have hfresh := hs.fresh _ (Nat.le_refl _)
  have hne : ∀ tag task, s.tasks tag = some task → tag ≠ s.state.tagCounter := by
    rintro tag task htask rfl
    rw [hfresh.1] at htask
    cases htask
  refine ⟨fun k' tag h => ?_, fun tag htag => ?_, fun tag task v htask hv => ?_,
    fun tag task v htask hv => ?_, hs.received_retired⟩
  · simp only [Driver.startQuery, Function.update_apply] at h ⊢
    split_ifs at h with hk
    · cases h
      exact ⟨by simp [hk], hfresh.2⟩
    · have hrun := hs.running_task k' tag h
      simp only [hne tag _ hrun.1, ite_false]
      exact hrun
  · simp only [Driver.startQuery, Nat.mod_eq_of_lt hlt] at htag
    have := hs.fresh tag (by omega)
    simp only [Driver.startQuery, Function.update_apply]
    rw [if_neg (by omega)]
    exact this
  · simp only [Driver.startQuery, Function.update_apply] at htask
    split_ifs at htask
    · cases htask
      cases hv
    · exact hs.sent_retired tag task v htask hv
  · simp only [Driver.startQuery, Function.update_apply] at htask
    split_ifs at htask
    · cases htask
      cases hv
    · exact hs.sideLoaded_retired tag task v htask hv

theorem driverInv_sideLoadInto (hs : DriverInv s) (k : K) (v : V) :
    DriverInv (s.sideLoadInto k v) ∧ (s.sideLoadInto k v).state.runningQueries k = none := by
  unfold Driver.sideLoadInto
  split
  · rename_i tag hk
    refine ⟨?_, Function.update_same _ _ _⟩
    rw [(hs.running_task k tag hk).1]
    exact driverInv_retire hs hk _ rfl (fun _ h => nomatch h) fun _ h => (Option.some.inj h).symm
  · exact ⟨hs, ‹_›⟩

theorem driverInv_store (hs : DriverInv s) {k : K} (hk : s.state.runningQueries k = none)
    (v : V) : DriverInv (s.store k v) := by
  refine ⟨fun k' tag h => ?_, fun tag htag => ?_, fun tag task v' htask hv => ?_,
    fun tag task v' htask hv => ?_, hs.received_retired⟩
  · have h₀ : s.state.runningQueries k' = some tag := h
    have hrun := hs.running_task k' tag h₀
    have hne : k' ≠ k := by rintro rfl; rw [hk] at h₀; cases h₀
    exact ⟨by simp [Driver.store, hrun.1, hne], hrun.2⟩
  · exact ⟨by simp [Driver.store, (hs.fresh tag htag).1], (hs.fresh tag htag).2⟩
  · simp only [Driver.store, Option.map_eq_some'] at htask
    obtain ⟨task₀, htask₀, rfl⟩ := htask
    split_ifs at hv ⊢ <;> exact hs.sent_retired tag task₀ v' htask₀ hv
  · simp only [Driver.store, Option.map_eq_some'] at htask
    obtain ⟨task₀, htask₀, rfl⟩ := htask
    split_ifs at hv ⊢ <;> exact hs.sideLoaded_retired tag task₀ v' htask₀ hv

/-- Finalizing a query without a value only ever removes a running query. -/
theorem runningQueries_finalize_none {state : CacheState K V} {k k' : K} {tag tag' : Nat}
    (h : (finalize state k tag none).1.runningQueries k' = some tag') :
    state.runningQueries k' = some tag' ∧ (state.runningQueries k = some tag → k' ≠ k) := by
  rw [finalize_eq] at h
  split_ifs at h with hrun
  · simp only [Function.update_apply] at h
    split_ifs at h with hk
    exact ⟨h, fun _ => hk⟩
  · exact ⟨h, fun h' => absurd h' hrun⟩

theorem driverInv_finalize_none (hs : DriverInv s) (k : K) (tag : Nat) :
    DriverInv { s with state := (finalize s.state k tag none).1 } := by
  have hcounter : (finalize s.state k tag none).1.tagCounter = s.state.tagCounter := by
    rw [finalize_eq]; split_ifs <;> rfl
  exact ⟨fun k' tag' h => hs.running_task k' tag' (runningQueries_finalize_none h).1,
    fun tag' htag => hs.fresh tag' (hcounter ▸ htag), hs.sent_retired, hs.sideLoaded_retired,
    hs.received_retired⟩

/-- Once its task finalized it, a query is not running. -/
theorem not_running_finalize_none (hs : DriverInv s) {tag : Nat} {task : QueryTask K V}
    (htask : s.tasks tag = some task) (k : K) :
    (finalize s.state task.key tag none).1.runningQueries k ≠ some tag := by
  intro h
  obtain ⟨hrun, hkey⟩ := runningQueries_finalize_none h
  have hk := (hs.task_of_running hrun htask).1
  exact hkey (hk ▸ hrun) hk.symm

theorem driverInv_loaderDone (hs : DriverInv s) {tag : Nat} {v : V}
    (h : step s (.loaderDone tag v) = some s') : DriverInv s' := by
  obtain ⟨task, htask, -, ⟨hrun, rfl⟩ | ⟨hrun, rfl⟩⟩ := step_loaderDone_cases h
  · have hside := (hs.task_of_running hrun htask).2.1
    exact driverInv_retire hs hrun _ rfl (fun _ h => (TaskPhase.sent.inj h).symm)
      fun _ h => nomatch hside.symm.trans h
  · refine driverInv_setPhase hs htask (fun k hk => hrun ?_) (fun _ h => nomatch h)
    rwa [(hs.task_of_running hk htask).1]

theorem driverInv_loaderPanic (hs : DriverInv s) {tag : Nat}
    (h : step s (.loaderPanic tag) = some s') : DriverInv s' := by
  obtain ⟨task, htask, -, rfl⟩ := step_loaderPanic_cases h
  exact driverInv_setPhase (driverInv_finalize_none hs task.key tag) htask
    (not_running_finalize_none hs htask) (fun _ h => nomatch h)

theorem driverInv_sideLoad (hs : DriverInv s) {tag : Nat} (h : step s (.sideLoad tag) = some s') :
    DriverInv s' := by
  obtain ⟨task, v, htask, hside, ⟨-, rfl⟩ | ⟨-, rfl⟩⟩ := step_sideLoad_cases h
  · exact driverInv_setPhase (driverInv_finalize_none hs task.key tag) htask
      (not_running_finalize_none hs htask)
      (fun v' hv => by cases hv; exact hs.sideLoaded_retired tag task v htask hside)
  · refine driverInv_setPhase hs htask (fun k hk => ?_)
      (fun v' hv => by cases hv; exact hs.sideLoaded_retired tag task v htask hside)
    rw [(hs.task_of_running hk htask).2.1] at hside
    cases hside

theorem driverInv_receive (hs : DriverInv s) {tag : Nat} (h : step s (.receive tag) = some s') :
    DriverInv s' := by
  obtain ⟨task, v, htask, hphase, rfl⟩ := step_receive_cases h
  refine ⟨hs.running_task, hs.fresh, hs.sent_retired, hs.sideLoaded_retired, fun x hx => ?_⟩
  rcases List.mem_append.mp hx with hx | hx
  · exact hs.received_retired x hx
  · obtain rfl := List.mem_singleton.mp hx
    exact hs.sent_retired tag task v htask hphase

theorem driverInv_step {a : DriverAction K V} (hs : DriverInv s) (ha : FewQueries s a)
    (h : step s a = some s') : DriverInv s' := by
  cases a with
  | get k =>
    rcases step_get_cases h with rfl | ⟨tag, -, rfl⟩ | ⟨hc, hr, rfl⟩
    · exact hs
    · exact driverInv_await hs tag
    · exact driverInv_startQuery hs (ha hc hr)
  | peek k =>
    rcases step_peek_cases h with rfl | ⟨tag, -, rfl⟩
    · exact hs
    · exact driverInv_await hs tag
  | set k v =>
    cases h
    obtain ⟨hs', hk⟩ := driverInv_sideLoadInto hs k v
    exact driverInv_store hs' hk v
  | loaderDone tag v => exact driverInv_loaderDone hs h
  | loaderPanic tag => exact driverInv_loaderPanic hs h
  | sideLoad tag => exact driverInv_sideLoad hs h
  | receive tag => exact driverInv_receive hs h
  | evict k =>
    cases h
    exact ⟨hs.running_task, hs.fresh, hs.sent_retired, hs.sideLoaded_retired,
      hs.received_retired⟩

theorem driverInv_reachable (h : Reachable s) : DriverInv s := by
  induction h with
  | init => exact driverInv_init
  | step _ ha hstep ih => exact driverInv_step ih ha hstep

/-! ## Retiring a query -/

/-- A query stops running with a value in two places, `submit` and `set`; both store that value
for the query's key. -/
theorem retired_step {a : DriverAction K V} (h : step s a = some s') {tag : Nat} {k : K} {v : V}
    (hnone : s.retired tag = none) (hsome : s'.retired tag = some (k, v)) :
    s.state.runningQueries k = some tag ∧ s'.state.runningQueries k = none ∧
      s'.state.cachedEntries k = some v := by
  have hsame : s'.retired = s.retired → False := fun he => by rw [he, hnone] at hsome; cases hsome
  cases a with
  | get k' =>
    rcases step_get_cases h with rfl | ⟨_, -, rfl⟩ | ⟨-, -, rfl⟩ <;> exact (hsame rfl).elim
  | peek k' => rcases step_peek_cases h with rfl | ⟨_, -, rfl⟩ <;> exact (hsame rfl).elim
  | set k' v' =>
    cases h
    unfold Driver.sideLoadInto at hsome ⊢
    split at hsome
    · rename_i tag' hk'
      simp only [Driver.store, Function.update_apply] at hsome ⊢
      split_ifs at hsome with htag
      · cases hsome
        subst htag
        simp [hk']
      · rw [hnone] at hsome
        cases hsome
    · simp only [Driver.store, hnone] at hsome
      cases hsome
  | loaderDone tag' v' =>
    obtain ⟨task, -, -, ⟨hrun, rfl⟩ | ⟨-, rfl⟩⟩ := step_loaderDone_cases h
    · simp only [Function.update_apply] at hsome ⊢
      split_ifs at hsome with htag
      · cases hsome
        subst htag
        simp [hrun]
      · rw [hnone] at hsome
        cases hsome
    · exact (hsame rfl).elim
  | loaderPanic tag' =>
    obtain ⟨_, -, -, rfl⟩ := step_loaderPanic_cases h
    exact (hsame rfl).elim
  | sideLoad tag' =>
    obtain ⟨_, _, -, -, ⟨-, rfl⟩ | ⟨-, rfl⟩⟩ := step_sideLoad_cases h <;> exact (hsame rfl).elim
  | receive tag' =>
    obtain ⟨_, _, -, -, rfl⟩ := step_receive_cases h
    exact (hsame rfl).elim
  | evict k' =>
    cases h
    exact (hsame rfl).elim

/-! ## No stale load wins -/

/-- On every run of fewer than `2^64` queries: a finished loader writes only its own key, only while
its query is the one running for it, and only if no `set` for that key has run since the query
started; a query stops running with a value only by storing that value for its key; and every
value a waiter received is the value its query stored when it stopped running. -/
theorem cacheDriver_no_stale_load (s : Driver K V) (hs : Reachable s) :
    (∀ tag v s', step s (.loaderDone tag v) = some s' → ∃ task, s.tasks tag = some task ∧
      ∀ k, s'.state.cachedEntries k = s.state.cachedEntries k ∨
        (k = task.key ∧ s.state.runningQueries k = some tag ∧ task.overtaken = false ∧
          s'.state.cachedEntries k = some v)) ∧
    (∀ a s', step s a = some s' → ∀ tag k v, s.retired tag = none →
      s'.retired tag = some (k, v) →
        s.state.runningQueries k = some tag ∧ s'.state.runningQueries k = none ∧
          s'.state.cachedEntries k = some v) ∧
    ∀ x ∈ s.received, s.retired x.2.1 = some (x.1, x.2.2) := by
  have hinv := driverInv_reachable hs
  refine ⟨fun tag v s' h => ?_, fun a s' h tag k v => retired_step h, hinv.received_retired⟩
  obtain ⟨task, htask, -, ⟨hrun, rfl⟩ | ⟨-, rfl⟩⟩ := step_loaderDone_cases h
  · refine ⟨_, htask, fun k => ?_⟩
    by_cases hk : k = task.key
    · subst hk
      exact .inr ⟨rfl, hrun, (hinv.task_of_running hrun htask).2.2, Function.update_same _ _ _⟩
    · exact .inl (Function.update_noteq hk _ _)
  · exact ⟨task, htask, fun _ => .inl rfl⟩

/-- A `get` for key 1 starts a query that a second `get` joins, and a `set` overtakes it: the
loader, finishing late with 7, finds its query no longer running and leaves the side-loaded 5 in
the backend, and the waiter receives 5, the value stored when the query was retired. -/
theorem cacheDriver_no_stale_load_overtaken :
    let s : Driver Nat Nat := (((Driver.init.startQuery 1).await 0).sideLoadInto 1 5).store 1 5
    (∀ tag v s', step s (.loaderDone tag v) = some s' → ∃ task, s.tasks tag = some task ∧
      ∀ k, s'.state.cachedEntries k = s.state.cachedEntries k ∨
        (k = task.key ∧ s.state.runningQueries k = some tag ∧ task.overtaken = false ∧
          s'.state.cachedEntries k = some v)) ∧
    (∀ a s', step s a = some s' → ∀ tag k v, s.retired tag = none →
      s'.retired tag = some (k, v) →
        s.state.runningQueries k = some tag ∧ s'.state.runningQueries k = none ∧
          s'.state.cachedEntries k = some v) ∧
    (∀ x ∈ s.received, s.retired x.2.1 = some (x.1, x.2.2)) ∧
    ∃ s₁ s₂ s₃, step s (.loaderDone 0 7) = some s₁ ∧ step s₁ (.sideLoad 0) = some s₂ ∧
      step s₂ (.receive 0) = some s₃ ∧ s₁.state.cachedEntries 1 = some 5 ∧
      s₃.received = [(1, 0, 5)] ∧ ∀ x ∈ s₃.received, s₃.retired x.2.1 = some (x.1, x.2.2) :=
  have hreach : Reachable ((((Driver.init.startQuery 1).await 0).sideLoadInto 1 5).store 1 5 :
      Driver Nat Nat) :=
    @Reachable.step Nat Nat _ _ _ (.set 1 5)
      (@Reachable.step Nat Nat _ _ _ (.get 1)
        (@Reachable.step Nat Nat _ _ _ (.get 1) .init (fun _ _ => by decide) rfl)
        (fun _ _ => by decide) rfl) trivial rfl
  have hreach₃ := @Reachable.step Nat Nat _ _ _ (.receive 0)
    (@Reachable.step Nat Nat _ _ _ (.sideLoad 0)
      (@Reachable.step Nat Nat _ _ _ (.loaderDone 0 7) hreach trivial rfl) trivial rfl) trivial rfl
  have ⟨hdone, hretired, hreceived⟩ := cacheDriver_no_stale_load _ hreach
  ⟨hdone, hretired, hreceived, _, _, _, rfl, rfl, rfl, rfl, rfl,
    (cacheDriver_no_stale_load _ hreach₃).2.2⟩

end IoxCore.CacheSystem
