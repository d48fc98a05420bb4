import Mathlib.Algebra.Order.Ring.Nat
import Mathlib.Logic.Function.Basic

/-!
# The cache driver

`cache_system/src/cache/driver.rs`. A `CacheDriver` puts a loader in front of a cache backend. A
`get` for a key that is neither cached nor loading starts a query: a task that runs the loader and
whose result every caller for that key awaits. `set` may side-load a value into a running query, and
the backend may evict entries at any time. Each query carries a tag from `tag_counter`, so that a
loader whose query has been side-loaded, and perhaps restarted, can tell that it is no longer in
charge of its key.

`step` is one atomic section: one critical section under the state lock, or one poll of a query's
task. The two places where the task can observe the side-loaded value, before and after the loader
finishes, are `sideLoad` and `loaderDone`; since `select_biased!` polls the side-load channel first,
the model lets `loaderDone` also run after a side-load, which only adds runs. Waiters are the callers
of `get_with_status` and `peek_with_status` that await a running query.

The model keeps three ghost fields that no code reads: `received`, what each waiter got; `retired`,
the key and value written to the backend when a query stopped running with a value; and
`overtaken`, whether a `set` for the task's key has run since the task started.

`tag_counter` is a `u64`; its increment wraps, as in a release build.
-/

namespace IoxCore.CacheSystem

section Model

variable {K V : Type} [DecidableEq K]

/-- `CacheState`: the backend, the tags of the running queries, and the tag counter. -/
structure CacheState (K V : Type) where
  cachedEntries : K → Option V
  runningQueries : K → Option Nat
  tagCounter : Nat

/-- `CacheDriver::new`: an empty backend and no running query. -/
def CacheState.new : CacheState K V := ⟨fun _ => none, fun _ => none, 0⟩

/-- `ResultSubmitter::finalize`, the critical section: whether the query with `tag` is still the
one running for `k`, and the state after it retired the query, storing `v` if it has one. -/
def finalize (state : CacheState K V) (k : K) (tag : Nat) (v : Option V) : CacheState K V × Bool :=
  match state.runningQueries k with
  | some runningTag =>
    if runningTag = tag then
      ({ state with
        runningQueries := Function.update state.runningQueries k none
        cachedEntries := match v with
          | some v => Function.update state.cachedEntries k (some v)
          | none => state.cachedEntries }, true)
    else (state, false)
  | none => (state, false)

/-- Where a query's task is. -/
inductive TaskPhase (V : Type)
  /-- The loader runs. -/
  | loading
  /-- `submit` found the query no longer running; the task waits for the side-loaded value. -/
  | spinning
  /-- The task sent `v` to the waiters. -/
  | sent (v : V)
  /-- The loader panicked, so the waiters' channel is closed. -/
  | dead

/-- The task of a running or finished query. -/
structure QueryTask (K V : Type) where
  key : K
  phase : TaskPhase V
  /-- The value `set` sent on the side-load channel, not yet taken. -/
  sideLoaded : Option V
  /-- Ghost: a `set` for `key` has run since the task started. -/
  overtaken : Bool

/-- The driver, its query tasks, and the callers awaiting a query. -/
structure Driver (K V : Type) where
  state : CacheState K V
  tasks : Nat → Option (QueryTask K V)
  /-- The tags the waiting callers await, one entry per caller. -/
  waiting : List Nat
  /-- Ghost: the key, tag and value of every value a waiter received. -/
  received : List (K × Nat × V)
  /-- Ghost: the key and value written to the backend when a query stopped running. -/
  retired : Nat → Option (K × V)

/-- A driver with no query yet. -/
def Driver.init : Driver K V := ⟨.new, fun _ => none, [], [], fun _ => none⟩

/-- One atomic section of the callers, of the query tasks, or of the backend. -/
inductive DriverAction (K V : Type)
  /-- `get_with_status`, up to awaiting the query. -/
  | get (k : K)
  /-- `peek_with_status`, up to awaiting the query. -/
  | peek (k : K)
  /-- `set`. -/
  | set (k : K) (v : V)
  /-- The loader of the query with this tag returns `v`, which it submits. -/
  | loaderDone (tag : Nat) (v : V)
  /-- The loader of the query with this tag panics; dropping the submitter finalizes it. -/
  | loaderPanic (tag : Nat)
  /-- The task takes the side-loaded value and sends it to the waiters. -/
  | sideLoad (tag : Nat)
  /-- A caller awaiting the query with this tag receives its value. -/
  | receive (tag : Nat)
  /-- The backend evicts the entry of `k`. -/
  | evict (k : K)

/-- The waiting part of `get_with_status` and `peek_with_status`: join the running query. -/
def Driver.await (s : Driver K V) (tag : Nat) : Driver K V := { s with waiting := s.waiting ++ [tag] }

/-- `get_with_status` on a miss with no running query: spawn the query with the next tag. -/
def Driver.startQuery (s : Driver K V) (k : K) : Driver K V :=
  let tag := s.state.tagCounter
  { s with
    state := { s.state with
      tagCounter := (tag + 1) % 2 ^ 64
      runningQueries := Function.update s.state.runningQueries k (some tag) }
    tasks := Function.update s.tasks tag (some ⟨k, .loading, none, false⟩)
    waiting := s.waiting ++ [tag] }

/-- The first part of `set`: retire the running query for `k`, if any, and send it `v`. -/
def Driver.sideLoadInto (s : Driver K V) (k : K) (v : V) : Driver K V :=
  match s.state.runningQueries k with
  | some tag => { s with
      state := { s.state with runningQueries := Function.update s.state.runningQueries k none }
      tasks := Function.update s.tasks tag ((s.tasks tag).map fun task =>
        { task with sideLoaded := some v })
      retired := Function.update s.retired tag (some (k, v)) }
  | none => s

/-- The rest of `set`: store `v`, and mark every task for `k` as overtaken. -/
def Driver.store (s : Driver K V) (k : K) (v : V) : Driver K V :=
  { s with
    state := { s.state with cachedEntries := Function.update s.state.cachedEntries k (some v) }
    tasks := fun tag => (s.tasks tag).map fun task =>
      if task.key = k then { task with overtaken := true } else task }

/-- The effect of one action, `none` where it is not enabled. -/
def step (s : Driver K V) : DriverAction K V → Option (Driver K V)
  | .get k =>
    match s.state.cachedEntries k with
    | some _ => some s
    | none =>
      match s.state.runningQueries k with
      | some tag => some (s.await tag)
      | none => some (s.startQuery k)
  | .peek k =>
    match s.state.cachedEntries k with
    | some _ => some s
    | none =>
      match s.state.runningQueries k with
      | some tag => some (s.await tag)
      | none => some s
  | .set k v => some ((s.sideLoadInto k v).store k v)
  | .loaderDone tag v =>
    match s.tasks tag with
    | some task =>
      match task.phase with
      | .loading =>
        let (state, wasRunning) := finalize s.state task.key tag (some v)
        some { s with
          state
          tasks := Function.update s.tasks tag
            (some { task with phase := if wasRunning then .sent v else .spinning })
          retired := if wasRunning then Function.update s.retired tag (some (task.key, v))
            else s.retired }
      | _ => none
    | none => none
  | .loaderPanic tag =>
    match s.tasks tag with
    | some task =>
      match task.phase with
      | .loading => some { s with
          state := (finalize s.state task.key tag none).1
          tasks := Function.update s.tasks tag (some { task with phase := .dead }) }
      | _ => none
    | none => none
  | .sideLoad tag =>
    match s.tasks tag with
    | some task =>
      match task.sideLoaded, task.phase with
      | some v, .loading => some { s with
          state := (finalize s.state task.key tag none).1
          tasks := Function.update s.tasks tag (some { task with phase := .sent v }) }
      | some v, .spinning => some { s with
          tasks := Function.update s.tasks tag (some { task with phase := .sent v }) }
      | _, _ => none
    | none => none
  | .receive tag =>
    if tag ∈ s.waiting then
      match s.tasks tag with
      | some task =>
        match task.phase with
        | .sent v => some { s with
            waiting := s.waiting.erase tag
            received := s.received ++ [(task.key, tag, v)] }
        | _ => none
      | none => none
    else none
  | .evict k => some { s with
      state := { s.state with
        cachedEntries := Function.update s.state.cachedEntries k none } }

/-! ## What each action does -/

theorem finalize_eq (state : CacheState K V) (k : K) (tag : Nat) (v : Option V) :
    finalize state k tag v =
      if state.runningQueries k = some tag then
        ({ state with
          runningQueries := Function.update state.runningQueries k none
          cachedEntries := match v with
            | some v => Function.update state.cachedEntries k (some v)
            | none => state.cachedEntries }, true)
      else (state, false) := by
  unfold finalize
  split
  · rename_i runningTag h
    simp only [h, Option.some.injEq]
  · simp_all

variable {s s' : Driver K V}

theorem step_get_cases {k : K} (h : step s (.get k) = some s') :
    s' = s ∨ (∃ tag, s.state.runningQueries k = some tag ∧ s' = s.await tag) ∨
      (s.state.cachedEntries k = none ∧ s.state.runningQueries k = none ∧ s' = s.startQuery k) := by
  simp only [step] at h
  split at h
  · exact .inl (Option.some.inj h).symm
  · split at h
    · exact .inr (.inl ⟨_, ‹_›, (Option.some.inj h).symm⟩)
    · exact .inr (.inr ⟨‹_›, ‹_›, (Option.some.inj h).symm⟩)

theorem step_peek_cases {k : K} (h : step s (.peek k) = some s') :
    s' = s ∨ ∃ tag, s.state.runningQueries k = some tag ∧ s' = s.await tag := by
  simp only [step] at h
  split at h
  · exact .inl (Option.some.inj h).symm
  · split at h
    · exact .inr ⟨_, ‹_›, (Option.some.inj h).symm⟩
    · exact .inl (Option.some.inj h).symm

theorem step_loaderDone_cases {tag : Nat} {v : V} (h : step s (.loaderDone tag v) = some s') :
    ∃ task, s.tasks tag = some task ∧ task.phase = .loading ∧
      ((s.state.runningQueries task.key = some tag ∧ s' = { s with
          state := { s.state with
            runningQueries := Function.update s.state.runningQueries task.key none
            cachedEntries := Function.update s.state.cachedEntries task.key (some v) }
          tasks := Function.update s.tasks tag (some { task with phase := .sent v })
          retired := Function.update s.retired tag (some (task.key, v)) }) ∨
       (s.state.runningQueries task.key ≠ some tag ∧ s' = { s with
          tasks := Function.update s.tasks tag (some { task with phase := .spinning }) })) := by
  simp only [step] at h
  split at h
  · rename_i task htask
    split at h
    · rename_i hphase
      refine ⟨task, htask, hphase, ?_⟩
      rw [finalize_eq] at h
      by_cases hrun : s.state.runningQueries task.key = some tag
      · simp only [hrun, ite_true, Option.some.injEq] at h
        exact .inl ⟨hrun, h.symm⟩
      · simp only [hrun, ite_false, Option.some.injEq, Bool.false_eq_true] at h
        exact .inr ⟨hrun, h.symm⟩
    · cases h
  · cases h

theorem step_loaderPanic_cases {tag : Nat} (h : step s (.loaderPanic tag) = some s') :
    ∃ task, s.tasks tag = some task ∧ task.phase = .loading ∧ s' = { s with
      state := (finalize s.state task.key tag none).1
      tasks := Function.update s.tasks tag (some { task with phase := .dead }) } := by
  simp only [step] at h
  split at h
  · split at h
    · exact ⟨_, ‹_›, ‹_›, (Option.some.inj h).symm⟩
    · cases h
  · cases h

theorem step_sideLoad_cases {tag : Nat} (h : step s (.sideLoad tag) = some s') :
    ∃ task v, s.tasks tag = some task ∧ task.sideLoaded = some v ∧
      ((task.phase = .loading ∧ s' = { s with
          state := (finalize s.state task.key tag none).1
          tasks := Function.update s.tasks tag (some { task with phase := .sent v }) }) ∨
       (task.phase = .spinning ∧ s' = { s with
          tasks := Function.update s.tasks tag (some { task with phase := .sent v }) })) := by
  simp only [step] at h
  split at h
  · split at h
    · exact ⟨_, _, ‹_›, ‹_›, .inl ⟨‹_›, (Option.some.inj h).symm⟩⟩
    · exact ⟨_, _, ‹_›, ‹_›, .inr ⟨‹_›, (Option.some.inj h).symm⟩⟩
    · cases h
  · cases h

theorem step_receive_cases {tag : Nat} (h : step s (.receive tag) = some s') :
    ∃ task v, s.tasks tag = some task ∧ task.phase = .sent v ∧ s' = { s with
      waiting := s.waiting.erase tag
      received := s.received ++ [(task.key, tag, v)] } := by
  simp only [step] at h
  split_ifs at h
  split at h
  · split at h
    · exact ⟨_, _, ‹_›, ‹_›, (Option.some.inj h).symm⟩
    · cases h
  · cases h

/-- Runs of fewer than `2^64` queries: a `get` that starts a query does not wrap the counter. -/
def FewQueries (s : Driver K V) : DriverAction K V → Prop
  | .get k => s.state.cachedEntries k = none → s.state.runningQueries k = none →
      s.state.tagCounter + 1 < 2 ^ 64
  | _ => True

/-- The states reachable from a fresh driver along runs of fewer than `2^64` queries. -/
inductive Reachable : Driver K V → Prop
  | init : Reachable .init
  | step {s s' : Driver K V} {a : DriverAction K V} : Reachable s → FewQueries s a →
      step s a = some s' → Reachable s'

end Model

end IoxCore.CacheSystem
